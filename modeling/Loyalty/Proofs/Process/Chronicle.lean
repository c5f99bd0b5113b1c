import Mathlib.Data.Fin.Tuple.Basic
import Loyalty.Proofs.Process.Hearing

/-!
# Chronicles

`Activity.After` keeps what an activity has heard, and leaves crowds out. Where it matters how long
somebody slept before he asked again, or where within an activity something was asked, more has to
be kept. A *chronicle* tells what happened to an activity and where: each answer that it was given
and each pause that came to its end, in the order in which this happened. That several have ended
who went on side by side is not told, since nobody else can see it.

`Activity.Lives a H b` says that the chronicle `H` can have happened to `a` and leaves `b` to be
done. Nothing is said of who gave the answers. As whoever is free to go on may be the next to do so,
all interleavings are among the lives of an activity; and as crowds have their steps as forks have,
no number of handlers is too large.

Main statements: what happened to an activity that consists of two happened to the first of them,
or, when that one has ended, to the first and then to the second; what happened to several side by
side happened to each of them at its own places; and whatever moves are made, a member of a pool has
lived through what the log says of it.
-/

namespace Loyalty

open Function (update)

/-! ## Things that happened at places -/

/-- What happened in the order in which it happened, and where. -/
abbrev Placed (α : Type) : Type := List (Place × α)

namespace Placed

variable {α : Type}

/-- What happened to a part, as something that happened to the whole. -/
def within (i : Nat) (H : Placed α) : Placed α :=
  H.map fun x => (i :: x.1, x.2)

/-- Whether something happened to the part with a number, and where within it. -/
def enter? (i : Nat) : Place × α → Option (Place × α)
  | ([], _) => none
  | (j :: ρ, x) => if j = i then some (ρ, x) else none

/-- What happened to the part with a number. -/
def side (H : Placed α) (i : Nat) : Placed α :=
  H.filterMap (enter? i)

/-- What happened at a place and inwards from it. -/
def under (H : Placed α) : Place → Placed α
  | [] => H
  | i :: π => (H.side i).under π

@[simp] theorem side_append (H H' : Placed α) (i : Nat) :
    side (H ++ H') i = H.side i ++ side H' i :=
  List.filterMap_append

@[simp] theorem side_within (H : Placed α) (i j : Nat) :
    (H.within j).side i = if j = i then H else [] := by
  by_cases hj : j = i
  · simp [side, within, List.filterMap_map, Function.comp_def, enter?, hj]
  · simp [side, within, List.filterMap_map, Function.comp_def, enter?, hj]

@[simp] theorem under_append (H H' : Placed α) (π : Place) :
    under (H ++ H') π = H.under π ++ under H' π := by
  induction π generalizing H H' with
  | nil => rfl
  | cons i π ih => rw [under, under, under, side_append, ih]

theorem toList_within (i : Nat) (x? : Option (Place × α)) :
    (x?.map fun x => (i :: x.1, x.2)).toList = within i x?.toList := by
  cases x? <;> rfl

theorem side_around (i : Nat) (π : Place) (x : α) (before after : Placed α) :
    side (before ++ (i :: π, x) :: after) i = before.side i ++ (π, x) :: after.side i := by
  simp [side, enter?]

/-- Something that happened to a part happened to the whole. -/
theorem exists_of_side_eq {H before after : Placed α} {i : Nat} {π : Place} {x : α}
    (h : H.side i = before ++ (π, x) :: after) :
    ∃ before' after', H = before' ++ (i :: π, x) :: after' ∧ side before' i = before ∧
      side after' i = after := by
  obtain ⟨first, second, rfl, hfirst, hsecond⟩ := List.filterMap_eq_append_iff.1 h
  obtain ⟨skipped, y, rest, rfl, hskipped, hy, hrest⟩ := List.filterMap_eq_cons_iff.1 hsecond
  obtain rfl : y = (i :: π, x) := by
    obtain ⟨ρ, z⟩ := y
    cases ρ with
    | nil => cases hy
    | cons j ρ =>
      rw [enter?] at hy
      split at hy
      · next hj =>
        cases hy
        rw [hj]
      · cases hy
  refine ⟨first ++ skipped, rest, by rw [List.append_assoc], ?_, hrest⟩
  have hnone : side skipped i = [] := List.filterMap_eq_nil_iff.2 hskipped
  rw [side_append, hnone, List.append_nil]
  exact hfirst

end Placed

/-- Something that happens to an activity. -/
inductive Happening where
  /-- a request is answered -/
  | answered (x : Exchange)
  /-- a pause of so many nanoseconds is over -/
  | rested (nanos : Nat)

/-- What happened to an activity. -/
abbrev Chronicle : Type := Placed Happening

namespace Chronicle

/-- The activity itself was answered. -/
abbrev heard (r : Request) (x : r.Answer) : Place × Happening :=
  ([], .answered ⟨r, x⟩)

/-- The answers among the things that happened. -/
def exchanges (H : Chronicle) : Placed Exchange :=
  H.filterMap fun
    | (π, .answered x) => some (π, x)
    | (_, .rested _) => none

@[simp] theorem exchanges_append (H H' : Chronicle) :
    exchanges (H ++ H') = H.exchanges ++ exchanges H' :=
  List.filterMap_append

theorem exchanges_cons_answered (π : Place) (x : Exchange) (H : Chronicle) :
    exchanges ((π, .answered x) :: H) = (π, x) :: H.exchanges := rfl

theorem exchanges_within (i : Nat) (H : Chronicle) :
    exchanges (H.within i) = Placed.within i H.exchanges := by
  induction H with
  | nil => rfl
  | cons x H ih =>
    obtain ⟨π, x | n⟩ := x
    · exact congrArg (((i :: π : Place), x) :: ·) ih
    · exact ih

theorem exchanges_side (H : Chronicle) (i : Nat) :
    exchanges (H.side i) = Placed.side H.exchanges i := by
  rw [exchanges, exchanges, Placed.side, Placed.side, List.filterMap_filterMap,
    List.filterMap_filterMap]
  refine congrArg (List.filterMap · H) (funext fun x => ?_)
  obtain ⟨_ | ⟨j, ρ⟩, x | n⟩ := x
  · rfl
  · rfl
  · by_cases hj : j = i <;> simp [Placed.enter?, hj]
  · by_cases hj : j = i <;> simp [Placed.enter?, hj]

theorem exchanges_under (H : Chronicle) (π : Place) :
    exchanges (H.under π) = Placed.under H.exchanges π := by
  induction π generalizing H with
  | nil => rfl
  | cons i π ih => rw [Placed.under, Placed.under, ih, exchanges_side]

/-- An answer among the things that happened. -/
theorem exists_of_exchanges_eq {H : Chronicle} {before after : Placed Exchange} {π : Place}
    {x : Exchange} (h : H.exchanges = before ++ (π, x) :: after) :
    ∃ before' after' : Chronicle, H = before' ++ (π, .answered x) :: after' ∧
      before'.exchanges = before ∧ after'.exchanges = after := by
  obtain ⟨first, second, rfl, hfirst, hsecond⟩ := List.filterMap_eq_append_iff.1 h
  obtain ⟨skipped, y, rest, rfl, hskipped, hy, hrest⟩ := List.filterMap_eq_cons_iff.1 hsecond
  obtain rfl : y = (π, .answered x) := by
    obtain ⟨ρ, z | n⟩ := y
    · cases hy
      rfl
    · cases hy
  refine ⟨first ++ skipped, rest, by rw [List.append_assoc], ?_, hrest⟩
  have hnone : exchanges skipped = [] := List.filterMap_eq_nil_iff.2 hskipped
  rw [exchanges_append, hnone, List.append_nil]
  exact hfirst

end Chronicle

/-! ## Lives -/

namespace Activity

/-- One thing happens to an activity, or it goes on unseen where several have ended. -/
inductive Step : Activity → Chronicle → Activity → Prop where
  /-- a request is answered -/
  | answered (r : Request) (k : r.Answer → Activity) (x : r.Answer) :
    Step (call r k) [Chronicle.heard r x] (k x)
  /-- a pause is over -/
  | rested (n : Nat) (a : Activity) : Step (pause n a) [([], .rested n)] a
  /-- both sides of a fork have ended -/
  | joined (o p : Outcome) (k : Outcome → Activity) :
    Step (fork (done o) (done p) k) [] (k (o.both p))
  /-- a step of the first side -/
  | first {a a' : Activity} {l : Chronicle} (h : Step a l a') (b : Activity)
    (k : Outcome → Activity) : Step (fork a b k) (l.within 0) (fork a' b k)
  /-- a step of the second side -/
  | second (a : Activity) {b b' : Activity} {l : Chronicle} (h : Step b l b')
    (k : Outcome → Activity) : Step (fork a b k) (l.within 1) (fork a b' k)
  /-- all members of a crowd have ended -/
  | met {n : Nat} {members : Fin n → Activity} {o : Outcome}
    (h : crowdOutcome? members = some o) (k : Outcome → Activity) : Step (crowd n members k) [] (k o)
  /-- a step of a member of a crowd -/
  | member {n : Nat} {members : Fin n → Activity} (i : Fin n) {a : Activity} {l : Chronicle}
    (h : Step (members i) l a) (k : Outcome → Activity) :
    Step (crowd n members k) (l.within i) (crowd n (update members i a) k)

/-- The chronicle can have happened to an activity, and the last activity is left to be done. -/
inductive Lives (a : Activity) : Chronicle → Activity → Prop where
  /-- nothing has happened -/
  | start : Lives a [] a
  /-- one more step was taken -/
  | step {b c : Activity} {H l : Chronicle} (h : Lives a H b) (hbc : Step b l c) :
    Lives a (H ++ l) c

theorem Step.lives {a b : Activity} {l : Chronicle} (h : Step a l b) : a.Lives l b :=
  Lives.start.step h

theorem Lives.trans {a b c : Activity} {H H' : Chronicle} (hab : a.Lives H b)
    (hbc : b.Lives H' c) : a.Lives (H ++ H') c := by
  induction hbc with
  | start => simpa using hab
  | step _ hstep ih => simpa [List.append_assoc] using ih.step hstep

/-- What happened first. -/
theorem Lives.head {a b : Activity} {H : Chronicle} (h : a.Lives H b) :
    (H = [] ∧ b = a) ∨ ∃ l c H', H = l ++ H' ∧ Step a l c ∧ c.Lives H' b := by
  induction h with
  | start => exact .inl ⟨rfl, rfl⟩
  | @step b c H l _ hbc ih =>
    rcases ih with ⟨rfl, rfl⟩ | ⟨l', c', H', rfl, hfirst, hrest⟩
    · exact .inr ⟨l, c, [], by simp, hbc, .start⟩
    · exact .inr ⟨l', c', H' ++ l, List.append_assoc .., hfirst, hrest.step hbc⟩

/-- Nothing happens to an activity that has ended. -/
theorem Lives.of_done {o : Outcome} {H : Chronicle} {b : Activity} (h : (done o).Lives H b) :
    H = [] ∧ b = done o := by
  rcases h.head with h | ⟨l, c, H', -, hstep, -⟩
  · exact h
  · cases hstep

/-- An activity that makes a request waits for the answer, or has been given it first. -/
theorem Lives.of_call {r : Request} {k : r.Answer → Activity} {H : Chronicle} {b : Activity}
    (h : (call r k).Lives H b) :
    (H = [] ∧ b = call r k) ∨ ∃ x H', H = Chronicle.heard r x :: H' ∧ (k x).Lives H' b := by
  rcases h.head with h | ⟨l, c, H', rfl, hstep, hrest⟩
  · exact .inl h
  · cases hstep with
    | answered _ _ x => exact .inr ⟨x, H', rfl, hrest⟩

/-- An activity that pauses does so still, or has come to the end of the pause first. -/
theorem Lives.of_pause {n : Nat} {a b : Activity} {H : Chronicle} (h : (pause n a).Lives H b) :
    (H = [] ∧ b = pause n a) ∨ ∃ H', H = ([], .rested n) :: H' ∧ a.Lives H' b := by
  rcases h.head with h | ⟨l, c, H', rfl, hstep, hrest⟩
  · exact .inl h
  · cases hstep with
    | rested => exact .inr ⟨H', rfl, hrest⟩

/-! ## One after the other -/

/-- The first of two activities goes on as it does alone. -/
theorem Step.bind {a b : Activity} {l : Chronicle} (h : Step a l b) (g : Outcome → Activity) :
    Step (a.bind g) l (b.bind g) := by
  cases h with
  | answered r k x => exact .answered r _ x
  | rested n a => exact .rested n _
  | joined o p k => exact .joined o p _
  | first h b k => exact .first h b _
  | second a h k => exact .second a h _
  | met h k => exact .met h _
  | member i h k => exact .member i h _

theorem Lives.bind {a b : Activity} {H : Chronicle} (h : a.Lives H b) (g : Outcome → Activity) :
    (a.bind g).Lives H (b.bind g) := by
  induction h with
  | start => exact .start
  | step _ hstep ih => exact ih.step (hstep.bind g)

/-- A step of an activity that consists of two is a step of the first of them, unless that one has
ended. -/
theorem Step.of_bind {a c : Activity} {g : Outcome → Activity} {l : Chronicle}
    (h : Step (a.bind g) l c) :
    (∃ b, Step a l b ∧ c = b.bind g) ∨ ∃ o, a = done o ∧ Step (g o) l c := by
  cases a with
  | done o => exact .inr ⟨o, rfl, h⟩
  | call r k =>
    cases h with
    | answered _ _ x => exact .inl ⟨_, .answered r k x, rfl⟩
  | pause n a =>
    cases h
    exact .inl ⟨_, .rested n a, rfl⟩
  | fork a b k =>
    left
    cases h with
    | joined o p => exact ⟨_, .joined o p k, rfl⟩
    | first h => exact ⟨_, .first h b k, rfl⟩
    | second _ h => exact ⟨_, .second a h k, rfl⟩
  | crowd n members k =>
    left
    cases h with
    | met h => exact ⟨_, .met h k, rfl⟩
    | member i h => exact ⟨_, .member i h k, rfl⟩

/-- What happened to an activity that consists of two: a part of what happens to the first of them,
or all of it and a part of what happens to the second. -/
theorem Lives.of_bind {a c : Activity} {g : Outcome → Activity} {H : Chronicle}
    (h : (a.bind g).Lives H c) :
    (∃ b, a.Lives H b ∧ c = b.bind g) ∨
      ∃ o first second, H = first ++ second ∧ a.Lives first (done o) ∧ (g o).Lives second c := by
  induction h with
  | start => exact .inl ⟨a, .start, rfl⟩
  | @step _ _ H l _ hbc ih =>
    rcases ih with ⟨b, hb, rfl⟩ | ⟨o, first, second, rfl, hfirst, hsecond⟩
    · rcases hbc.of_bind with ⟨b', hb', rfl⟩ | ⟨o, rfl, hstep⟩
      · exact .inl ⟨b', hb.step hb', rfl⟩
      · exact .inr ⟨o, H, l, rfl, hb, hstep.lives⟩
    · exact .inr ⟨o, first, second ++ l, List.append_assoc .., hfirst, hsecond.step hbc⟩

/-- An activity that consists of two ends when both have ended. -/
theorem eq_done_of_bind {a : Activity} {g : Outcome → Activity} {p : Outcome}
    (h : a.bind g = done p) : ∃ o, a = done o ∧ g o = done p := by
  cases a with
  | done o => exact ⟨o, rfl, h⟩
  | call | pause | fork | crowd => cases h

/-- An activity that consists of two and has ended: both have ended. -/
theorem Lives.of_bind_done {a : Activity} {g : Outcome → Activity} {H : Chronicle} {p : Outcome}
    (h : (a.bind g).Lives H (done p)) :
    ∃ o first second, H = first ++ second ∧ a.Lives first (done o) ∧
      (g o).Lives second (done p) := by
  rcases h.of_bind with ⟨b, hb, hp⟩ | hsplit
  · obtain ⟨o, rfl, ho⟩ := eq_done_of_bind hp.symm
    exact ⟨o, H, [], (List.append_nil _).symm, hb, ho ▸ .start⟩
  · exact hsplit

/-! ## Side by side -/

/-- So much happened to several who go on side by side: each of them has come from one activity to
another by what happened at its places. -/
structure Apart {n : Nat} (origins now : Fin n → Activity) (H : Chronicle) : Prop where
  /-- what happened to each -/
  lives : ∀ i : Fin n, (origins i).Lives (H.side i) (now i)
  /-- it happened to one of them -/
  placed : ∀ x ∈ H, ∃ (i : Fin n) (ρ : Place), x.1 = ↑i :: ρ

namespace Apart

variable {n : Nat} {origins now : Fin n → Activity} {H : Chronicle}

/-- What happened happened to one of them, before and after other things that did. -/
theorem exists_side_eq (h : Apart origins now H) {before after : Chronicle}
    {x : Place × Happening} (hH : H = before ++ x :: after) :
    ∃ (i : Fin n) (ρ : Place), x.1 = ↑i :: ρ ∧
      H.side i = before.side i ++ (ρ, x.2) :: after.side i := by
  obtain ⟨i, ρ, hplace⟩ := h.placed x (hH ▸ List.mem_append_right _ List.mem_cons_self)
  obtain ⟨π, y⟩ := x
  obtain rfl : π = ↑i :: ρ := hplace
  exact ⟨i, ρ, rfl, by rw [hH, Placed.side_around]⟩

theorem start (origins : Fin n → Activity) : Apart origins origins [] where
  lives _ := .start
  placed _ hx := absurd hx List.not_mem_nil

/-- One of them takes a step. -/
theorem step (h : Apart origins now H) (i : Fin n) {l : Chronicle} {a : Activity}
    (hstep : Step (now i) l a) : Apart origins (update now i a) (H ++ l.within i) where
  lives j := by
    rw [Placed.side_append, Placed.side_within]
    by_cases hj : j = i
    · subst hj
      rw [if_pos rfl, Function.update_self]
      exact (h.lives j).step hstep
    · rw [if_neg fun hval => hj (Fin.ext hval.symm), List.append_nil, Function.update_of_ne hj]
      exact h.lives j
  placed x hx := by
    rcases List.mem_append.1 hx with hx | hx
    · exact h.placed x hx
    · obtain ⟨y, -, rfl⟩ := List.mem_map.1 hx
      exact ⟨i, y.1, rfl⟩

end Apart

/-- Several who went on side by side have all ended. -/
def Ended {n : Nat} (members : Fin n → Activity) : Prop :=
  ∀ i, ∃ o, members i = done o

/-- The two sides of a fork, by their numbers. -/
def sides (a b : Activity) : Fin 2 → Activity
  | 0 => a
  | 1 => b

theorem update_sides_zero (a b a' : Activity) : update (sides a b) 0 a' = sides a' b :=
  funext (Fin.forall_fin_two.2 ⟨rfl, rfl⟩)

theorem update_sides_one (a b b' : Activity) : update (sides a b) 1 b' = sides a b' :=
  funext (Fin.forall_fin_two.2 ⟨rfl, rfl⟩)

theorem ended_of_forkOutcome? {a b : Activity} {o : Outcome} (h : forkOutcome? a b = some o) :
    Ended (sides a b) := by
  obtain ⟨p, hp, hrest⟩ := Option.bind_eq_some_iff.1 h
  obtain ⟨q, hq, -⟩ := Option.bind_eq_some_iff.1 hrest
  exact Fin.forall_fin_two.2 ⟨⟨p, eq_done_of_outcome? hp⟩, ⟨q, eq_done_of_outcome? hq⟩⟩

theorem ended_of_crowdOutcome? {n : Nat} {members : Fin n → Activity} {o : Outcome}
    (h : crowdOutcome? members = some o) : Ended members := by
  have hall : ∀ (as : List Activity) (o : Outcome),
      as.foldr (fun a o => do some ((← a.outcome?).both (← o))) (some (.ok ())) = some o →
        ∀ a ∈ as, ∃ p, a = done p := by
    intro as
    induction as with
    | nil => exact fun _ _ a ha => absurd ha List.not_mem_nil
    | cons a as ih =>
      intro o h b hb
      obtain ⟨p, hp, hrest⟩ := Option.bind_eq_some_iff.1 h
      obtain ⟨q, hq, -⟩ := Option.bind_eq_some_iff.1 hrest
      rcases List.mem_cons.1 hb with rfl | hb
      · exact ⟨p, eq_done_of_outcome? hp⟩
      · exact ih q hq b hb
  exact fun i => hall _ o h (members i) (List.mem_ofFn.2 ⟨i, rfl⟩)

/-- What happened to a fork: a part of what happens to its sides, or all of it and a part of what
happens afterwards. -/
theorem Lives.of_fork {a b c : Activity} {k : Outcome → Activity} {H : Chronicle}
    (h : (fork a b k).Lives H c) :
    (∃ a' b', c = fork a' b' k ∧ Apart (sides a b) (sides a' b') H) ∨
      ∃ now o first second, H = first ++ second ∧ Apart (sides a b) now first ∧ Ended now ∧
        (k o).Lives second c := by
  induction h with
  | start => exact .inl ⟨a, b, rfl, .start _⟩
  | @step _ _ H l _ hstep ih =>
    rcases ih with ⟨a', b', rfl, hsides⟩ | ⟨now, o, first, second, rfl, hsides, hended, hrest⟩
    · cases hstep with
      | joined o p =>
        have hended : Ended (sides (done o) (done p)) := ended_of_forkOutcome? rfl
        exact .inr ⟨_, _, H, [], rfl, hsides, hended, .start⟩
      | first h => exact .inl ⟨_, _, rfl, update_sides_zero a' b' _ ▸ hsides.step 0 h⟩
      | second _ h => exact .inl ⟨_, _, rfl, update_sides_one a' b' _ ▸ hsides.step 1 h⟩
    · exact .inr ⟨now, o, first, _, List.append_assoc .., hsides, hended, hrest.step hstep⟩

/-- So it is with a crowd. -/
theorem Lives.of_crowd {n : Nat} {members : Fin n → Activity} {c : Activity}
    {k : Outcome → Activity} {H : Chronicle} (h : (crowd n members k).Lives H c) :
    (∃ now, c = crowd n now k ∧ Apart members now H) ∨
      ∃ now o first second, H = first ++ second ∧ Apart members now first ∧ Ended now ∧
        (k o).Lives second c := by
  induction h with
  | start => exact .inl ⟨members, rfl, .start _⟩
  | @step _ _ H l _ hstep ih =>
    rcases ih with ⟨now, rfl, hapart⟩ | ⟨now, o, first, second, rfl, hapart, hended, hrest⟩
    · cases hstep with
      | met h => exact .inr ⟨now, _, H, [], rfl, hapart, ended_of_crowdOutcome? h, .start⟩
      | member i h => exact .inl ⟨_, rfl, hapart.step i h⟩
    · exact .inr ⟨now, o, first, _, List.append_assoc .., hapart, hended, hrest.step hstep⟩

/-! ## Moves at places -/

/-- What came of a step at a place: nothing happened, or one thing did. -/
inductive Told (a : Activity) : Option (Place × Exchange) → Activity → Prop where
  /-- nobody was free to go on there -/
  | idle : Told a none a
  /-- a step was taken -/
  | step {l : Chronicle} {b : Activity} (h : Step a l b) {x? : Option (Place × Exchange)}
    (hx : x?.toList = l.exchanges) : Told a x? b

/-- A step of a part, as a step of the whole. -/
theorem Told.within {a a' c : Activity} {x? : Option (Place × Exchange)} (h : Told a x? a') (i : Nat)
    (whole : Activity → Activity) (hc : whole a = c)
    (hwhole : ∀ {l : Chronicle} {b : Activity}, Step a l b → Step c (l.within i) (whole b)) :
    Told c (x?.map fun e => (i :: e.1, e.2)) (whole a') := by
  cases h with
  | idle => exact hc ▸ .idle
  | step h hx =>
    exact .step (hwhole h) (by rw [Placed.toList_within, hx, Chronicle.exchanges_within])

theorem Told.lives {a b : Activity} {x? : Option (Place × Exchange)} (h : Told a x? b) :
    ∃ H : Chronicle, a.Lives H b ∧ x?.toList = H.exchanges := by
  cases h with
  | idle => exact ⟨[], .start, rfl⟩
  | step h hx => exact ⟨_, h.lives, hx⟩

variable {σ : Type} (s : Surroundings σ) (w : σ)

/-- Whoever goes on at a place takes a step. -/
theorem told (a : Activity) (π : Place) :
    Told a (a.advance s w π).exchange? (a.advance s w π).activity := by
  induction a generalizing π with
  | done o => exact .idle
  | call r k _ => exact .step (.answered r k _) rfl
  | pause n a _ => exact .step (.rested n a) rfl
  | fork a b k iha ihb _ =>
    unfold advance
    split
    · next o ho =>
      obtain ⟨p, hp, hrest⟩ := Option.bind_eq_some_iff.1 ho
      obtain ⟨q, hq, hpq⟩ := Option.bind_eq_some_iff.1 hrest
      obtain rfl := Option.some.inj hpq
      rw [eq_done_of_outcome? hp, eq_done_of_outcome? hq]
      exact .step (.joined p q k) rfl
    · split
      · exact .idle
      · next ρ => exact (iha ρ).within 0 (fork · b k) rfl fun h => .first h b k
      · next ρ => exact (ihb ρ).within 1 (fork a · k) rfl fun h => .second a h k
  | crowd n members k ih _ =>
    unfold advance
    split
    · next o ho => exact .step (.met ho k) rfl
    · split
      · exact .idle
      · next i ρ =>
        split
        · next hi =>
          have hself : crowd n (update members ⟨i, hi⟩ (members ⟨i, hi⟩)) k = crowd n members k := by
            rw [Function.update_eq_self]
          exact (ih ⟨i, hi⟩ ρ).within i _ hself fun h => .member ⟨i, hi⟩ h k
        · exact .idle

end Activity

namespace Pool

variable {σ ι : Type}

/-- The members of a pool have lived through what the log says of them, each from what it was
started with. -/
structure Lived (launch : ι → Activity) (P : Pool σ) : Prop where
  /-- what each of them has lived through -/
  lives : ∀ {i : Nat} {b : Activity}, P.members[i]? = some b →
    ∃ (x : ι) (H : Chronicle), (launch x).Lives H b ∧ Placed.side P.log i = H.exchanges
  /-- nobody else is in the log -/
  placed : ∀ x ∈ P.log, ∃ (i : Nat) (ρ : Place), i < P.members.length ∧ x.1 = i :: ρ

variable {launch : ι → Activity} {P : Pool σ}

theorem lived_empty (launch : ι → Activity) (w : σ) : Lived launch (empty w) where
  lives h := absurd h (by simp [empty])
  placed _ hx := absurd hx List.not_mem_nil

/-- Of those who are not there the log says nothing. -/
theorem Lived.side_eq_nil (h : Lived launch P) {i : Nat} (hi : P.members.length ≤ i) :
    Placed.side P.log i = [] := by
  refine List.filterMap_eq_nil_iff.2 fun x hx => ?_
  obtain ⟨j, ρ, hj, hplace⟩ := h.placed x hx
  obtain ⟨π, y⟩ := x
  obtain rfl : π = j :: ρ := hplace
  exact if_neg (by omega)

theorem Lived.start (h : Lived launch P) (x : ι) :
    Lived launch { P with members := P.members ++ [launch x] } where
  lives {i b} hb := by
    rcases Nat.lt_or_ge i P.members.length with hi | hi
    · exact h.lives ((List.getElem?_append_left hi).symm.trans hb)
    · have hlast : [launch x][i - P.members.length]? = some b :=
        (List.getElem?_append_right hi).symm.trans hb
      obtain rfl : launch x = b := List.mem_singleton.1 (List.mem_of_getElem? hlast) |>.symm
      exact ⟨x, [], .start, h.side_eq_nil hi⟩
  placed y hy := by
    obtain ⟨j, ρ, hj, hplace⟩ := h.placed y hy
    exact ⟨j, ρ, List.length_append ▸ Nat.lt_add_right 1 hj, hplace⟩

/-- A member goes on. -/
theorem Lived.took (h : Lived launch P) {i : Nat} {a : Activity} (ha : P.members[i]? = some a)
    {x : Activity.Stepped σ} (hx : a.Told x.exchange? x.activity) : Lived launch (P.took i x) where
  lives {j b} hb := by
    have hside : Placed.side (P.took i x).log j =
        Placed.side P.log j ++ if i = j then x.exchange?.toList else [] := by
      rw [Pool.took, Placed.toList_within, Placed.side_append, Placed.side_within]
    rw [hside]
    by_cases hj : i = j
    · subst hj
      obtain ⟨y, H, hlives, hH⟩ := h.lives ha
      obtain rfl : x.activity = b :=
        Option.some.inj ((List.getElem?_set_self (List.getElem?_eq_some_iff.1 ha).1).symm.trans hb)
      obtain ⟨l, hl, hexchange⟩ := hx.lives
      refine ⟨y, H ++ l, hlives.trans hl, ?_⟩
      rw [if_pos rfl, hH, hexchange, Chronicle.exchanges_append]
    · obtain ⟨y, H, hlives, hH⟩ := h.lives ((List.getElem?_set_ne hj).symm.trans hb)
      exact ⟨y, H, hlives, by rw [if_neg hj, List.append_nil, hH]⟩
  placed y hy := by
    rw [Pool.took, Placed.toList_within] at hy
    rw [Pool.took, List.length_set]
    rcases List.mem_append.1 hy with hy | hy
    · exact h.placed y hy
    · obtain ⟨z, -, rfl⟩ := List.mem_map.1 hy
      exact ⟨i, z.1, (List.getElem?_eq_some_iff.1 ha).1, rfl⟩

theorem Lived.step (h : Lived launch P) (s : Surroundings σ) (move : Move ι) :
    Lived launch (P.step s launch move) := by
  cases move with
  | start x => exact h.start x
  | pass nanos => exact ⟨h.lives, h.placed⟩
  | go i π =>
    rw [Pool.step]
    split
    · exact h
    · next a ha => exact h.took ha (a.told s P.state π)

/-- **What a pool has lived through.** Whatever moves are made, the log says what happened to each
member since it was started. -/
theorem lived_run (s : Surroundings σ) (launch : ι → Activity) (w : σ) (moves : List (Move ι)) :
    Lived launch ((empty w).run s launch moves) :=
  moves.foldlRecOn _ (lived_empty launch w) fun _ h move _ => h.step s move

end Pool

end Loyalty
