import Loyalty.Proofs.Process.Schedule

/-!
# What an activity has heard

`Activity.After a heard b` says that activity `a` has come to be `b`, and what was heard on the way,
wherever within it and in whatever order its parts went on. As with `Calls.After`, nothing is said
of the surroundings, so it holds whatever others did in between.

`Activity.Stays` looks ahead instead: whatever it will be answered, the activity makes no requests
but those allowed, and each outcome that it can have is one of those expected.

The surroundings, too, get by what is heard from one state to another: `Surroundings.Hears`.

Main statements: a member of a pool has come by what was heard at its places to where it is, and so
has an activity that happens in the order of its course; what stays within bounds has kept to them
in all that was heard.
-/

namespace Loyalty

open Relation (ReflTransGen)

namespace Activity

/-! ## Steps of activities without crowds -/

theorem Silent.uncrowded {a b : Activity} (h : Silent a b) (ha : a.Uncrowded) : b.Uncrowded := by
  induction h with
  | rested n a => exact ha
  | joined o p k => exact ha.2.2 _
  | first _ b k ih => exact ⟨ih ha.1, ha.2⟩
  | second a _ k ih => exact ⟨ha.1, ih ha.2.1, ha.2.2⟩

theorem Asks.uncrowded {a : Activity} {r : Request} {k : r.Answer → Activity} (h : Asks a r k)
    (ha : a.Uncrowded) (x : r.Answer) : (k x).Uncrowded := by
  induction h with
  | here r k => exact ha x
  | first _ b g ih => exact ⟨ih ha.1 x, ha.2⟩
  | second a _ g ih => exact ⟨ha.1, ih ha.2.1 x, ha.2.2⟩

theorem eq_done_of_outcome? {a : Activity} {o : Outcome} (h : a.outcome? = some o) :
    a = .done o := by
  cases a with
  | done p => exact congrArg done (Option.some.inj h)
  | call | pause | fork | crowd => cases h

/-- What may become of an activity at a place: nothing, or a step in which nothing is asked, or it
is answered. -/
inductive Advanced (a : Activity) : Option Exchange → Activity → Prop where
  /-- nobody was free to go on there -/
  | idle : Advanced a none a
  /-- nothing was asked -/
  | silent {b : Activity} (h : Silent a b) : Advanced a none b
  /-- a request was answered -/
  | heard {r : Request} {k : r.Answer → Activity} (h : Asks a r k) (x : r.Answer) :
    Advanced a (some ⟨r, x⟩) (k x)

theorem Advanced.first {a a' : Activity} {x : Option Exchange} (h : Advanced a x a')
    (b : Activity) (k : Outcome → Activity) : Advanced (fork a b k) x (fork a' b k) := by
  cases h with
  | idle => exact .idle
  | silent h => exact .silent (.first h b k)
  | heard h x => exact .heard (.first h b k) x

theorem Advanced.second (a : Activity) {b b' : Activity} {x : Option Exchange}
    (h : Advanced b x b') (k : Outcome → Activity) : Advanced (fork a b k) x (fork a b' k) := by
  cases h with
  | idle => exact .idle
  | silent h => exact .silent (.second a h k)
  | heard h x => exact .heard (.second a h k) x

variable {σ : Type} (s : Surroundings σ) (w : σ)

/-- What was asked and answered in a step of a part was asked and answered in a step of the
whole. -/
theorem exchange_within (i : Nat) (whole : Activity → Activity) (x : Stepped σ) :
    (x.within i whole).exchange?.map Prod.snd = x.exchange?.map Prod.snd := by
  rw [Stepped.within, Option.map_map]
  rfl

theorem advanced {a : Activity} (ha : a.Uncrowded) (π : Place) :
    Advanced a ((a.advance s w π).exchange?.map Prod.snd) (a.advance s w π).activity := by
  induction a generalizing π with
  | done o => exact .idle
  | call r k _ => exact .heard (.here r k) _
  | pause n a _ => exact .silent (.rested n a)
  | fork a b k iha ihb _ =>
    unfold advance
    split
    · next o ho =>
      obtain ⟨p, hp, hrest⟩ := Option.bind_eq_some_iff.1 ho
      obtain ⟨q, hq, hpq⟩ := Option.bind_eq_some_iff.1 hrest
      obtain rfl := Option.some.inj hpq
      rw [eq_done_of_outcome? hp, eq_done_of_outcome? hq]
      exact .silent (.joined p q k)
    · split
      · exact .idle
      · next ρ =>
        rw [exchange_within]
        exact (iha ha.1 ρ).first b k
      · next ρ =>
        rw [exchange_within]
        exact (ihb ha.2.1 ρ).second a k
  | crowd n members k => exact ha.elim

/-! ## What was heard -/

/-- An activity that has heard so much is left with the last activity. -/
inductive After (a : Activity) : List Exchange → Activity → Prop where
  /-- the activity has not begun -/
  | start : After a [] a
  /-- a step in which nothing was asked -/
  | silent {b c : Activity} {heard : List Exchange} (h : After a heard b) (hbc : Silent b c) :
    After a heard c
  /-- one more answer was heard -/
  | heard {b : Activity} {heard : List Exchange} (h : After a heard b) {r : Request}
    {k : r.Answer → Activity} (hask : Asks b r k) (x : r.Answer) :
    After a (heard ++ [⟨r, x⟩]) (k x)

theorem After.uncrowded {a b : Activity} {heard : List Exchange} (h : a.After heard b)
    (ha : a.Uncrowded) : b.Uncrowded := by
  induction h with
  | start => exact ha
  | silent _ hbc ih => exact hbc.uncrowded ih
  | heard _ hask x ih => exact hask.uncrowded ih x

theorem After.advanced {a b c : Activity} {heard : List Exchange} (h : a.After heard b)
    {x : Option Exchange} (hx : Advanced b x c) : a.After (heard ++ x.toList) c := by
  cases hx with
  | idle => simpa using h
  | silent hbc => simpa using h.silent hbc
  | heard hask x => exact h.heard hask x

/-- An activity that has ended hears nothing any more. -/
theorem After.of_done {o : Outcome} {heard : List Exchange} {b : Activity}
    (h : (done o).After heard b) : heard = [] ∧ b = done o := by
  induction h with
  | start => exact ⟨rfl, rfl⟩
  | silent _ hbc ih =>
    obtain ⟨-, rfl⟩ := ih
    cases hbc
  | heard _ hask x ih =>
    obtain ⟨-, rfl⟩ := ih
    cases hask

/-- A step of an activity that consists of two: a step of the first, or the first has ended and it
is one of the second. -/
theorem Silent.of_bind {a c : Activity} {g : Outcome → Activity} (h : Silent (a.bind g) c) :
    (∃ b, Silent a b ∧ c = b.bind g) ∨ ∃ o, a = done o ∧ Silent (g o) c := by
  cases a with
  | done o => exact .inr ⟨o, rfl, h⟩
  | call | crowd => cases h
  | pause n a =>
    cases h
    exact .inl ⟨_, .rested n a, rfl⟩
  | fork a b k =>
    left
    cases h with
    | joined o p => exact ⟨_, .joined o p k, rfl⟩
    | first h => exact ⟨_, .first h b k, rfl⟩
    | second _ h => exact ⟨_, .second a h k, rfl⟩

/-- So it is when a request is made. -/
theorem Asks.of_bind {a : Activity} {g : Outcome → Activity} {r : Request}
    {k : r.Answer → Activity} (h : Asks (a.bind g) r k) :
    (∃ k', Asks a r k' ∧ k = fun x => (k' x).bind g) ∨ ∃ o, a = done o ∧ Asks (g o) r k := by
  cases a with
  | done o => exact .inr ⟨o, rfl, h⟩
  | pause | crowd => cases h
  | call r' k' =>
    cases h
    exact .inl ⟨k', .here _ k', rfl⟩
  | fork a b g' =>
    left
    cases h with
    | first h => exact ⟨_, .first h b g', rfl⟩
    | second _ h => exact ⟨_, .second a h g', rfl⟩

/-- What an activity that consists of two has heard: a part of the first of them, or all of it and a
part of the second. -/
theorem After.of_bind {a c : Activity} {g : Outcome → Activity} {heard : List Exchange}
    (h : (a.bind g).After heard c) :
    (∃ b, a.After heard b ∧ c = b.bind g) ∨
      ∃ o first second, heard = first ++ second ∧ a.After first (done o) ∧
        (g o).After second c := by
  induction h with
  | start => exact .inl ⟨a, .start, rfl⟩
  | silent _ hbc ih =>
    rcases ih with ⟨b, hb, rfl⟩ | ⟨o, first, second, rfl, hfirst, hsecond⟩
    · rcases hbc.of_bind with ⟨b', hb', rfl⟩ | ⟨o, rfl, hstep⟩
      · exact .inl ⟨b', hb.silent hb', rfl⟩
      · exact .inr ⟨o, _, [], (List.append_nil _).symm, hb, After.start.silent hstep⟩
    · exact .inr ⟨o, first, second, rfl, hfirst, hsecond.silent hbc⟩
  | heard _ hask x ih =>
    rcases ih with ⟨b, hb, rfl⟩ | ⟨o, first, second, rfl, hfirst, hsecond⟩
    · rcases hask.of_bind with ⟨k', hk', rfl⟩ | ⟨o, rfl, hstep⟩
      · exact .inl ⟨k' x, hb.heard hk' x, rfl⟩
      · exact .inr ⟨o, _, [_], rfl, hb, After.start.heard hstep x⟩
    · exact .inr ⟨o, first, _, List.append_assoc .., hfirst, hsecond.heard hask x⟩

/-- An activity that consists of two and has ended: both have ended. -/
theorem After.of_bind_done {a : Activity} {g : Outcome → Activity} {heard : List Exchange}
    {p : Outcome} (h : (a.bind g).After heard (done p)) :
    ∃ o first second, heard = first ++ second ∧ a.After first (done o) ∧
      (g o).After second (done p) := by
  rcases h.of_bind with ⟨b, hb, hp⟩ | hsplit
  · cases b with
    | done o => exact ⟨o, heard, [], (List.append_nil _).symm, hb, hp ▸ .start⟩
    | call | pause | fork | crowd => cases hp
  · exact hsplit

/-- An activity that describes its failure in another way, and has ended. -/
theorem After.of_mapFailure_done {a : Activity} {describe : Failure → Failure}
    {heard : List Exchange} {p : Outcome} (h : (a.mapFailure describe).After heard (done p)) :
    ∃ o, a.After heard (done o) ∧ p = o.mapError describe := by
  obtain ⟨o, first, second, rfl, hfirst, hsecond⟩ := h.of_bind_done
  cases o with
  | ok u | error f =>
    obtain ⟨rfl, hp⟩ := hsecond.of_done
    cases hp
    exact ⟨_, by rwa [List.append_nil], rfl⟩

/-- What an activity that begins with a process has heard. -/
theorem After.of_ofCalls {α : Type} {m : Calls α} {g : α → Activity} {heard : List Exchange}
    {c : Activity} (h : (ofCalls m g).After heard c) :
    (∃ m', m.After heard m' ∧ c = ofCalls m' g) ∨
      ∃ x first second, heard = first ++ second ∧ m.After first (.done x) ∧
        (g x).After second c := by
  induction h with
  | start => exact .inl ⟨m, .start m, rfl⟩
  | silent _ hbc ih =>
    rcases ih with ⟨m', hm', rfl⟩ | ⟨x, first, second, rfl, hfirst, hsecond⟩
    · -- A process does not go on without being answered.
      cases m' with
      | done x => exact .inr ⟨x, _, [], (List.append_nil _).symm, hm', After.start.silent hbc⟩
      | call r k => cases hbc
    · exact .inr ⟨x, first, second, rfl, hfirst, hsecond.silent hbc⟩
  | heard _ hask y ih =>
    rcases ih with ⟨m', hm', rfl⟩ | ⟨x, first, second, rfl, hfirst, hsecond⟩
    · cases m' with
      | done x => exact .inr ⟨x, _, [_], rfl, hm', After.start.heard hask y⟩
      | call r k =>
        cases hask
        exact .inl ⟨k y, hm'.next y, rfl⟩
    · exact .inr ⟨x, first, _, List.append_assoc .., hfirst, hsecond.heard hask y⟩

/-- An activity that begins with a process and has ended: the process has ended. -/
theorem After.of_ofCalls_done {α : Type} {m : Calls α} {g : α → Activity}
    {heard : List Exchange} {o : Outcome} (h : (ofCalls m g).After heard (done o)) :
    ∃ x first second, heard = first ++ second ∧ m.After first (.done x) ∧
      (g x).After second (done o) := by
  rcases h.of_ofCalls with ⟨m', hm', ho⟩ | hsplit
  · cases m' with
    | done x => exact ⟨x, heard, [], (List.append_nil _).symm, hm', ho ▸ .start⟩
    | call r k => cases ho
  · exact hsplit

theorem After.silents {a b c : Activity} {heard : List Exchange} (h : a.After heard b)
    (hbc : ReflTransGen Silent b c) : a.After heard c := by
  induction hbc with
  | refl => exact h
  | tail _ hstep ih => exact ih.silent hstep

theorem After.trans {a b c : Activity} {first second : List Exchange} (hab : a.After first b)
    (hbc : b.After second c) : a.After (first ++ second) c := by
  induction hbc with
  | start => simpa using hab
  | silent _ hstep ih => exact ih.silent hstep
  | heard _ hask x ih => simpa using ih.heard hask x

/-! ## What will be -/

/-- Whatever it is answered, an activity makes no requests but those allowed, and each outcome that
it can have is one of those expected. -/
def Stays (allowed : Request → Prop) : Activity → (Outcome → Prop) → Prop
  | done o, expected => expected o
  | call r k, expected => allowed r ∧ ∀ x, (k x).Stays allowed expected
  | pause _ a, expected => a.Stays allowed expected
  | fork a b k, expected =>
    ∃ first second : Outcome → Prop, a.Stays allowed first ∧ b.Stays allowed second ∧
      ∀ o p, first o → second p → (k (o.both p)).Stays allowed expected
  | crowd .., _ => False

variable {allowed : Request → Prop}

theorem Stays.mono {allowed' : Request → Prop} (hallowed : ∀ r, allowed r → allowed' r)
    {a : Activity} {expected : Outcome → Prop} (ha : a.Stays allowed expected) :
    a.Stays allowed' expected := by
  induction a generalizing expected with
  | done o => exact ha
  | call r k ih => exact ⟨hallowed r ha.1, fun x => ih x (ha.2 x)⟩
  | pause n a ih => exact ih ha
  | fork a b k iha ihb ih =>
    obtain ⟨first, second, hfirst, hsecond, hk⟩ := ha
    exact ⟨first, second, iha hfirst, ihb hsecond, fun o p ho hp => ih _ (hk o p ho hp)⟩
  | crowd n members k => exact ha

theorem Stays.bind {a : Activity} {g : Outcome → Activity} {middle expected : Outcome → Prop}
    (ha : a.Stays allowed middle) (hg : ∀ o, middle o → (g o).Stays allowed expected) :
    (a.bind g).Stays allowed expected := by
  induction a generalizing middle with
  | done o => exact hg o ha
  | call r k ih => exact ⟨ha.1, fun x => ih x (ha.2 x) hg⟩
  | pause n a ih => exact ih ha hg
  | fork a b k _ _ ih =>
    obtain ⟨first, second, hfirst, hsecond, hk⟩ := ha
    exact ⟨first, second, hfirst, hsecond, fun o p ho hp => ih _ (hk o p ho hp) hg⟩
  | crowd n members k => exact ha.elim

theorem Stays.silent {a b : Activity} (h : Silent a b) {expected : Outcome → Prop}
    (ha : a.Stays allowed expected) : b.Stays allowed expected := by
  induction h generalizing expected with
  | rested n a => exact ha
  | joined o p k =>
    obtain ⟨first, second, hfirst, hsecond, hk⟩ := ha
    exact hk o p hfirst hsecond
  | first _ b k ih =>
    obtain ⟨first, second, hfirst, hsecond, hk⟩ := ha
    exact ⟨first, second, ih hfirst, hsecond, hk⟩
  | second a _ k ih =>
    obtain ⟨first, second, hfirst, hsecond, hk⟩ := ha
    exact ⟨first, second, hfirst, ih hsecond, hk⟩

theorem Stays.asks {a : Activity} {r : Request} {k : r.Answer → Activity} (h : Asks a r k)
    {expected : Outcome → Prop} (ha : a.Stays allowed expected) :
    allowed r ∧ ∀ x, (k x).Stays allowed expected := by
  induction h generalizing expected with
  | here r k => exact ha
  | first _ b g ih =>
    obtain ⟨first, second, hfirst, hsecond, hg⟩ := ha
    exact ⟨(ih hfirst).1, fun x => ⟨first, second, (ih hfirst).2 x, hsecond, hg⟩⟩
  | second a _ g ih =>
    obtain ⟨first, second, hfirst, hsecond, hg⟩ := ha
    exact ⟨(ih hsecond).1, fun x => ⟨first, second, hfirst, (ih hsecond).2 x, hg⟩⟩

/-- What was heard keeps to the bounds, and so does what is left to do. -/
theorem Stays.after {a b : Activity} {heard : List Exchange} (h : a.After heard b)
    {expected : Outcome → Prop} (ha : a.Stays allowed expected) :
    (∀ x ∈ heard, allowed x.request) ∧ b.Stays allowed expected := by
  induction h with
  | start => exact ⟨fun x hx => absurd hx List.not_mem_nil, ha⟩
  | silent _ hbc ih => exact ⟨ih.1, ih.2.silent hbc⟩
  | heard _ hask x ih =>
    obtain ⟨hallowed, hk⟩ := ih.2.asks hask
    refine ⟨fun y hy => ?_, hk x⟩
    rcases List.mem_append.1 hy with hy | hy
    · exact ih.1 y hy
    · obtain rfl := List.mem_singleton.1 hy
      exact hallowed

/-- Those who ask for nothing but what is allowed, and save nothing that is not, are a frame. -/
theorem frame_stays (h : ∀ r : Request, r.IsNoSave → allowed r) :
    Frame fun a => a.Stays allowed fun _ => True where
  done _ := True.intro
  call hr hk := ⟨h _ hr, hk⟩
  pause _ _ ha := ha
  fork ha hb hk := ⟨_, _, ha, hb, fun _ _ _ _ => hk _⟩
  bind ha hg := ha.bind fun o _ => hg o

end Activity

/-! ## Surroundings -/

/-- From one state the surroundings have come to the other, and these were the answers that they gave
on the way. -/
inductive Surroundings.Hears {σ : Type} (s : Surroundings σ) : σ → List Exchange → σ → Prop where
  /-- nothing has happened -/
  | start (w : σ) : Hears s w [] w
  /-- time went by -/
  | passed {w w' : σ} {heard : List Exchange} (h : Hears s w heard w') (nanos : Nat) :
    Hears s w heard (s.pass nanos w')
  /-- a request was answered -/
  | answered {w w' : σ} {heard : List Exchange} (h : Hears s w heard w') (r : Request) :
    Hears s w (heard ++ [⟨r, (s.answer r w').1⟩]) (s.answer r w').2

theorem Surroundings.Hears.trans {σ : Type} {s : Surroundings σ} {w w' w'' : σ}
    {first second : List Exchange} (h : s.Hears w first w') (h' : s.Hears w' second w'') :
    s.Hears w (first ++ second) w'' := by
  induction h' with
  | start => simpa using h
  | passed _ nanos ih => exact ih.passed nanos
  | answered _ r ih => simpa using ih.answered r

/-- What happens in the order of a course. -/
theorem Course.Follows.hears {σ : Type} (s : Surroundings σ) {c : Course} {a : Activity}
    (h : c.Follows a) (w : σ) :
    ∃ heard, a.After heard (.done (c.run s w).1) ∧ s.Hears w heard (c.run s w).2 := by
  induction c generalizing a w with
  | done o => exact ⟨[], Activity.After.start.silents h, .start w⟩
  | call r k ih =>
    obtain ⟨b, k', hb, hasks, hk⟩ := h
    obtain ⟨heard, hafter, hhears⟩ := ih _ (hk (s.answer r w).1) (s.answer r w).2
    have hfirst : a.After [⟨r, (s.answer r w).1⟩] (k' (s.answer r w).1) :=
      (Activity.After.start.silents hb).heard hasks _
    exact ⟨_, hfirst.trans hafter, ((Surroundings.Hears.start w).answered r).trans hhears⟩
  | alarm n c ih => exact ih h w
  | wait n c ih =>
    obtain ⟨heard, hafter, hhears⟩ := ih h (s.pass n w)
    exact ⟨heard, hafter, ((Surroundings.Hears.start w).passed n).trans hhears⟩

/-- What happens when an activity is let happen. -/
theorem Activity.hears_run {σ : Type} (s : Surroundings σ) {a : Activity} (ha : a.Uncrowded)
    (w : σ) : ∃ heard, a.After heard (.done (a.run s w).1) ∧ s.Hears w heard (a.run s w).2 :=
  (Activity.follows_course ha).hears s w

/-! ## Pools -/

/-- What was heard by the member of a pool with a number. -/
def Log.by (log : Log) (i : Nat) : List Exchange :=
  (log.filter fun x => x.1.head? = some i).map Prod.snd

theorem Log.by_append (log log' : Log) (i : Nat) :
    (log ++ log' : Log).by i = log.by i ++ Log.by log' i := by
  rw [Log.by, Log.by, Log.by, List.filter_append, List.map_append]

/-- What a member heard in one step. -/
theorem Log.by_exchange (x? : Option (Place × Exchange)) (j i : Nat) :
    Log.by (x?.map fun x => (j :: x.1, x.2)).toList i =
      if j = i then (x?.map Prod.snd).toList else [] := by
  cases x? with
  | none => simp [Log.by]
  | some x => by_cases hj : j = i <;> simp [Log.by, hj]

namespace Pool

variable {σ ι : Type} (s : Surroundings σ) (launch : ι → Activity)

/-- The log tells how the surroundings have come to where they are. -/
theorem hears_run (P : Pool σ) (moves : List (Move ι)) :
    ∃ later, (P.run s launch moves).log = P.log ++ later ∧
      s.Hears P.state (later.map Prod.snd) (P.run s launch moves).state := by
  induction moves generalizing P with
  | nil => exact ⟨[], (List.append_nil _).symm, .start _⟩
  | cons move moves ih =>
    obtain ⟨later, hlog, hhears⟩ := ih (P.step s launch move)
    show ∃ later, ((P.step s launch move).run s launch moves).log = P.log ++ later ∧ _
    rw [hlog]
    cases moved_step s launch P move with
    | silent hstate hlog' =>
      rw [hstate] at hhears
      exact ⟨later, by rw [hlog'], hhears⟩
    | passed nanos hstate hlog' =>
      rw [hstate] at hhears
      exact ⟨later, by rw [hlog'], ((Surroundings.Hears.start _).passed nanos).trans hhears⟩
    | answered π r hstate hlog' =>
      rw [hstate] at hhears
      exact ⟨(π, ⟨r, (s.answer r P.state).1⟩) :: later, by rw [hlog', List.append_assoc]; rfl,
        ((Surroundings.Hears.start _).answered r).trans hhears⟩

/-- After a move, a member has come by what was heard at its places to where it is. -/
theorem after_step {P : Pool σ} {i : Nat} {a : Activity} (ha : P.members[i]? = some a)
    (hcrowd : a.Uncrowded) (move : Move ι) :
    ∃ b later, (P.step s launch move).members[i]? = some b ∧
      (P.step s launch move).log = P.log ++ later ∧ a.After (Log.by later i) b := by
  have hi : i < P.members.length := (List.getElem?_eq_some_iff.1 ha).1
  have hnothing : P.log = P.log ++ [] := (List.append_nil _).symm
  cases move with
  | start x => exact ⟨a, [], (List.getElem?_append_left hi).trans ha, hnothing, .start⟩
  | pass nanos => exact ⟨a, [], ha, hnothing, .start⟩
  | go j π =>
    rw [step]
    split
    · exact ⟨a, [], ha, hnothing, .start⟩
    · next c hc =>
      by_cases hj : j = i
      · subst hj
        obtain rfl : c = a := Option.some.inj (hc.symm.trans ha)
        refine ⟨_, _, List.getElem?_set_self hi, rfl, ?_⟩
        rw [Log.by_exchange, if_pos rfl]
        exact Activity.After.start.advanced (Activity.advanced s P.state hcrowd π)
      · refine ⟨a, _, (List.getElem?_set_ne hj).trans ha, rfl, ?_⟩
        rw [Log.by_exchange, if_neg hj]
        exact .start

/-- Whatever moves are made, a member comes by what is heard at its places to where it is. -/
theorem after_run {P : Pool σ} {i : Nat} {a : Activity} (ha : P.members[i]? = some a)
    (hcrowd : a.Uncrowded) (moves : List (Move ι)) :
    ∃ b later, (P.run s launch moves).members[i]? = some b ∧
      (P.run s launch moves).log = P.log ++ later ∧ a.After (Log.by later i) b := by
  induction moves generalizing P a with
  | nil => exact ⟨a, [], ha, (List.append_nil _).symm, .start⟩
  | cons move moves ih =>
    obtain ⟨b, first, hb, hfirst, hafter⟩ := after_step s launch ha hcrowd move
    obtain ⟨b', later, hb', hlater, hafter'⟩ := ih hb (hafter.uncrowded hcrowd)
    refine ⟨b', first ++ later, hb', ?_, ?_⟩
    · rw [← List.append_assoc, ← hfirst]
      exact hlater
    · rw [Log.by_append]
      exact hafter.trans hafter'

/-- A member that is started, whatever goes on besides. -/
theorem after_started (P : Pool σ) (x : ι) (hcrowd : (launch x).Uncrowded) (moves : List (Move ι)) :
    ∃ b later, (P.run s launch (.start x :: moves)).members[P.members.length]? = some b ∧
      (P.run s launch (.start x :: moves)).log = P.log ++ later ∧
      s.Hears P.state (later.map Prod.snd) (P.run s launch (.start x :: moves)).state ∧
      (launch x).After (Log.by later P.members.length) b := by
  have hmember : (P.step s launch (.start x)).members[P.members.length]? = some (launch x) :=
    List.getElem?_concat_length
  obtain ⟨b, later, hb, hlog, hafter⟩ := after_run s launch hmember hcrowd moves
  obtain ⟨later', hlog', hhears⟩ := hears_run s launch (P.step s launch (.start x)) moves
  obtain rfl : later = later' := List.append_cancel_left (hlog.symm.trans hlog')
  exact ⟨b, later, hb, hlog, hhears, hafter⟩

end Pool

end Loyalty
