import Loyalty.Process.Schedule

/-!
# In company

Several courses go on side by side, each of them for itself: it makes requests and sleeps, and
nothing within it goes on side by side with anything else. `Together` says what comes of that. Those
who are awake have their turns, and when nobody is awake, time goes by until somebody wakes up.

There are two rules for whose turn it is when several are awake. Either it is that of the first of
them in the list, or it is that of him who fell asleep first. Of those who fell asleep in the same
instant it is again his who had his turn first in that instant. So the rule takes nothing but when
they fell asleep, each time that they did, and their order in the list.

Main statements: whoever cannot tell what the others do goes on as he would without them; and who
is alone goes on in the same way by either rule.
-/

namespace Loyalty

variable {ι σ : Type}

/-! ## For themselves -/

/-- An activity that goes on for itself. All its requests are allowed. -/
def Activity.Solo (allowed : Request → Prop) : Activity → Prop
  | done _ => True
  | call r k => allowed r ∧ ∀ x, (k x).Solo allowed
  | pause _ a => a.Solo allowed
  | fork .. => False
  | crowd .. => False

theorem Activity.Solo.bind {allowed : Request → Prop} {a : Activity} (ha : a.Solo allowed)
    {g : Outcome → Activity} (hg : ∀ o, (g o).Solo allowed) : (a.bind g).Solo allowed := by
  induction a with
  | done o => exact hg o
  | call r k ih => exact ⟨ha.1, fun x => ih x (ha.2 x)⟩
  | pause n a ih => exact ih ha
  | fork | crowd => exact ha.elim

theorem Activity.Solo.mono {allowed allowed' : Request → Prop}
    (h : ∀ r, allowed r → allowed' r) {a : Activity} (ha : a.Solo allowed) : a.Solo allowed' := by
  induction a with
  | done o => exact True.intro
  | call r k ih => exact ⟨h r ha.1, fun x => ih x (ha.2 x)⟩
  | pause n a ih => exact ih ha
  | fork | crowd => exact ha.elim

/-- A course that goes on for itself. It sets an alarm only where it goes to sleep. -/
inductive Course.Solo (allowed : Request → Prop) : Course → Prop where
  /-- the end -/
  | done (o : Outcome) : Solo allowed (done o)
  /-- a request -/
  | call {r : Request} (hr : allowed r) {k : r.Answer → Course} (hk : ∀ x, Solo allowed (k x)) :
    Solo allowed (call r k)
  /-- a sleep -/
  | sleep (n : Nat) {c : Course} (hc : Solo allowed c) :
    Solo allowed (alarm (n + 1) (wait (n + 1) c))

theorem Activity.Solo.course {allowed : Request → Prop} {a : Activity} (ha : a.Solo allowed) :
    a.course.Solo allowed := by
  induction a with
  | done o => exact .done o
  | call r k ih => exact .call ha.1 fun x => ih x (ha.2 x)
  | pause n a ih =>
    rw [Activity.course]
    cases min n longestSleep with
    | zero => exact ih ha
    | succ n => exact .sleep n (ih ha)
  | fork | crowd => exact ha.elim

/-! ## Companions -/

/-- One of several whose courses go on side by side. -/
structure Companion (ι : Type) where
  /-- who it is -/
  who : ι
  /-- for how many nanoseconds it goes on sleeping -/
  rest : Nat
  /-- what it has to do when it is awake -/
  course : Course
  /-- the times at which it fell asleep, latest first, as far as they matter -/
  slept : List Nat

namespace Companion

/-- The companion who has ended with an outcome. -/
def ended (x : List Nat × (ι × Outcome)) : Companion ι :=
  ⟨x.2.1, 0, .done x.2.2, x.1⟩

/-- The companion does not want to go on for so many nanoseconds: it sleeps, or it has ended. -/
def RestsFor (n : Nat) (m : Companion ι) : Prop :=
  n ≤ m.rest ∨ ∃ x, m = ended x

/-- The companion so many nanoseconds later. -/
def later (n : Nat) (m : Companion ι) : Companion ι :=
  { m with rest := m.rest - n }

/-- The companion as if he had never been asleep. -/
def rested (m : Companion ι) : Companion ι :=
  { m with slept := [] }

/-- Activities that have not begun, in the order in which they will. -/
def beginning (as : List (ι × Activity)) : List (Companion ι) :=
  as.map fun x => ⟨x.1, 0, x.2.course, []⟩

theorem later_later (n k : Nat) (m : Companion ι) : (m.later n).later k = m.later (n + k) := by
  rw [later, later, later, Nat.sub_sub]

theorem later_ended (n : Nat) (x : List Nat × (ι × Outcome)) : (ended x).later n = ended x := by
  rw [later, ended, Nat.zero_sub]

theorem map_later_ended (n : Nat) (xs : List (List Nat × (ι × Outcome))) :
    (xs.map ended).map (later n) = xs.map ended := by
  rw [List.map_map]
  exact List.map_congr_left fun x _ => later_ended n x

theorem map_later_later (n k : Nat) (ms : List (Companion ι)) :
    (ms.map (later n)).map (later k) = ms.map (later (n + k)) := by
  rw [List.map_map]
  exact List.map_congr_left fun m _ => later_later n k m

theorem restsFor_ended (n : Nat) (x : List Nat × (ι × Outcome)) : (ended x).RestsFor n :=
  .inr ⟨x, rfl⟩

theorem RestsFor.of_le {n k : Nat} {m : Companion ι} (h : m.RestsFor n) (hle : k ≤ n) :
    m.RestsFor k :=
  h.imp (fun hn => Nat.le_trans hle hn) id

theorem RestsFor.later {n k : Nat} {m : Companion ι} (h : m.RestsFor (n + k)) :
    (m.later n).RestsFor k := by
  rcases h with h | ⟨x, rfl⟩
  · exact .inl (show k ≤ m.rest - n by omega)
  · exact .inr ⟨x, later_ended n x⟩

theorem RestsFor.rested {n : Nat} {m : Companion ι} (h : m.RestsFor n) : m.rested.RestsFor n := by
  rcases h with h | ⟨x, rfl⟩
  · exact .inl h
  · exact .inr ⟨([], x.2), rfl⟩

/-- Whoever makes a request is awake. -/
theorem not_rests_call (who : ι) (r : Request) (k : r.Answer → Course) (slept : List Nat) :
    ¬ (Companion.mk who 0 (.call r k) slept).RestsFor 1 := by
  rintro (h | ⟨x, hx⟩)
  · exact absurd h (Nat.not_succ_le_zero 0)
  · cases hx

/-- Whoever goes to sleep is awake. -/
theorem not_rests_sleep (who : ι) (n : Nat) (c : Course) (slept : List Nat) :
    ¬ (Companion.mk who 0 (.alarm n (.wait n c)) slept).RestsFor 1 := by
  rintro (h | ⟨x, hx⟩)
  · exact absurd h (Nat.not_succ_le_zero 0)
  · cases hx

/-- It is the turn of somebody who fell asleep at these times, between those before and those after
him in the list. -/
structure HasTurn (before : List (Companion ι)) (slept : List Nat) (after : List (Companion ι)) :
    Prop where
  /-- of those before him it would be if they had not fallen asleep later -/
  before : ∀ m ∈ before, m.RestsFor 1 ∨ slept < m.slept
  /-- of those after him it would be if they had fallen asleep earlier -/
  after : ∀ m ∈ after, m.RestsFor 1 ∨ ¬ m.slept < slept

/-- It is the turn of one only. -/
theorem HasTurn.unique {before before' after after' : List (Companion ι)} {m m' : Companion ι}
    (h : HasTurn before m.slept after) (h' : HasTurn before' m'.slept after') (hm : ¬ m.RestsFor 1)
    (hm' : ¬ m'.RestsFor 1) (heq : before ++ m :: after = before' ++ m' :: after') :
    before = before' ∧ m = m' ∧ after = after' := by
  -- The one further to the front fell asleep later, and the other did not fall asleep earlier.
  rcases List.append_eq_append_iff.1 heq with ⟨between, hbetween, htail⟩ | ⟨between, hbetween, htail⟩
  · cases between with
    | nil => exact ⟨by simpa using hbetween.symm, List.cons.inj htail⟩
    | cons x between =>
      obtain ⟨rfl, hafter⟩ := List.cons.inj htail
      have hearlier := h'.before m (hbetween ▸ List.mem_append_right _ List.mem_cons_self)
      have hlater := h.after m' (hafter ▸ List.mem_append_right _ List.mem_cons_self)
      exact absurd (hearlier.resolve_left hm) (hlater.resolve_left hm')
  · cases between with
    | nil =>
      obtain ⟨rfl, rfl⟩ := List.cons.inj htail
      exact ⟨by simpa using hbetween, rfl, rfl⟩
    | cons x between =>
      obtain ⟨rfl, hafter⟩ := List.cons.inj htail
      have hearlier := h.before m' (hbetween ▸ List.mem_append_right _ List.mem_cons_self)
      have hlater := h'.after m (hafter ▸ List.mem_append_right _ List.mem_cons_self)
      exact absurd (hearlier.resolve_left hm') (hlater.resolve_left hm)

theorem HasTurn.filter {before after : List (Companion ι)} {slept : List Nat}
    (h : HasTurn before slept after) (p : Companion ι → Bool) :
    HasTurn (before.filter p) slept (after.filter p) where
  before m hm := h.before m (List.mem_filter.1 hm).1
  after m hm := h.after m (List.mem_filter.1 hm).1

/-- Somebody who is alone need not wait for his turn. -/
theorem hasTurn_alone (slept : List Nat) : HasTurn ([] : List (Companion ι)) slept [] where
  before _ h := absurd h List.not_mem_nil
  after _ h := absurd h List.not_mem_nil

/-- While somebody is awake, time does not go by, and not all have ended. -/
theorem not_restsFor_of_awake {n : Nat} {before after : List (Companion ι)} {m : Companion ι}
    (hm : ¬ m.RestsFor 1) : ¬ ∀ x ∈ before ++ m :: after, x.RestsFor (n + 1) :=
  fun h => hm ((h m (List.mem_append_right _ List.mem_cons_self)).of_le (Nat.le_add_left 1 n))

theorem ne_ended_of_awake {before after : List (Companion ι)} {m : Companion ι}
    {xs : List (List Nat × (ι × Outcome))} (hm : ¬ m.RestsFor 1) :
    before ++ m :: after ≠ xs.map ended := by
  intro h
  have hended : ∀ x ∈ xs.map ended, x.RestsFor 1 :=
    List.forall_mem_map.2 fun x _ => restsFor_ended 1 x
  exact not_restsFor_of_awake hm (h ▸ hended)

end Companion

open Companion

/-- The outcome of companions who have ended: the failure of the first of them who failed. -/
def Outcome.ofResults (results : List (ι × Outcome)) : Outcome :=
  results.foldr (fun x o => x.2.both o) (.ok ())

/-! ## Together -/

/-- From the time `t` on companions go on side by side in the state `w`, until all have ended in the
state `w'`. If `fifo` holds, those who wake up at once have their turns as they fell asleep. -/
inductive Together (s : Surroundings σ) (fifo : Bool) :
    Nat → List (Companion ι) → σ → List (ι × Outcome) → σ → Prop where
  /-- all have ended -/
  | finish (t : Nat) (xs : List (List Nat × (ι × Outcome))) (w : σ) :
    Together s fifo t (xs.map ended) w (xs.map Prod.snd) w
  /-- somebody makes a request -/
  | call {t : Nat} {before after : List (Companion ι)} {who : ι} {slept : List Nat}
    (hturn : HasTurn before slept after) {r : Request} {k : r.Answer → Course} {w w' : σ}
    {results : List (ι × Outcome)}
    (h : Together s fifo t (before ++ ⟨who, 0, k (s.answer r w).1, slept⟩ :: after)
      (s.answer r w).2 results w') :
    Together s fifo t (before ++ ⟨who, 0, .call r k, slept⟩ :: after) w results w'
  /-- somebody goes to sleep -/
  | sleep {t : Nat} {before after : List (Companion ι)} {who : ι} {slept : List Nat}
    (hturn : HasTurn before slept after) {n : Nat} {c : Course} {w w' : σ}
    {results : List (ι × Outcome)}
    (h : Together s fifo t
      (before ++ ⟨who, n, c, if fifo then t :: slept else slept⟩ :: after) w results w') :
    Together s fifo t (before ++ ⟨who, 0, .alarm n (.wait n c), slept⟩ :: after) w results w'
  /-- time goes by while nobody is awake -/
  | pass {t : Nat} {ms : List (Companion ι)} (n : Nat) (hrest : ∀ m ∈ ms, m.RestsFor (n + 1))
    {w w' : σ} {results : List (ι × Outcome)}
    (h : Together s fifo (t + (n + 1)) (ms.map (later (n + 1))) (s.pass (n + 1) w) results w') :
    Together s fifo t ms w results w'

namespace Together

variable {s : Surroundings σ} {fifo : Bool} {t : Nat} {ms : List (Companion ι)} {u w w' : σ}
  {results : List (ι × Outcome)}

/-- Everybody comes to an end. -/
theorem who_eq (h : Together s fifo t ms w results w') :
    results.map Prod.fst = ms.map Companion.who := by
  induction h with
  | finish t xs w =>
    rw [List.map_map, List.map_map]
    rfl
  | call _ _ ih | sleep _ _ ih => simpa using ih
  | pass n _ _ ih =>
    rw [ih, List.map_map]
    rfl

/-- Whoever is alone goes on in the same way by either rule. -/
theorem of_length_le_one (h : Together s fifo t ms w results w') (hms : ms.length ≤ 1) :
    Together s false t (ms.map rested) w results w' := by
  have halone {before after : List (Companion ι)} {m : Companion ι}
      (hlength : (before ++ m :: after).length ≤ 1) : before = [] ∧ after = [] := by
    rw [List.length_append, List.length_cons] at hlength
    exact ⟨List.length_eq_zero_iff.1 (by omega), List.length_eq_zero_iff.1 (by omega)⟩
  induction h with
  | finish t xs w =>
    rw [List.map_map]
    have hover : Together s false t ((xs.map fun x => ([], x.2)).map ended) w
        ((xs.map fun x => (([] : List Nat), x.2)).map Prod.snd) w := .finish t _ w
    rw [List.map_map, List.map_map] at hover
    exact hover
  | call _ _ ih =>
    obtain ⟨rfl, rfl⟩ := halone hms
    exact .call (hasTurn_alone []) (ih hms)
  | sleep _ _ ih =>
    obtain ⟨rfl, rfl⟩ := halone hms
    exact .sleep (hasTurn_alone []) (ih hms)
  | pass n hrest _ ih =>
    have hnext := ih (by rwa [List.length_map])
    rw [List.map_map] at hnext
    refine .pass n (List.forall_mem_map.2 fun m hm => (hrest m hm).rested) ?_
    rwa [List.map_map]

/-! ## Apart -/

section Apart

variable (mine : ι → Bool) {allowed : ι → Request → Prop} {R : σ → σ → Prop}
  (hmine : ∀ i r u v, mine i → allowed i r → R u v →
    (s.answer r u).1 = (s.answer r v).1 ∧ R (s.answer r u).2 (s.answer r v).2)
  (hothers : ∀ i r u v, mine i = false → allowed i r → R u v → R (s.answer r u).2 v)
  (hpass : ∀ n u v, R u v → R (s.pass n u) (s.pass n v))

include hmine hothers hpass

/-- **Apart.** Some of the companions cannot tell states apart that the others can. Then they go on
as they would without the others. -/
theorem apart (h : Together s fifo t ms u results w)
    (hms : ∀ m ∈ ms, m.course.Solo (allowed m.who)) {v : σ} (hv : R u v) :
    ∃ v', Together s fifo t (ms.filter fun m => mine m.who) v
      (results.filter fun x => mine x.1) v' ∧ R w v' := by
  induction h generalizing v with
  | finish t xs w =>
    refine ⟨v, ?_, hv⟩
    rw [List.filter_map, List.filter_map]
    exact .finish t _ v
  | @call t before after who slept hturn r k u w results _ ih =>
    obtain ⟨hr, hk⟩ : allowed who r ∧ ∀ x, (k x).Solo (allowed who) := by
      cases hms _ (List.mem_append_right _ List.mem_cons_self) with
      | call hr hk => exact ⟨hr, hk⟩
    have hms' : ∀ m ∈ before ++ ⟨who, 0, k (s.answer r u).1, slept⟩ :: after,
        m.course.Solo (allowed m.who) := by
      simp only [List.forall_mem_append, List.forall_mem_cons] at hms ⊢
      exact ⟨hms.1, hk _, hms.2.2⟩
    cases hwho : mine who with
    | true =>
      obtain ⟨hanswer, hR⟩ := hmine who r u v hwho hr hv
      obtain ⟨v', htogether, hv'⟩ := ih hms' hR
      refine ⟨v', ?_, hv'⟩
      rw [List.filter_append, List.filter_cons_of_pos (by exact hwho), hanswer] at htogether
      rw [List.filter_append, List.filter_cons_of_pos (by exact hwho)]
      exact .call (hturn.filter _) htogether
    | false =>
      obtain ⟨v', htogether, hv'⟩ := ih hms' (hothers who r u v hwho hr hv)
      refine ⟨v', ?_, hv'⟩
      rw [List.filter_append, List.filter_cons_of_neg (by simp [hwho])] at htogether ⊢
      exact htogether
  | @sleep t before after who slept hturn n c u w results _ ih =>
    have hc : c.Solo (allowed who) := by
      cases hms _ (List.mem_append_right _ List.mem_cons_self) with
      | sleep _ hc => exact hc
    have hms' : ∀ m ∈ before ++ ⟨who, n, c, if fifo then t :: slept else slept⟩ :: after,
        m.course.Solo (allowed m.who) := by
      simp only [List.forall_mem_append, List.forall_mem_cons] at hms ⊢
      exact ⟨hms.1, hc, hms.2.2⟩
    obtain ⟨v', htogether, hv'⟩ := ih hms' hv
    refine ⟨v', ?_, hv'⟩
    cases hwho : mine who with
    | true =>
      rw [List.filter_append, List.filter_cons_of_pos (by exact hwho)] at htogether ⊢
      exact .sleep (hturn.filter _) htogether
    | false =>
      rw [List.filter_append, List.filter_cons_of_neg (by simp [hwho])] at htogether ⊢
      exact htogether
  | @pass t ms n hrest u w results _ ih =>
    have hms' : ∀ m ∈ ms.map (later (n + 1)), m.course.Solo (allowed m.who) :=
      List.forall_mem_map.2 hms
    obtain ⟨v', htogether, hv'⟩ := ih hms' (hpass _ u v hv)
    refine ⟨v', .pass n (fun m hm => hrest m (List.mem_filter.1 hm).1) ?_, hv'⟩
    rw [List.filter_map] at htogether
    exact htogether

end Apart

/-! ## One step after the other -/

/-- Whoever makes a request when it is his turn was the only one who could go on. -/
theorem of_call {before after : List (Companion ι)} {who : ι} {slept : List Nat} {r : Request}
    {k : r.Answer → Course} (hturn : HasTurn before slept after)
    (h : Together s fifo t (before ++ ⟨who, 0, .call r k, slept⟩ :: after) w results w') :
    Together s fifo t (before ++ ⟨who, 0, k (s.answer r w).1, slept⟩ :: after) (s.answer r w).2
      results w' := by
  have hawake := not_rests_call who r k slept
  generalize hms : before ++ ⟨who, 0, .call r k, slept⟩ :: after = ms at h
  cases h with
  | finish => exact absurd hms (ne_ended_of_awake hawake)
  | call hturn' h =>
    obtain ⟨rfl, hm, rfl⟩ := HasTurn.unique hturn hturn' hawake (not_rests_call _ _ _ _) hms
    cases hm
    exact h
  | sleep hturn' =>
    obtain ⟨-, hm, -⟩ := HasTurn.unique hturn hturn' hawake (not_rests_sleep _ _ _ _) hms
    cases hm
  | pass n hrest => exact absurd (hms ▸ hrest) (not_restsFor_of_awake hawake)

/-- So was whoever goes to sleep. -/
theorem of_sleep {before after : List (Companion ι)} {who : ι} {slept : List Nat} {n : Nat}
    {c : Course} (hturn : HasTurn before slept after)
    (h : Together s fifo t (before ++ ⟨who, 0, .alarm n (.wait n c), slept⟩ :: after) w results
      w') :
    Together s fifo t (before ++ ⟨who, n, c, if fifo then t :: slept else slept⟩ :: after) w results
      w' := by
  have hawake := not_rests_sleep who n c slept
  generalize hms : before ++ ⟨who, 0, .alarm n (.wait n c), slept⟩ :: after = ms at h
  cases h with
  | finish => exact absurd hms (ne_ended_of_awake hawake)
  | call hturn' =>
    obtain ⟨-, hm, -⟩ := HasTurn.unique hturn hturn' hawake (not_rests_call _ _ _ _) hms
    cases hm
  | sleep hturn' h =>
    obtain ⟨rfl, hm, rfl⟩ := HasTurn.unique hturn hturn' hawake (not_rests_sleep _ _ _ _) hms
    cases hm
    exact h
  | pass n hrest => exact absurd (hms ▸ hrest) (not_restsFor_of_awake hawake)

section Time

variable (hzero : ∀ w, s.pass 0 w = w) (hadd : ∀ n k w, s.pass k (s.pass n w) = s.pass (n + k) w)

include hzero hadd

/-- When all have ended nothing happens any more but that time goes by. -/
theorem of_finish {xs : List (List Nat × (ι × Outcome))}
    (h : Together s fifo t (xs.map ended) w results w') :
    results = xs.map Prod.snd ∧ ∃ n, w' = s.pass n w := by
  generalize hms : xs.map ended = ms at h
  induction h with
  | finish t ys w =>
    have hinj : ∀ x y : List Nat × (ι × Outcome), ended x = ended y → x = y := by
      rintro ⟨l, i, o⟩ ⟨l', j, p⟩ h
      cases h
      rfl
    obtain rfl := (List.map_inj_right hinj).1 hms
    exact ⟨rfl, 0, (hzero w).symm⟩
  | call => exact absurd hms.symm (ne_ended_of_awake (not_rests_call _ _ _ _))
  | sleep => exact absurd hms.symm (ne_ended_of_awake (not_rests_sleep _ _ _ _))
  | pass n _ _ ih =>
    subst hms
    obtain ⟨rfl, k, rfl⟩ := ih (map_later_ended _ _).symm
    exact ⟨rfl, _, hadd _ _ _⟩

omit hzero in
/-- While nobody is awake time goes by until somebody wakes up, at once or bit by bit. -/
theorem of_pass {n : Nat} (hrest : ∀ m ∈ ms, m.RestsFor (n + 1))
    (hwakes : ∃ m ∈ ms, m.rest = n + 1) (h : Together s fifo t ms w results w') :
    Together s fifo (t + (n + 1)) (ms.map (later (n + 1))) (s.pass (n + 1) w) results w' := by
  induction h generalizing n with
  | finish t xs w =>
    obtain ⟨m, hm, hn⟩ := hwakes
    obtain ⟨x, -, rfl⟩ := List.mem_map.1 hm
    cases hn
  | call => exact absurd hrest (not_restsFor_of_awake (not_rests_call _ _ _ _))
  | sleep => exact absurd hrest (not_restsFor_of_awake (not_rests_sleep _ _ _ _))
  | @pass t ms k hrest' w w' results h ih =>
    obtain ⟨m, hm, hn⟩ := hwakes
    have hle : k ≤ n := by
      rcases hrest' m hm with hk | ⟨x, rfl⟩
      · omega
      · cases hn
    obtain ⟨j, rfl⟩ := Nat.exists_eq_add_of_le hle
    cases j with
    | zero => exact h
    | succ j =>
      have hj : k + (j + 1) + 1 = k + 1 + (j + 1) := by omega
      have hnext := ih (List.forall_mem_map.2 fun m hm => RestsFor.later (hj ▸ hrest m hm))
        ⟨_, List.mem_map_of_mem hm, show m.rest - (k + 1) = j + 1 by omega⟩
      rwa [map_later_later, hadd, Nat.add_assoc, ← hj] at hnext

end Time

end Together

end Loyalty
