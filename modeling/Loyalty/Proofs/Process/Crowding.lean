import Loyalty.Proofs.Process.Arrangement

/-!
# What a crowd does

The members of a crowd go on together. A member who is asleep has set an alarm, and one who is
neither awake nor asleep has ended. Alarms are kept in the order in which they were set, so those
whose alarms go off at once have their turns as they fell asleep.

Main statements: the course of a crowd gives its members their turns as they fell asleep; and there
is only one way in which activities that go on for themselves can go on together.
-/

namespace Loyalty

open Companion

variable {ι : Type} {allowed : ι → Request → Prop}

theorem eraseDups_eq_self {ps : List Nat} (h : ps.Nodup) : ps.eraseDups = ps := by
  induction h with
  | nil => rfl
  | @cons p ps hp _ ih =>
    rw [List.eraseDups_cons, List.filter_eq_self.2, ih]
    intro q hq
    simpa using (hp q hq).symm

/-- A list around one of its places. -/
theorem exists_around {α : Type} {as : List α} {p : Nat} {a : α} (h : as[p]? = some a) :
    ∃ before after, as = before ++ a :: after ∧ before.length = p ∧
      ∀ b, as.set p b = before ++ b :: after := by
  obtain ⟨hp, rfl⟩ := List.getElem?_eq_some_iff.1 h
  have hlength : (as.take p).length = p := List.length_take_of_le (Nat.le_of_lt hp)
  refine ⟨as.take p, as.drop (p + 1), ?_, hlength, fun b => ?_⟩
  · rw [List.getElem_cons_drop, List.take_append_drop]
  · rw [List.set_eq_take_append_cons_drop, if_pos hp]

namespace Crowd

/-! ## Whose turn it is -/

/-- Somebody at the place `p` who fell asleep at certain times has his turn before somebody at the
place `q` who did so at others. -/
def Ahead (slept : List Nat) (p : Nat) (slept' : List Nat) (q : Nat) : Prop :=
  slept < slept' ∨ slept = slept' ∧ p < q

theorem Ahead.ne {slept slept' : List Nat} {p q : Nat} (h : Ahead slept p slept' q)
    (hslept : p = q → slept = slept') : p ≠ q := by
  rintro rfl
  obtain rfl := hslept rfl
  rcases h with h | ⟨-, h⟩
  · exact List.lt_irrefl _ h
  · exact Nat.lt_irrefl p h

/-- Those who fall asleep in the same instant do so in the order of their turns. -/
theorem Ahead.cons {slept slept' : List Nat} {p q : Nat} (h : Ahead slept p slept' q) (t : Nat) :
    Ahead (t :: slept) p (t :: slept') q := by
  rcases h with h | ⟨rfl, h⟩
  · exact .inl (List.cons_lt_cons_iff.2 (.inr ⟨rfl, h⟩))
  · exact .inr ⟨rfl, h⟩

/-- At which times the companion at a place fell asleep. -/
def sleptAt (ms : List (Companion ι)) (p : Nat) : List Nat :=
  (ms[p]?.map Companion.slept).getD []

theorem sleptAt_of_getElem? {ms : List (Companion ι)} {p : Nat} {m : Companion ι}
    (h : ms[p]? = some m) : sleptAt ms p = m.slept := by
  rw [sleptAt, h, Option.map_some, Option.getD_some]

theorem sleptAt_set_self {ms : List (Companion ι)} {p : Nat} {m : Companion ι}
    (h : ms[p]? = some m) (m' : Companion ι) : sleptAt (ms.set p m') p = m'.slept :=
  sleptAt_of_getElem? (List.getElem?_set_self (List.getElem?_eq_some_iff.1 h).1)

theorem sleptAt_set_ne (ms : List (Companion ι)) {p q : Nat} (h : p ≠ q) (m : Companion ι) :
    sleptAt (ms.set p m) q = sleptAt ms q := by
  rw [sleptAt, sleptAt, List.getElem?_set_ne h]

theorem sleptAt_later (n : Nat) (ms : List (Companion ι)) :
    sleptAt (ms.map (later n)) = sleptAt ms := by
  funext p
  rw [sleptAt, sleptAt, List.getElem?_map, Option.map_map]
  rfl

/-- One who has his turn before another. -/
def AheadOf (ms : List (Companion ι)) (p q : Nat) : Prop :=
  Ahead (sleptAt ms p) p (sleptAt ms q) q

theorem AheadOf.ne {ms : List (Companion ι)} {p q : Nat} (h : AheadOf ms p q) : p ≠ q :=
  Ahead.ne h fun hpq => hpq ▸ rfl

theorem nodup_of_pairwise {ms : List (Companion ι)} {ps : List Nat}
    (h : ps.Pairwise (AheadOf ms)) : ps.Nodup :=
  h.imp AheadOf.ne

/-! ## Where a crowd is -/

/-- At the time `t` a crowd is where its members are. -/
structure Stands (allowed : ι → Request → Prop) (t : Nat) (c : Crowd) (ms : List (Companion ι)) :
    Prop where
  /-- what they have to do -/
  members_eq : c.members = ms.map Companion.course
  /-- everybody goes on for himself -/
  solo : ∀ m ∈ ms, m.course.Solo (allowed m.who)
  /-- who is awake has set no alarm -/
  awake : ∀ p ∈ c.awake, p ∉ c.alarms.map Prod.fst ∧ ∃ m, ms[p]? = some m ∧ m.rest = 0
  /-- who has set an alarm sleeps until then -/
  asleep : ∀ a ∈ c.alarms, 0 < a.2 ∧ ∃ m t' slept, ms[a.1]? = some m ∧ m.rest = a.2 ∧
    m.slept = t' :: slept ∧ t' ≤ t
  /-- the others have ended -/
  finished : ∀ p m, ms[p]? = some m → p ∉ c.awake → p ∉ c.alarms.map Prod.fst → ∃ x, m = ended x
  /-- those who are awake have their turns in order -/
  awake_order : c.awake.Pairwise (AheadOf ms)
  /-- alarms are kept in the order in which they were set -/
  alarms_order : (c.alarms.map Prod.fst).Pairwise (AheadOf ms)
  /-- whoever falls asleep now does so after all who have set alarms -/
  order : ∀ a ∈ c.alarms, ∀ p ∈ c.awake, Ahead (sleptAt ms a.1) a.1 (t :: sleptAt ms p) p

namespace Stands

variable {t : Nat} {c : Crowd} {ms : List (Companion ι)}

/-- Who is not awake rests until the first alarm. -/
theorem restsFor (h : c.Stands allowed t ms) {n : Nat} (hn : ∀ a ∈ c.alarms, n ≤ a.2) {p : Nat}
    {m : Companion ι} (hm : ms[p]? = some m) (hp : p ∉ c.awake) : m.RestsFor n := by
  by_cases halarm : p ∈ c.alarms.map Prod.fst
  · obtain ⟨a, ha, rfl⟩ := List.mem_map.1 halarm
    obtain ⟨-, m', -, -, hm', hrest, -⟩ := h.asleep a ha
    obtain rfl : m = m' := Option.some.inj (hm.symm.trans hm')
    exact .inl (hrest ▸ hn a ha)
  · obtain ⟨x, rfl⟩ := h.finished p m hm hp halarm
    exact restsFor_ended n x

/-- It is the turn of the first of those who are awake. -/
theorem hasTurn (h : c.Stands allowed t ms) {p : Nat} {ps : List Nat} (hawake : c.awake = p :: ps)
    {before after : List (Companion ι)} {m : Companion ι} (hms : ms = before ++ m :: after)
    (hp : before.length = p) : HasTurn before m.slept after := by
  have horder := h.awake_order
  rw [hawake, List.pairwise_cons] at horder
  have hself : sleptAt ms p = m.slept :=
    sleptAt_of_getElem? (by rw [hms, ← hp, List.getElem?_append_right (Nat.le_refl _)]; simp)
  -- Whoever stands at another place is awake and has his turn later, or he is not awake.
  have hother {q : Nat} {x : Companion ι} (hx : ms[q]? = some x) (hpq : q ≠ p) :
      x.RestsFor 1 ∨ Ahead m.slept p x.slept q := by
    by_cases hq : q ∈ c.awake
    · rw [hawake, List.mem_cons] at hq
      have hahead := horder.1 q (hq.resolve_left hpq)
      rw [AheadOf, hself, sleptAt_of_getElem? hx] at hahead
      exact .inr hahead
    · exact .inl (h.restsFor (fun a ha => (h.asleep a ha).1) hx hq)
  constructor
  · intro x hx
    obtain ⟨q, hq⟩ := List.mem_iff_getElem?.1 hx
    have hlt : q < p := hp ▸ (List.getElem?_eq_some_iff.1 hq).1
    have hmem : ms[q]? = some x := by rw [hms, List.getElem?_append_left (hp ▸ hlt), hq]
    refine (hother hmem (Nat.ne_of_lt hlt)).imp id fun hahead => ?_
    rcases hahead with hlater | ⟨-, hpq⟩
    · exact hlater
    · exact absurd hpq (Nat.lt_asymm hlt)
  · intro x hx
    obtain ⟨q, hq⟩ := List.mem_iff_getElem?.1 hx
    have hmem : ms[p + 1 + q]? = some x := by
      rw [hms, List.getElem?_append_right (by omega), show p + 1 + q - before.length = q + 1 by omega,
        List.getElem?_cons_succ, hq]
    refine (hother hmem (by omega)).imp id fun hahead => ?_
    rcases hahead with hlater | ⟨heq, -⟩
    · exact List.lt_asymm hlater
    · exact heq ▸ List.lt_irrefl _

/-- Somebody who is awake goes on and stays awake. -/
theorem goes (h : c.Stands allowed t ms) {p : Nat} (hp : p ∈ c.awake) {m : Companion ι}
    (hm : ms[p]? = some m) {d : Course} (hd : d.Solo (allowed m.who)) :
    Stands allowed t { c with members := c.members.set p d }
      (ms.set p ⟨m.who, 0, d, m.slept⟩) := by
  have hslept : sleptAt (ms.set p ⟨m.who, 0, d, m.slept⟩) = sleptAt ms := by
    funext q
    by_cases hpq : p = q
    · subst hpq
      rw [sleptAt_set_self hm, sleptAt_of_getElem? hm]
    · rw [sleptAt_set_ne ms hpq]
  have hahead : AheadOf (ms.set p ⟨m.who, 0, d, m.slept⟩) = AheadOf ms := by
    funext q q'
    rw [AheadOf, AheadOf, hslept]
  refine ⟨?_, fun x hx => ?_, fun q hq => ?_, fun a ha => ?_, fun q x hx hq => ?_, ?_, ?_, ?_⟩
  · rw [h.members_eq, List.map_set]
  · rcases List.mem_or_eq_of_mem_set hx with hx | rfl
    · exact h.solo x hx
    · exact hd
  · obtain ⟨hne, m', hm', hrest⟩ := h.awake q hq
    refine ⟨hne, ?_⟩
    by_cases hpq : p = q
    · subst hpq
      exact ⟨_, List.getElem?_set_self (List.getElem?_eq_some_iff.1 hm).1, rfl⟩
    · exact ⟨m', by rwa [List.getElem?_set_ne hpq], hrest⟩
  · have hpa : p ≠ a.1 := fun hpa => (h.awake p hp).1 (hpa ▸ List.mem_map_of_mem ha)
    rw [List.getElem?_set_ne hpa]
    exact h.asleep a ha
  · have hpq : p ≠ q := fun hpq => hq (hpq ▸ hp)
    rw [List.getElem?_set_ne hpq] at hx
    exact h.finished q x hx hq
  · rw [hahead]
    exact h.awake_order
  · rw [hahead]
    exact h.alarms_order
  · rw [hslept]
    exact h.order

/-- Somebody falls asleep, and it is the turn of the next. -/
theorem sleeps (h : c.Stands allowed t ms) {p : Nat} {ps : List Nat} (hawake : c.awake = p :: ps)
    {m : Companion ι} (hm : ms[p]? = some m) {d : Course} (hd : d.Solo (allowed m.who)) (n : Nat) :
    Stands allowed t ⟨c.members.set p d, ps, c.alarms ++ [(p, n + 1)]⟩
      (ms.set p ⟨m.who, n + 1, d, t :: m.slept⟩) := by
  have horder := h.awake_order
  rw [hawake, List.pairwise_cons] at horder
  have hps : ∀ q ∈ ps, p ≠ q := fun q hq => (horder.1 q hq).ne
  have hp : p ∉ c.alarms.map Prod.fst := (h.awake p (hawake ▸ List.mem_cons_self)).1
  have hold : ∀ a ∈ c.alarms, p ≠ a.1 := fun a ha hpa => hp (hpa ▸ List.mem_map_of_mem ha)
  have hself : sleptAt (ms.set p ⟨m.who, n + 1, d, t :: m.slept⟩) p = t :: sleptAt ms p := by
    rw [sleptAt_set_self hm, sleptAt_of_getElem? hm]
  have hother {q : Nat} (hpq : p ≠ q) :
      sleptAt (ms.set p ⟨m.who, n + 1, d, t :: m.slept⟩) q = sleptAt ms q :=
    sleptAt_set_ne ms hpq _
  refine ⟨?_, fun x hx => ?_, fun q hq => ?_, fun a ha => ?_, fun q x hx hq hq' => ?_, ?_, ?_,
    fun a ha q hq => ?_⟩
  · rw [h.members_eq, List.map_set]
  · rcases List.mem_or_eq_of_mem_set hx with hx | rfl
    · exact h.solo x hx
    · exact hd
  · obtain ⟨hne, m', hm', hrest⟩ := h.awake q (hawake ▸ List.mem_cons_of_mem p hq)
    refine ⟨?_, m', by rwa [List.getElem?_set_ne (hps q hq)], hrest⟩
    rw [List.map_append, List.mem_append]
    rintro (hmem | hmem)
    · exact hne hmem
    · exact hps q hq (List.mem_singleton.1 hmem).symm
  · rcases List.mem_append.1 ha with ha | ha
    · rw [List.getElem?_set_ne (hold a ha)]
      exact h.asleep a ha
    · obtain rfl := List.mem_singleton.1 ha
      exact ⟨Nat.succ_pos n, _, t, m.slept,
        List.getElem?_set_self (List.getElem?_eq_some_iff.1 hm).1, rfl, rfl, Nat.le_refl t⟩
  · rw [List.map_append, List.mem_append, not_or] at hq'
    have hpq : p ≠ q := fun hpq => hq'.2 (hpq ▸ List.mem_singleton_self p)
    rw [List.getElem?_set_ne hpq] at hx
    refine h.finished q x hx ?_ hq'.1
    rw [hawake, List.mem_cons, not_or]
    exact ⟨hpq.symm, hq⟩
  · refine horder.2.imp_of_mem fun hq hq' hahead => ?_
    rwa [AheadOf, hother (hps _ hq), hother (hps _ hq')]
  · rw [List.map_append, List.map_singleton, List.pairwise_append]
    have hne {q : Nat} (hq : q ∈ c.alarms.map Prod.fst) : p ≠ q := fun hpq => hp (hpq ▸ hq)
    refine ⟨h.alarms_order.imp_of_mem fun hq hq' hahead => ?_, List.pairwise_singleton _ _, ?_⟩
    · rwa [AheadOf, hother (hne hq), hother (hne hq')]
    · intro q hq q' hq'
      obtain rfl : q' = p := List.mem_singleton.1 hq'
      obtain ⟨a, ha, rfl⟩ := List.mem_map.1 hq
      rw [AheadOf, hother (hne hq), hself]
      exact h.order a ha q' (hawake ▸ List.mem_cons_self)
  · rw [hother (hps q hq)]
    rcases List.mem_append.1 ha with ha | ha
    · rw [hother (hold a ha)]
      exact h.order a ha q (hawake ▸ List.mem_cons_of_mem p hq)
    · obtain rfl := List.mem_singleton.1 ha
      rw [hself]
      exact (horder.1 q hq).cons t

/-- Somebody has ended, and it is the turn of the next. -/
theorem ends (h : c.Stands allowed t ms) {p : Nat} {ps : List Nat} (hawake : c.awake = p :: ps)
    {x : List Nat × (ι × Outcome)} (hm : ms[p]? = some (ended x)) :
    Stands allowed t { c with awake := ps } ms := by
  have horder := h.awake_order
  rw [hawake] at horder
  have hps : ∀ q ∈ ps, q ∈ c.awake := fun q hq => hawake ▸ List.mem_cons_of_mem p hq
  refine ⟨h.members_eq, h.solo, fun q hq => h.awake q (hps q hq), h.asleep,
    fun q m hq hnot halarm => ?_, horder.of_cons, h.alarms_order,
    fun a ha q hq => h.order a ha q (hps q hq)⟩
  by_cases hpq : q = p
  · subst hpq
    exact ⟨x, Option.some.inj (hq.symm.trans hm)⟩
  · refine h.finished q m hq ?_ halarm
    rw [hawake, List.mem_cons, not_or]
    exact ⟨hpq, hnot⟩

/-- The first alarm goes off. -/
theorem wakes (h : c.Stands allowed t ms) {n : Nat} (hn : 0 < n) (hawake : c.awake = []) :
    Stands allowed (t + n) (c.wake n) (ms.map (later n)) := by
  have hplaces (q : Nat → Bool) (f : Nat → Nat) :
      ((c.alarms.filter fun a => q a.2).map fun a => (a.1, f a.2)).map Prod.fst =
        (c.alarms.filter fun a => q a.2).map Prod.fst := by
    rw [List.map_map]
    rfl
  have hsub (q : Nat → Bool) :
      ((c.alarms.filter fun a => q a.2).map Prod.fst).Pairwise (AheadOf (ms.map (later n))) := by
    have hahead : AheadOf (ms.map (later n)) = AheadOf ms := by
      funext p p'
      rw [AheadOf, AheadOf, sleptAt_later]
    rw [hahead]
    exact h.alarms_order.sublist (List.filter_sublist.map _)
  have hlater {p : Nat} {m : Companion ι} (hm : ms[p]? = some m) :
      (ms.map (later n))[p]? = some (m.later n) := by
    rw [List.getElem?_map, hm, Option.map_some]
  have hwoken : (c.wake n).awake = (c.alarms.filter fun a => a.2 ≤ n).map Prod.fst :=
    eraseDups_eq_self (nodup_of_pairwise (hsub fun k => k ≤ n))
  have hasleep : (c.wake n).alarms.map Prod.fst =
      (c.alarms.filter fun a => !(a.2 ≤ n)).map Prod.fst :=
    hplaces (fun k => !(k ≤ n)) fun k => k - n
  refine ⟨?_, List.forall_mem_map.2 h.solo, fun p hp => ?_, fun b hb => ?_,
    fun p m' hm' hp hp' => ?_, ?_, ?_, fun b hb p hp => ?_⟩
  · rw [wake, h.members_eq, List.map_map]
    rfl
  · rw [hwoken] at hp
    obtain ⟨a, ha, rfl⟩ := List.mem_map.1 hp
    obtain ⟨ha, hle⟩ := List.mem_filter.1 ha
    obtain ⟨-, m, -, -, hm, hrest, -⟩ := h.asleep a ha
    simp only [decide_eq_true_eq] at hle
    refine ⟨?_, m.later n, hlater hm, show m.rest - n = 0 by omega⟩
    rw [hasleep]
    intro hmem
    obtain ⟨b, hb, hba⟩ := List.mem_map.1 hmem
    obtain ⟨hb, hlt⟩ := List.mem_filter.1 hb
    obtain ⟨-, m', -, -, hm', hrest', -⟩ := h.asleep b hb
    rw [hba] at hm'
    obtain rfl : m = m' := Option.some.inj (hm.symm.trans hm')
    simp only [Bool.not_eq_true', decide_eq_false_iff_not] at hlt
    omega
  · obtain ⟨a, ha, rfl⟩ := List.mem_map.1 hb
    obtain ⟨ha, hlt⟩ := List.mem_filter.1 ha
    obtain ⟨-, m, t', slept, hm, hrest, hslept, hle⟩ := h.asleep a ha
    simp only [Bool.not_eq_true', decide_eq_false_iff_not] at hlt
    exact ⟨by omega, m.later n, t', slept, hlater hm, show m.rest - n = a.2 - n by rw [hrest],
      hslept, Nat.le_add_right_of_le hle⟩
  · rw [List.getElem?_map] at hm'
    obtain ⟨m, hm, rfl⟩ := Option.map_eq_some_iff.1 hm'
    rw [hwoken] at hp
    rw [hasleep] at hp'
    obtain ⟨x, rfl⟩ := h.finished p m hm (by simp [hawake]) fun hmem => by
      obtain ⟨a, ha, rfl⟩ := List.mem_map.1 hmem
      by_cases hle : a.2 ≤ n
      · exact hp (List.mem_map_of_mem (List.mem_filter.2 ⟨ha, by simpa using hle⟩))
      · exact hp' (List.mem_map_of_mem (List.mem_filter.2 ⟨ha, by simpa using hle⟩))
    exact ⟨x, later_ended n x⟩
  · rw [hwoken]
    exact hsub fun k => k ≤ n
  · rw [hasleep]
    exact hsub fun k => !(k ≤ n)
  · -- Whoever is still asleep fell asleep before this instant.
    obtain ⟨a, ha, rfl⟩ := List.mem_map.1 hb
    obtain ⟨-, m, t', slept, hm, -, hslept, hle⟩ := h.asleep a (List.mem_filter.1 ha).1
    rw [sleptAt_later, sleptAt_of_getElem? hm, hslept]
    exact .inl (List.cons_lt_cons_iff.2 (.inl (by omega)))

/-- All have ended. -/
theorem eq_ended (h : c.Stands allowed t ms) (hawake : c.awake = []) (halarms : c.alarms = []) :
    ∃ xs : List (List Nat × (ι × Outcome)), ms = xs.map ended ∧
      c.outcome = .ofResults (xs.map Prod.snd) := by
  have hover : ∀ m ∈ ms, ∃ x, m = ended x := by
    intro m hm
    obtain ⟨p, hp⟩ := List.mem_iff_getElem?.1 hm
    exact h.finished p m hp (by simp [hawake]) (by simp [halarms])
  refine ⟨ms.map fun m => (m.slept, m.who, m.course.outcome), ?_, ?_⟩
  · rw [List.map_map]
    refine ((List.map_congr_left fun m hm => ?_).trans (List.map_id ms)).symm
    obtain ⟨x, rfl⟩ := hover m hm
    rfl
  · rw [outcome, h.members_eq, Outcome.ofResults, List.foldr_map, List.foldr_map, List.foldr_map]

/-- **In a crowd.** The course of a crowd goes through what its members do. -/
theorem arranges (h : c.Stands allowed t ms) : (c.course .done).Arranges true t ms := by
  have hwf : WellFounded (Relation.TransGen Before) :=
    (⟨fun c => acc_before c.members c.awake c.alarms⟩ : WellFounded Before).transGen
  induction c using hwf.induction generalizing t ms with
  | _ c ih =>
  cases hawake : c.awake with
  | nil =>
    cases hmin : (c.alarms.map Prod.snd).min? with
    | none =>
      have hturn : c.turn = .over := by simp only [turn, hawake, hmin]
      have halarms : c.alarms = [] := List.map_eq_nil_iff.1 (List.min?_eq_none_iff.1 hmin)
      obtain ⟨xs, rfl, ho⟩ := h.eq_ended hawake halarms
      rw [course_of_over hturn, ho]
      exact .finish t xs
    | some n =>
      have hturn : c.turn = .wait n (c.wake n) := by simp only [turn, hawake, hmin]
      obtain ⟨a, ha, rfl⟩ := List.mem_map.1 (List.min?_mem hmin)
      have hn : ∀ b ∈ c.alarms, a.2 ≤ b.2 := fun b hb =>
        (List.min?_eq_some_iff.1 hmin).2 b.2 (List.mem_map_of_mem hb)
      obtain ⟨hpos, m, -, -, hm, hrest, -⟩ := h.asleep a ha
      obtain ⟨k, hk⟩ := Nat.exists_eq_succ_of_ne_zero (Nat.ne_of_gt hpos)
      have hnext := ih _ (.single (before_of_wait hturn)) (h.wakes hpos hawake)
      rw [course_of_wait hturn]
      rw [hk] at hnext hn hrest ⊢
      refine .pass k (fun x hx => ?_) ⟨m, List.mem_of_getElem? hm, hrest⟩ hnext
      obtain ⟨p, hp⟩ := List.mem_iff_getElem?.1 hx
      exact h.restsFor hn hp (by simp [hawake])
  | cons p ps =>
    have hp : p ∈ c.awake := hawake ▸ List.mem_cons_self
    obtain ⟨-, ⟨who, rest, d, slept⟩, hm, rfl⟩ := h.awake p hp
    have hmember : c.members[p]? = some d := by
      rw [h.members_eq, List.getElem?_map, hm, Option.map_some]
    obtain ⟨before, after, hms, hlength, hset⟩ := exists_around hm
    have hfirst : HasTurn before slept after := h.hasTurn hawake hms hlength
    have hd : d.Solo (allowed who) := h.solo _ (List.mem_of_getElem? hm)
    cases hd with
    | done o =>
      have hturn : c.turn = .pass { c with awake := ps } := by
        simp only [turn, hawake, hmember]
      rw [course_of_pass hturn]
      have hended : ms[p]? = some (ended (slept, who, o)) := hm
      exact ih _ (.single (before_of_pass hturn)) (h.ends hawake hended)
    | @call r hr k hk =>
      have hturn : c.turn = .call r fun x => { c with members := c.members.set p (k x) } := by
        simp only [turn, hawake, hmember]
      rw [course_of_call hturn, hms]
      refine .call hfirst fun x => ?_
      rw [← hset]
      exact ih _ (.single (before_of_call hturn x)) (h.goes hp hm (hk x))
    | @sleep n d hd =>
      -- The alarm is set, and then the turn is over.
      let ready : Crowd :=
        { c with members := c.members.set p (.wait (n + 1) d), alarms := c.alarms ++ [(p, n + 1)] }
      have hturn : c.turn = .alarm (n + 1) ready := by
        simp only [turn, hawake, hmember, ready]
      have hready : ready.turn = .pass ⟨c.members.set p d, ps, c.alarms ++ [(p, n + 1)]⟩ := by
        have hmember' : (c.members.set p (.wait (n + 1) d))[p]? = some (.wait (n + 1) d) :=
          List.getElem?_set_self (List.getElem?_eq_some_iff.1 hmember).1
        simp only [turn, ready, hawake, hmember', List.set_set]
      rw [course_of_alarm hturn, course_of_pass hready, hms]
      refine .sleep hfirst ?_
      rw [← hset]
      exact ih _ (.tail (.single (before_of_pass hready)) (before_of_alarm hturn))
        (h.sleeps hawake hm hd n)

end Stands

/-! ## Counting turns -/

/-- Lets a crowd happen that ends within so many turns. -/
def runWithin {σ : Type} (s : Surroundings σ) : Nat → Crowd → σ → Option (Outcome × σ)
  | 0, _, _ => none
  | n + 1, c, w =>
    match c.turn with
    | .over => some (c.outcome, w)
    | .call r next => runWithin s n (next (s.answer r w).1) (s.answer r w).2
    | .alarm _ next => runWithin s n next w
    | .pass next => runWithin s n next w
    | .wait nanos next => runWithin s n next (s.pass nanos w)

/-- A crowd that ends within so many turns goes on as its course does. -/
theorem run_of_runWithin {σ : Type} {s : Surroundings σ} {n : Nat} {c : Crowd} {w : σ}
    {r : Outcome × σ} (h : c.runWithin s n w = some r) : (c.course .done).run s w = r := by
  induction n generalizing c w with
  | zero => cases h
  | succ n ih =>
    rw [runWithin] at h
    split at h
    · next hturn =>
      rw [course_of_over hturn]
      exact Option.some.inj h
    · next hturn =>
      rw [course_of_call hturn]
      exact ih h
    · next hturn =>
      rw [course_of_alarm hturn]
      exact ih h
    · next hturn =>
      rw [course_of_pass hturn]
      exact ih h
    · next hturn =>
      rw [course_of_wait hturn]
      exact ih h

end Crowd

/-- Many activities side by side have their turns as they fell asleep. -/
theorem Activity.arranges_crowd {as : List (ι × Activity)}
    (has : ∀ x ∈ as, x.2.Solo (allowed x.1)) :
    (crowd (as.map Prod.snd).length (as.map Prod.snd).get done).course.Arranges true 0
      (beginning as) := by
  have hmembers : (List.ofFn fun i => ((as.map Prod.snd).get i).course) =
      (beginning as).map Companion.course :=
    List.ext_getElem (by simp [beginning]) (by simp [beginning])
  have hbeginning {p : Nat} {m : Companion ι} (hm : (beginning as)[p]? = some m) :
      m.rest = 0 ∧ m.slept = [] := by
    obtain ⟨x, -, rfl⟩ := List.mem_map.1 (List.mem_of_getElem? hm)
    exact ⟨rfl, rfl⟩
  have hslept (p : Nat) : Crowd.sleptAt (beginning as) p = [] := by
    cases hm : (beginning as)[p]? with
    | none => rw [Crowd.sleptAt, hm, Option.map_none, Option.getD_none]
    | some m => rw [Crowd.sleptAt_of_getElem? hm, (hbeginning hm).2]
  have hstands : (Crowd.ofList ((beginning as).map Companion.course)).Stands allowed 0
      (beginning as) := by
    refine ⟨rfl, List.forall_mem_map.2 fun x hx => (has x hx).course,
      fun p hp => ⟨List.not_mem_nil, ?_⟩, fun a ha => absurd ha List.not_mem_nil,
      fun p m hm hp => ?_, ?_, .nil, fun a ha => absurd ha List.not_mem_nil⟩
    · rw [Crowd.ofList, List.length_map, List.mem_range] at hp
      have hm := List.getElem?_eq_getElem hp
      exact ⟨_, hm, (hbeginning hm).1⟩
    · rw [Crowd.ofList, List.length_map, List.mem_range] at hp
      exact absurd (List.getElem?_eq_some_iff.1 hm).1 hp
    · refine List.pairwise_lt_range.imp fun hpq => ?_
      rw [Crowd.AheadOf, hslept, hslept]
      exact .inr ⟨rfl, hpq⟩
  rw [course, hmembers]
  exact hstands.arranges

/-! ## Only one way -/

/-- **Companions have no choice.** Where waiting bit by bit is waiting at once, there is only one way
in which activities can go on together from the beginning, by either rule, and if there is but one
of them the rule does not matter. -/
theorem Together.unique {σ : Type} {s : Surroundings σ} (hzero : ∀ w, s.pass 0 w = w)
    (hadd : ∀ n k w, s.pass k (s.pass n w) = s.pass (n + k) w) {as : List (ι × Activity)}
    (has : ∀ x ∈ as, x.2.Solo (allowed x.1)) {fifo fifo' : Bool}
    (hfifo : as.length ≤ 1 ∨ fifo = fifo') {w v v' : σ} {results results' : List (ι × Outcome)}
    (h : Together s fifo 0 (beginning as) w results v)
    (h' : Together s fifo' 0 (beginning as) w results' v') :
    results = results' ∧ ∃ u n n', v = s.pass n u ∧ v' = s.pass n' u := by
  have hin : (Activity.inOrder (as.map Prod.snd)).course.Arranges false 0 (beginning as) :=
    Activity.arranges_inOrder has
  rcases hfifo with hone | rfl
  · have hlength : (beginning as).length ≤ 1 := by rwa [beginning, List.length_map]
    have hrested : (beginning as).map rested = beginning as := by
      rw [beginning, List.map_map]
      rfl
    obtain ⟨hresults, n, n', hv, hv'⟩ := hin.unique hzero hadd
      (hrested ▸ h.of_length_le_one hlength) (hrested ▸ h'.of_length_le_one hlength)
    exact ⟨hresults, _, n, n', hv, hv'⟩
  · cases fifo with
    | false =>
      obtain ⟨hresults, n, n', hv, hv'⟩ := hin.unique hzero hadd h h'
      exact ⟨hresults, _, n, n', hv, hv'⟩
    | true =>
      obtain ⟨hresults, n, n', hv, hv'⟩ := (Activity.arranges_crowd has).unique hzero hadd h h'
      exact ⟨hresults, _, n, n', hv, hv'⟩

end Loyalty
