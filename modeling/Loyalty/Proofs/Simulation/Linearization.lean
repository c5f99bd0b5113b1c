import Mathlib.Data.List.Infix
import Mathlib.Data.List.Nodup
import Loyalty.Proofs.Simulation.Race
import Loyalty.Proofs.Simulation.Turns

/-!
# One call after the other

Processes that store batches may take their turns in any order, but each of them takes effect with
the turn with which it ends. So they might as well have stored their batches one at a time, in the
order in which they ended. `InTurn` says what it is to store batches one at a time, and `Race.Kept`
is the invariant of a race: those that have ended have stored their batches in turn, and the others
are at some stage before they do.

Main statement: storing is linearizable, as long as every history can be replayed; in particular,
of several batches that follow the same version of a user without a gap exactly one is stored.
-/

namespace Loyalty.Simulation

open History Repository

variable {ι : Type}

/-- Calls that were made one after the other, each on the store that the one before it left, with
what came of them. Whenever one of them was made, the histories showed the versions. -/
inductive InTurn (batches : ι → List Event) (s : EventStore) :
    List (ι × Except Failure Applied) → EventStore → Prop where
  /-- nothing was stored -/
  | nil : InTurn batches s [] s
  /-- one more batch was stored at one go -/
  | more {calls : List (ι × Except Failure Applied)} {s' s'' : EventStore}
    (h : InTurn batches s calls s') (hshows : ∀ id, s'.Shows id) {i : ι}
    {x : Except Failure Applied} (hx : AtOnce s' (batches i) x s'') :
    InTurn batches s (calls ++ [(i, x)]) s''

namespace InTurn

variable {batches : ι → List Event} {s s' : EventStore}
  {calls : List (ι × Except Failure Applied)}

theorem reachable (h : InTurn batches s calls s') (hs : s.Reachable) : s'.Reachable := by
  induction h with
  | nil => exact hs
  | more _ _ hx ih => exact hx.reachable ih

theorem stream_eq (h : InTurn batches s calls s') (id : String) :
    s'.stream id = s.stream id ++ calls.flatMap fun c => rows id (batches c.1) c.2 := by
  induction h with
  | nil => rw [List.flatMap_nil, List.append_nil]
  | more _ _ hx ih =>
    rw [hx.stream_eq, ih, List.flatMap_append, List.append_assoc, List.flatMap_singleton]

/-- The calls can be made again, one after the other, and come to the same. -/
theorem finishAll_eq (h : InTurn batches s calls s') {w : World} (hw : w.FaultFree)
    (hstore : w.store = s) :
    ∃ w', World.finishAll (calls.map fun c => (apply (batches c.1)).run) w =
      (calls.map Prod.snd, w') ∧ w'.store = s' ∧ w'.FaultFree := by
  induction h with
  | nil => exact ⟨w, rfl, hstore, hw⟩
  | @more calls s' s'' _ hshows i x hx ih =>
    obtain ⟨w', hcalls, rfl, hw'⟩ := ih
    obtain ⟨y, w'', hrun, hy, hw''⟩ := World.attempt_apply hw' fun e _ => hshows e.aggregateId
    obtain ⟨rfl, hstore'⟩ := hy.unique hx
    refine ⟨w'', ?_, hstore', hw''⟩
    rw [List.map_append, World.finishAll_append, hcalls]
    have hlast : World.finishAll [(apply (batches i)).run] w' = ([y], w'') := by
      have hrun' : (apply (batches i)).run.run World.surroundings w' = (y, w'') := hrun
      rw [World.finishAll, hrun']
      rfl
    simp only [List.map_singleton, hlast, List.map_append]

/-- Of the calls whose batches follow a version of a user, exactly one succeeded. -/
def OneStored (batches : ι → List Event) (id : String) (version : Nat)
    (calls : List (ι × Except Failure Applied)) : Prop :=
  ∃! i, Continues id version (batches i) ∧ ∃ a, (i, .ok a) ∈ calls

/-- It is still one when some other call was made. -/
theorem OneStored.concat {id : String} {version : Nat} (h : OneStored batches id version calls)
    {i : ι} {x : Except Failure Applied}
    (hother : ∀ a, x = .ok a → ¬ Continues id version (batches i)) :
    OneStored batches id version (calls ++ [(i, x)]) := by
  obtain ⟨j, ⟨hj, a, ha⟩, honly⟩ := h
  refine ⟨j, ⟨hj, a, List.mem_append_left _ ha⟩, ?_⟩
  rintro k ⟨hk, b, hb⟩
  rcases List.mem_append.1 hb with hb | hb
  · exact honly k ⟨hk, b, hb⟩
  · obtain ⟨rfl, hx⟩ := Prod.mk.inj (List.mem_singleton.1 hb)
    exact absurd hk (hother b hx.symm)

/-- How it stands between those whose batches follow a version of a user, when the stream has come
to its last version. -/
inductive Standing (batches : ι → List Event) (id : String) (version : Nat)
    (calls : List (ι × Except Failure Applied)) (last : Nat) : Prop where
  /-- none of them was called, and the stream still has the version -/
  | waiting (hlast : last = version) (hnone : ∀ c ∈ calls, ¬ Continues id version (batches c.1)) :
    Standing batches id version calls last
  /-- one of them succeeded, and the stream has got beyond the version -/
  | decided (hlast : version < last) (hone : OneStored batches id version calls) :
    Standing batches id version calls last

/-- A call that adds nothing to the stream: it is one of them only if it fails because another one
has succeeded. -/
theorem Standing.skip {id : String} {version last : Nat}
    (h : Standing batches id version calls last) {i : ι} {x : Except Failure Applied}
    (hx : Continues id version (batches i) → last ≠ version ∧ ∃ f, x = .error f) :
    Standing batches id version (calls ++ [(i, x)]) last := by
  cases h with
  | waiting hlast hnone =>
    refine .waiting hlast fun c hc hcontinues => ?_
    rcases List.mem_append.1 hc with hc | hc
    · exact hnone c hc hcontinues
    · obtain rfl := List.mem_singleton.1 hc
      exact (hx hcontinues).1 hlast
  | decided hlast hone =>
    refine .decided hlast (hone.concat fun a ha hcontinues => ?_)
    obtain ⟨-, f, hf⟩ := hx hcontinues
    cases ha.symm.trans hf

/-- A call that adds to the stream: it is one of them only if it is the first to succeed. -/
theorem Standing.add {id : String} {version last : Nat}
    (h : Standing batches id version calls last) {i : ι} {a : Applied}
    (hcontinues : Continues id last (batches i)) {last' : Nat} (hlt : last < last') :
    Standing batches id version (calls ++ [(i, .ok a)]) last' := by
  cases h with
  | waiting hlast hnone =>
    subst hlast
    refine .decided hlt ⟨i, ⟨hcontinues, a, by simp⟩, ?_⟩
    rintro j ⟨hj, b, hb⟩
    rcases List.mem_append.1 hb with hb | hb
    · exact absurd hj (hnone _ hb)
    · exact congrArg Prod.fst (List.mem_singleton.1 hb)
  | decided hlast hone =>
    refine .decided (Nat.lt_trans hlast hlt) (hone.concat fun _ _ hi => ?_)
    -- The version that it follows is not the one that they follow.
    exact Nat.ne_of_lt hlast (hi.unique hcontinues).2

/-- The standing between those who follow the version that a stream had in the beginning. -/
theorem standing (h : InTurn batches s calls s') {id : String} (hid : Text.isBlank id = false) :
    Standing batches id (s.lastVersion id) calls (s'.lastVersion id) := by
  induction h with
  | nil => exact .waiting rfl nofun
  | @more calls s' s'' _ _ i x hx ih =>
    cases x with
    | error f =>
      obtain rfl := hx.eq_of_error
      -- Had the stream still been where it began, the batch would have been stored.
      refine ih.skip fun hcontinues => ⟨fun hlast => ?_, f, rfl⟩
      obtain ⟨a, ha⟩ := hx.ok_of_continues hid (hlast.symm ▸ hcontinues)
      cases ha
    | ok a =>
      obtain ⟨hcontinues, hreached, hlast⟩ := hx.of_ok
      rw [hlast]
      by_cases ha : a.aggregateId = id
      · subst ha
        have hlength : 0 < (batches i).length := List.length_pos_iff.2 hcontinues.ne_nil
        rw [if_pos rfl]
        exact ih.add hcontinues (by omega)
      · rw [if_neg ha]
        exact ih.skip fun hi => absurd (hcontinues.unique hi).1 ha

end InTurn

namespace Race

variable [DecidableEq ι]

/-- What is known of a race of processes that store batches, after a schedule. -/
structure Kept (batches : ι → List Event) (s : EventStore) (schedule : List ι)
    (R : Race ι (Except Failure Applied)) : Prop where
  /-- no operation is going to fail -/
  faultFree : R.world.FaultFree
  /-- nobody has ended twice -/
  nodup : R.names.Nodup
  /-- who has ended took a turn, and is done -/
  ended : ∀ i x, (i, x) ∈ R.ended → i ∈ schedule ∧ R.processes i = .done x
  /-- the others are about to take the next one of their turns -/
  going : ∀ i, i ∉ R.names → Stage (batches i) (schedule.count i) (R.processes i)
  /-- those that have ended have stored their batches one after the other -/
  inTurn : InTurn batches s R.ended R.world.store

theorem kept_storing (batches : ι → List Event) {w : World} (hw : w.FaultFree) :
    Kept batches w.store [] (storing batches w) where
  faultFree := hw
  nodup := List.nodup_nil
  ended _ _ h := nomatch h
  going i _ := stage_apply (batches i)
  inTurn := .nil

variable {batches : ι → List Event} {s : EventStore} {schedule : List ι}
  {R : Race ι (Except Failure Applied)}

theorem count_concat_of_ne {i j : ι} (h : j ≠ i) :
    (schedule ++ [i]).count j = schedule.count j := by
  rw [List.count_append, List.count_singleton]
  simp [h.symm]

/-- A turn of somebody else, for one who has ended. -/
theorem Kept.ended_step (h : Kept batches s schedule R) {i j : ι} {x : Except Failure Applied}
    (hj : (j, x) ∈ R.ended) (hi : i ∉ R.names) :
    j ∈ schedule ++ [i] ∧ (R.step i).processes j = .done x := by
  have hne : j ≠ i := by
    rintro rfl
    exact hi (mem_names.2 ⟨x, hj⟩)
  obtain ⟨hmem, hdone⟩ := h.ended j x hj
  exact ⟨List.mem_append_left _ hmem, (R.step_of_ne hne).trans hdone⟩

/-- A turn of somebody else, for one who goes on. -/
theorem Kept.going_step (h : Kept batches s schedule R) {i j : ι} (hne : j ≠ i)
    (hj : j ∉ R.names) :
    Stage (batches j) ((schedule ++ [i]).count j) ((R.step i).processes j) := by
  rw [count_concat_of_ne hne, R.step_of_ne hne]
  exact h.going j hj

/-- A process that goes on after its turn. -/
theorem Kept.step_idle (h : Kept batches s schedule R) {i : ι} (hi : i ∉ R.names)
    {p : Calls (Except Failure Applied)} {w : World}
    (hp : Stage (batches i) (schedule.count i + 1) p) (hstore : w.store = R.world.store)
    (hw : w.FaultFree) (hadvance : World.advance (R.processes i) R.world = (p, w)) :
    Kept batches s (schedule ++ [i]) (R.step i) := by
  have hself : (R.step i).processes i = p := by rw [step_self, hadvance]
  have hworld : (R.step i).world = w := by rw [step, hadvance]
  have hended : (R.step i).ended = R.ended := by
    obtain ⟨r, k, rfl⟩ := hp.eq_call
    exact ended_of_call hadvance
  have hnames : (R.step i).names = R.names := congrArg (List.map Prod.fst) hended
  refine ⟨hworld ▸ hw, hnames ▸ h.nodup, fun j x hj => ?_, fun j hj => ?_, ?_⟩
  · rw [hended] at hj
    exact h.ended_step hj hi
  · rw [hnames] at hj
    by_cases hij : j = i
    · rw [hij, hself, List.count_append, List.count_singleton_self]
      exact hp
    · exact h.going_step hij hj
  · rw [hended, hworld, hstore]
    exact h.inTurn

/-- A process that ends with its turn. -/
theorem Kept.step_last (h : Kept batches s schedule R) {i : ι} (hi : i ∉ R.names)
    (hshows : ∀ id, R.world.store.Shows id) {x : Except Failure Applied} {w : World}
    (hx : AtOnce R.world.store (batches i) x w.store) (hw : w.FaultFree)
    (hadvance : World.advance (R.processes i) R.world = (.done x, w)) :
    Kept batches s (schedule ++ [i]) (R.step i) := by
  have hself : (R.step i).processes i = .done x := by rw [step_self, hadvance]
  have hworld : (R.step i).world = w := by rw [step, hadvance]
  have hended : (R.step i).ended = R.ended ++ [(i, x)] := ended_of_done hadvance hi
  have hnames : (R.step i).names = R.names ++ [i] := by rw [names, hended, List.map_append]; rfl
  refine ⟨hworld ▸ hw, ?_, fun j y hj => ?_, fun j hj => ?_, ?_⟩
  · rw [hnames, ← List.concat_eq_append]
    exact List.Nodup.concat hi h.nodup
  · rw [hended] at hj
    rcases List.mem_append.1 hj with hj | hj
    · exact h.ended_step hj hi
    · obtain ⟨rfl, rfl⟩ := Prod.mk.inj (List.mem_singleton.1 hj)
      exact ⟨List.mem_append_right _ (List.mem_singleton_self _), hself⟩
  · rw [hnames, List.mem_append, not_or] at hj
    exact h.going_step (fun heq => hj.2 (List.mem_singleton.2 heq)) hj.1
  · rw [hended, hworld]
    exact h.inTurn.more hshows hx

/-- What is known is kept by every turn. -/
theorem Kept.step (h : Kept batches s schedule R) (hshows : ∀ id, R.world.store.Shows id) (i : ι) :
    Kept batches s (schedule ++ [i]) (R.step i) := by
  by_cases hi : i ∈ R.names
  · obtain ⟨x, hx⟩ := mem_names.1 hi
    have hsame : R.step i = R := step_of_mem (h.ended i x hx).2 hi
    have hgoing : ∀ j, j ∉ R.names →
        Stage (batches j) ((schedule ++ [i]).count j) ((R.step i).processes j) :=
      fun j hj => h.going_step (fun heq => hj (heq ▸ hi)) hj
    rw [hsame] at hgoing ⊢
    refine ⟨h.faultFree, h.nodup, fun j y hj => ?_, hgoing, h.inTurn⟩
    exact ⟨List.mem_append_left _ (h.ended j y hj).1, (h.ended j y hj).2⟩
  · have hturn := (h.going i hi).advance h.faultFree fun e _ => hshows e.aggregateId
    rcases hadvance : World.advance (R.processes i) R.world with ⟨p, w⟩
    rw [hadvance] at hturn
    cases hturn with
    | idle hp hstore hw => exact h.step_idle hi hp hstore hw hadvance
    | last hx hw => exact h.step_last hi hshows hx hw hadvance

/-- Who came to a result with a turn has ended. -/
theorem Kept.mem_ended (h : Kept batches s schedule R) {i : ι} {x : Except Failure Applied}
    (hi : i ∈ schedule) (hx : R.processes i = .done x) : (i, x) ∈ R.ended := by
  by_cases hmem : i ∈ R.names
  · obtain ⟨y, hy⟩ := mem_names.1 hmem
    have hsame : Calls.done y = .done x := (h.ended i y hy).2.symm.trans hx
    exact Calls.done.inj hsame ▸ hy
  · -- After a turn something would be left to ask for.
    have hstage := h.going i hmem
    obtain ⟨turns, hturns⟩ : ∃ turns, schedule.count i = turns + 1 :=
      Nat.exists_eq_add_one.2 (List.count_pos_iff.2 hi)
    rw [hturns] at hstage
    obtain ⟨r, k, hcall⟩ := hstage.eq_call
    cases hcall.symm.trans hx

theorem Kept.ends (h : Kept batches s schedule R) {i : ι} (hi : 2 ≤ schedule.count i) :
    i ∈ R.names := by
  by_contra hmem
  have hturns := (h.going i hmem).turns_le
  omega

/-- If one of those who follow a version has ended, then one of them has succeeded. -/
theorem Kept.oneStored (h : Kept batches s schedule R) {id : String}
    (hid : Text.isBlank id = false)
    (hsome : ∃ i ∈ R.names, Continues id (s.lastVersion id) (batches i)) :
    InTurn.OneStored batches id (s.lastVersion id) R.ended := by
  obtain ⟨i, hi, hcontinues⟩ := hsome
  cases h.inTurn.standing hid with
  | waiting _ hnone =>
    obtain ⟨x, hx⟩ := mem_names.1 hi
    exact absurd hcontinues (hnone _ hx)
  | decided _ hone => exact hone

/-- What is known of a race after any schedule, as long as every history can be replayed. -/
theorem kept_run (batches : ι → List Event) {w : World} (hw : w.FaultFree)
    (hs : w.store.Reachable) (schedule : List ι)
    (hreplays : ∀ before, before <+: schedule →
      ((storing batches w).run before).world.store.Replays) :
    Kept batches w.store schedule ((storing batches w).run schedule) := by
  induction schedule using List.reverseRecOn with
  | nil => exact kept_storing batches hw
  | append_singleton schedule i ih =>
    -- The turn needs histories that can be replayed in the state before it, not in the one after.
    have hprefix : schedule <+: schedule ++ [i] := List.prefix_append _ _
    have hbefore := ih fun before hle => hreplays before (hle.trans hprefix)
    have hascending := (hbefore.inTurn.reachable hs).ascending
    rw [run_append]
    exact hbefore.step (fun id => (hreplays schedule hprefix).shows hascending id) i

/-- The calls of a race that have ended might as well have been made one at a time, in the order in
which they ended. -/
structure Linearized (batches : ι → List Event) (w : World) (schedule : List ι)
    (R : Race ι (Except Failure Applied)) : Prop where
  /-- no call has ended twice -/
  nodup : R.names.Nodup
  /-- a call has ended with a result when it took a turn and came to the result -/
  ended_iff : ∀ i x, (i, x) ∈ R.ended ↔ i ∈ schedule ∧ R.processes i = .done x
  /-- a call that took two turns has ended -/
  ends : ∀ i, 2 ≤ schedule.count i → i ∈ R.names
  /-- what had ended at an earlier time stands first -/
  in_order : ∀ before, before <+: schedule → ((storing batches w).run before).ended <+: R.ended
  /-- made one at a time in this order, the calls come to the same and leave the same store -/
  alone : ∃ w', World.finishAll (R.names.map fun i => (apply (batches i)).run) w =
    (R.ended.map Prod.snd, w') ∧ w'.store = R.world.store
  /-- a batch that failed has left no row, and one that was stored is there once and in one piece -/
  stream_eq : ∀ id, R.world.store.stream id =
    w.store.stream id ++ R.ended.flatMap fun c => rows id (batches c.1) c.2
  /-- of those who followed the version that a stream had in the beginning, exactly one has
  succeeded, as soon as one has ended -/
  one_stored : ∀ id, Text.isBlank id = false →
    (∃ i ∈ R.names, Continues id (w.store.lastVersion id) (batches i)) →
      ∃! i, Continues id (w.store.lastVersion id) (batches i) ∧ ∃ a, (i, .ok a) ∈ R.ended

end Race

/-- The world with a store, in which no operation is going to fail. -/
def World.withStore (w : World) (s : EventStore) : World :=
  { w with store := s, faults := fun _ => [] }

/-- **Storing is linearizable.** Any calls that store batches are made side by side and take their
turns in any order, over any store that can come about, and the operations do not fail. As long as
every history that arises can be replayed, the calls that have ended might as well have been made
one at a time, in the order in which they ended. -/
theorem apply_linearizable [DecidableEq ι] (batches : ι → List Event) (schedule : List ι)
    {s : EventStore} (hs : s.Reachable) (w : World)
    (hreplays : ∀ before, before <+: schedule →
      ((Race.storing batches (w.withStore s)).run before).world.store.Replays) :
    Race.Linearized batches (w.withStore s) schedule
      ((Race.storing batches (w.withStore s)).run schedule) := by
  have h := Race.kept_run batches (fun _ => rfl) hs schedule hreplays
  refine ⟨h.nodup, fun i x => ?_, fun i => h.ends, ?_, ?_, h.inTurn.stream_eq,
    fun id => h.oneStored⟩
  · exact ⟨h.ended i x, fun hi => h.mem_ended hi.1 hi.2⟩
  · rintro before ⟨later, rfl⟩
    rw [Race.run_append]
    exact Race.ended_run _ later
  · obtain ⟨w', hcalls, hstore, -⟩ := h.inTurn.finishAll_eq (w := w.withStore s) (fun _ => rfl) rfl
    rw [Race.names, List.map_map]
    exact ⟨w', hcalls, hstore⟩

/-- Two who give the same user points for the first time. -/
def twoGains (second : Bool) : List Event :=
  [.ofChange "kim" 1 (.pointsEarned (if second then 7 else 5)) (Supply.standard.time 0)]

/-- Both load the empty history, and the second saves before the first does. -/
def overtaking : List Bool :=
  [false, true, true, false]

/-- A store with events of one user. -/
theorem replays_holding (id : String) {es : List Event} (hids : ∀ e ∈ es, e.aggregateId = id)
    (hes : Gapless es) (hreplays : (User.ofHistory id es).isOk = true) :
    (EventStore.holding es).Replays := by
  intro other
  by_cases hid : id = other
  · have hall : ofUser other es = es := ofUser_of_forall fun e he => (hids e he).trans hid
    have hload := @EventStore.load_holding es other (hall.symm ▸ hes)
    rw [hall] at hload
    subst hid
    cases hu : User.ofHistory id es with
    | ok u => exact ⟨es, u, hload, hu⟩
    | error f =>
      rw [hu] at hreplays
      cases hreplays
  · have hnone : ofUser other es = [] := ofUser_of_ne hid hids
    have hload := @EventStore.load_holding es other (hnone.symm ▸ gapless_nil)
    rw [hnone] at hload
    exact ⟨[], User.new other, hload, User.ofHistory_nil other⟩

/-- The second is stored, and the first finds that it does not follow any more. -/
theorem overtaking_linearizable :
    (EventStore.ofRecords []).Reachable ∧
      (∀ before, before <+: overtaking →
        ((Race.storing twoGains (World.withStore {} (.ofRecords []))).run
          before).world.store.Replays) ∧
      let R := (Race.storing twoGains (World.withStore {} (.ofRecords []))).run overtaking
      R.ended = [(true, .ok ⟨"kim", 1⟩), (false, .error (.conflict "kim" 2 1))] ∧
        Race.Linearized twoGains (World.withStore {} (.ofRecords [])) overtaking R := by
  have hstores : ∀ before ∈ overtaking.inits,
      let R := (Race.storing twoGains (World.withStore {} (.ofRecords []))).run before
      R.world.store = .holding [] ∨ R.world.store = .holding (twoGains true) := by
    decide +kernel
  have hreplays : ∀ before, before <+: overtaking →
      ((Race.storing twoGains (World.withStore {} (.ofRecords []))).run
        before).world.store.Replays := by
    intro before hle
    rcases hstores before ((List.mem_inits _ _).2 hle) with hstore | hstore
    · rw [hstore]
      exact replays_holding "kim" (by simp) gapless_nil (by decide +kernel)
    · rw [hstore]
      exact replays_holding "kim" (by simp [twoGains, Event.ofChange]) rfl (by decide +kernel)
  exact ⟨.seeded [], hreplays, by decide +kernel,
    apply_linearizable twoGains overtaking (.seeded []) {} hreplays⟩

end Loyalty.Simulation
