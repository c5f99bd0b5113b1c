import Loyalty.Proofs.Simulation.Alone
import Loyalty.Proofs.User.Storing

/-!
# Storing, turn by turn

A process that stores a batch takes a turn to load the history and a turn to save. `Stage` says
what it is about to do after so many turns. Whatever others did before its turn, the turn is either
idle for the store, or it is the one with which the process ends; and then the process has come to
what it would have come to at one go, on the store as it is at this turn. For where loading finds
that the batch does not follow, the store would have refused it in the same words.

Main statements: what a turn does; a process that runs alone stores its batch at one go.
-/

namespace Loyalty.Simulation

open History Repository

/-- No operation is going to fail. -/
def World.FaultFree (w : World) : Prop :=
  ∀ op, w.faults op = []

/-- What a process that stores a batch is about to do after a number of turns. -/
inductive Stage (batch : List Event) : Nat → Calls (Except Failure Applied) → Prop where
  /-- the batch is going to be refused -/
  | refused {f : Failure} (h : batchFault? (sorted batch) = some f) :
    Stage batch 0 (.done (.error f))
  /-- the history is going to be loaded -/
  | loading {e : Event} {es : List Event} (hbatch : sorted batch = e :: es)
    (hsound : batchFault? (e :: es) = none) :
    Stage batch 0 (.call (.load e.aggregateId) (conclusion e es))
  /-- the batch is going to be saved -/
  | saving {e : Event} {es : List Event} (hbatch : sorted batch = e :: es)
    (hsound : batchFault? (e :: es) = none) :
    Stage batch 1 (.call (.save (e :: es)) fun x =>
      .done (x.map fun _ => ⟨e.aggregateId, lastVersion (e :: es)⟩))

/-- In the beginning. -/
theorem stage_apply (batch : List Event) : Stage batch 0 (apply batch).run := by
  cases hfault : batchFault? (sorted batch) with
  | some f =>
    rw [run_apply_of_fault hfault]
    exact .refused hfault
  | none =>
    cases hbatch : sorted batch with
    | nil =>
      rw [hbatch] at hfault
      cases hfault
    | cons e es =>
      rw [hbatch] at hfault
      rw [run_apply hbatch hfault]
      exact .loading hbatch hfault

/-- After a turn something is left to ask for. -/
theorem Stage.eq_call {batch : List Event} {turns : Nat} {p : Calls (Except Failure Applied)}
    (hp : Stage batch (turns + 1) p) : ∃ r k, p = .call r k := by
  cases hp with
  | saving => exact ⟨_, _, rfl⟩

/-- After two turns there is nothing left to do. -/
theorem Stage.turns_le {batch : List Event} {turns : Nat} {p : Calls (Except Failure Applied)}
    (hp : Stage batch turns p) : turns ≤ 1 := by
  cases hp with
  | refused | loading => exact Nat.zero_le 1
  | saving => exact Nat.le_refl 1

/-- What a turn did: nothing to the store, or all that storing at one go does. -/
inductive Turn (batch : List Event) (turns : Nat) (w : World) :
    Calls (Except Failure Applied) × World → Prop where
  /-- the process goes on -/
  | idle {p : Calls (Except Failure Applied)} {w' : World} (hp : Stage batch turns p)
    (hstore : w'.store = w.store) (hw : w'.FaultFree) : Turn batch turns w (p, w')
  /-- the process has ended -/
  | last {x : Except Failure Applied} {w' : World} (hx : AtOnce w.store batch x w'.store)
    (hw : w'.FaultFree) : Turn batch turns w (.done x, w')

/-- The turn in which the history is loaded. -/
theorem turn_loading {batch es : List Event} {e : Event} (hbatch : sorted batch = e :: es)
    (hsound : batchFault? (e :: es) = none) {w : World} (hw : w.FaultFree)
    (hshows : w.store.Shows e.aggregateId) :
    Turn batch 1 w
      (World.advance (.call (.load e.aggregateId) (conclusion e es)) w) := by
  have hload : w.answer (.load e.aggregateId) = (w.store.load e.aggregateId, w) :=
    World.gated_of_no_fault (hw _) _
  rw [World.advance, hload, conclusion, hshows]
  simp only
  split
  · exact .idle (.saving hbatch hsound) rfl hw
  · next hversion =>
    -- The store would say the same.
    have hids := (batchFault?_eq_none_iff.1 hsound).2
    exact .last (.conflict hbatch hsound (EventStore.save_of_ne hids hversion)) hw

/-- The turn in which the batch is saved. -/
theorem turn_saving {batch es : List Event} {e : Event} (hbatch : sorted batch = e :: es)
    (hsound : batchFault? (e :: es) = none) (turns : Nat) {w : World} (hw : w.FaultFree) :
    Turn batch turns w
      (World.advance (.call (.save (e :: es)) fun x =>
        .done (x.map fun _ => ⟨e.aggregateId, lastVersion (e :: es)⟩)) w) := by
  have hsave : w.answer (.save (e :: es)) = _ := World.save_of_no_fault (hw _) (e :: es)
  rw [World.advance, hsave]
  cases hs : w.store.save (e :: es) with
  | error f => exact .last (.conflict hbatch hsound hs) hw
  | ok s' => exact .last (.stored hbatch hsound hs) hw

/-- **What a turn does.** -/
theorem Stage.advance {batch : List Event} {turns : Nat} {p : Calls (Except Failure Applied)}
    (hp : Stage batch turns p) {w : World} (hw : w.FaultFree)
    (hshows : ∀ e ∈ batch, w.store.Shows e.aggregateId) :
    Turn batch (turns + 1) w (World.advance p w) := by
  cases hp with
  | refused h => exact .last (.refused h) hw
  | @loading e es hbatch hsound =>
    have hmem : e ∈ batch :=
      (sorted_perm batch).mem_iff.1 (hbatch ▸ List.mem_cons_self)
    exact turn_loading hbatch hsound hw (hshows e hmem)
  | saving hbatch hsound => exact turn_saving hbatch hsound 2 hw

/-- Running a process is giving it a turn and running what is left. -/
theorem World.run_eq_advance {α : Type} (p : Calls α) (w : World) :
    p.run surroundings w = (advance p w).1.run surroundings (advance p w).2 := by
  cases p with
  | done a => rfl
  | call r k => rfl

/-- A process that runs alone stores its batch at one go. -/
theorem World.attempt_apply {w : World} (hw : w.FaultFree) {batch : List Event}
    (hshows : ∀ e ∈ batch, w.store.Shows e.aggregateId) :
    ∃ x w', attempt (apply batch) w = (x, w') ∧ AtOnce w.store batch x w'.store ∧
      w'.FaultFree := by
  rw [attempt, run_eq_advance]
  rcases hfirst : advance (apply batch).run w with ⟨p, w'⟩
  have hturn := (stage_apply batch).advance hw hshows
  rw [hfirst] at hturn
  cases hturn with
  | last hx hw' => exact ⟨_, w', rfl, hx, hw'⟩
  | idle hp hstore hw' =>
    simp only
    rw [run_eq_advance]
    rcases hsecond : advance p w' with ⟨q, w''⟩
    have hturn := hp.advance hw' (hstore ▸ hshows)
    rw [hsecond] at hturn
    cases hturn with
    | last hx hw'' => exact ⟨_, w'', rfl, hstore ▸ hx, hw''⟩
    | idle hq => cases hq

/-- Storing an event that continues the history of its user. -/
theorem World.attempt_apply_singleton {w : World} (hw : w.FaultFree) {es : List Event}
    (hstore : w.store = .holding es) {e : Event} (hes : ∀ id, Gapless (ofUser id es))
    (hreplays : ofUser e.aggregateId es ≠ [] →
      ∃ u, User.ofHistory e.aggregateId (ofUser e.aggregateId es) = .ok u)
    (hsound : batchFault? [e] = none)
    (hversion : e.version = (ofUser e.aggregateId es).length + 1) :
    ∃ applied w', attempt (apply [e]) w = (.ok applied, w') ∧ w'.store = .holding (es ++ [e]) := by
  have hsorted : sorted [e] = [e] := sorted_eq_self (List.pairwise_singleton _ e)
  have hshows : w.store.Shows e.aggregateId := by
    rw [EventStore.Shows, hstore, EventStore.load_holding (hes _),
      EventStore.lastVersion_holding (hes _)]
    exact shownVersion_eq (hes _) hreplays
  have hsave : w.store.save [e] = .ok (.holding (es ++ [e])) := by
    rw [hstore]
    refine EventStore.save_eq_ok_iff.2 ⟨by simp, ?_, EventStore.holding_append es [e]⟩
    rw [EventStore.lastVersion_holding (hes _), List.map_singleton, hversion]
    rfl
  obtain ⟨x, w', hrun, hx, -⟩ := @attempt_apply w hw [e] (by simpa using hshows)
  obtain ⟨rfl, hstore'⟩ := hx.unique (.stored hsorted hsound hsave)
  exact ⟨_, w', hrun, hstore'⟩

end Loyalty.Simulation
