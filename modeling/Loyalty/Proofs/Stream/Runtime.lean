import Loyalty.Proofs.Process.Schedule
import Loyalty.Proofs.Simulation.Alone
import Loyalty.Proofs.Stream.Commit

/-!
# The stored streams of the running program

The program as it is wired, over an event store that is empty in the beginning. Commands may be
dispatched at any time and in any number; what they do, with all the commands that are given
within, may be interleaved in any way; and any operation of the store and of the read model may
fail at any time, each time before it does anything. Among these runs are those in which commands
are dispatched one after the other and each is carried out in the order of the schedule.

Main statements: in every state that can be reached every stream is well-formed, and a stream with
a deletion never grows again; a user with a stream can be loaded exactly when the points of the
stream add up to an amount of points. No rule looks at the balance, so the second is not always so.
-/

namespace Loyalty.Runtime

open History Simulation

/-- The program over an empty event store, after a list of moves that start with nothing going on.
Whatever else there is in the world may be in any state. -/
def reached (policy : RetryPolicy) (w : World) (moves : List (Move Command)) : Pool World :=
  (Pool.empty { w with store := .empty }).run World.surroundings (Wiring.standard policy).dispatch
    moves

theorem reached_append (policy : RetryPolicy) (w : World) (moves more : List (Move Command)) :
    reached policy w (moves ++ more) =
      (reached policy w moves).run World.surroundings (Wiring.standard policy).dispatch more :=
  List.foldl_append

/-- The history of a user, in a state that was reached. -/
def history (P : Pool World) (id : String) : List Event :=
  ofUser id P.log.saved

/-- Commands are dispatched one after the other, each when the one before it has ended. -/
def performed (policy : RetryPolicy) (cs : List Command) (w : World) : World :=
  cs.foldl (fun w c => (World.perform ((Wiring.standard policy).dispatch c) w).2) w

/-- A command that is dispatched in a pool, and carried out in the order of the schedule while nobody
else goes on, is one of the ways in which the pool may go on. -/
theorem perform_run (policy : RetryPolicy) (P : Pool World) (c : Command) :
    ∃ more, (P.run World.surroundings (Wiring.standard policy).dispatch more).state =
      (World.perform ((Wiring.standard policy).dispatch c) P.state).2 := by
  have hmember : (P.step World.surroundings (Wiring.standard policy).dispatch (.start c)).members[
      P.members.length]? = some ((Wiring.standard policy).dispatch c) :=
    List.getElem?_concat_length
  obtain ⟨more, -, hstate⟩ := Pool.reaches_run hmember
    (Activity.family_uncrowded.wiring_dispatch policy c)
  exact ⟨.start c :: more, hstate⟩

section

variable (policy : RetryPolicy) (w : World) (moves : List (Move Command))

/-- A command that is dispatched in a state that can be reached, and carried out in the order of
the schedule, leads to a state that can be reached. -/
theorem perform_reached (c : Command) :
    ∃ more, (reached policy w (moves ++ more)).state =
      (World.perform ((Wiring.standard policy).dispatch c) (reached policy w moves).state).2 := by
  obtain ⟨more, hmore⟩ := perform_run policy (reached policy w moves) c
  exact ⟨more, by rw [reached_append, hmore]⟩

/-- So does any sequence of commands. -/
theorem performed_reached (cs : List Command) :
    ∃ more, (reached policy w (moves ++ more)).state =
      performed policy cs (reached policy w moves).state := by
  induction cs generalizing moves with
  | nil => exact ⟨[], by rw [List.append_nil]; rfl⟩
  | cons c cs ih =>
    obtain ⟨first, hfirst⟩ := perform_reached policy w moves c
    obtain ⟨rest, hrest⟩ := ih (moves ++ first)
    refine ⟨first ++ rest, ?_⟩
    rw [← List.append_assoc, hrest, hfirst]
    rfl

theorem store_reached :
    (reached policy w moves).state.store = .holding (reached policy w moves).log.saved ∧
      (reached policy w moves).log.Decided :=
  Pool.run_decided (family_savesDecisions.wiring_dispatch policy) rfl moves

theorem stream_reached (id : String) :
    (reached policy w moves).state.store.stream id =
      (history (reached policy w moves) id).map Event.toRecord := by
  rw [(store_reached policy w moves).1, EventStore.stream_holding]
  rfl

theorem grown_reached (id : String) : Grown id (history (reached policy w moves) id) :=
  (store_reached policy w moves).2.grown id

theorem history_append (more : List (Move Command)) (id : String) :
    ∃ later, history (reached policy w (moves ++ more)) id =
      history (reached policy w moves) id ++ later := by
  obtain ⟨log, hlog⟩ := Pool.log_run World.surroundings (Wiring.standard policy).dispatch
    (reached policy w moves) more
  refine ⟨ofUser id (Log.saved log), ?_⟩
  rw [history, history, reached_append, ← hlog, Log.saved_append, ofUser_append]

end

/-- **Streams are well-formed.** In every state that can be reached every stream holds the records
of a well-formed history. Whatever happens further, the history is only added to, and when it holds
a deletion it stays as it is. -/
theorem streams_wellFormed (policy : RetryPolicy) (w : World)
    (moves more : List (Move Command)) (id : String) :
    ∃ es later,
      (reached policy w moves).state.store.stream id = es.map Event.toRecord ∧
      (reached policy w (moves ++ more)).state.store.stream id =
        (es ++ later).map Event.toRecord ∧
      WellFormed id es ∧ ((∃ e ∈ es, e.type = .userDeleted) → later = []) := by
  obtain ⟨later, hlater⟩ := history_append policy w moves more id
  have hgrown := grown_reached policy w (moves ++ more) id
  refine ⟨history (reached policy w moves) id, later, stream_reached policy w moves id, ?_,
    (grown_reached policy w moves id).wellFormed, ?_⟩
  · rw [stream_reached, hlater]
  · rintro ⟨e, he, htype⟩
    obtain ⟨before, after, hes⟩ := List.append_of_mem he
    rw [hlater, hes, List.append_assoc, List.cons_append] at hgrown
    -- In the longer history the deletion is the last event, too.
    have hafter : after ++ later = [] :=
      hgrown.wellFormed.deleted_last before e (after ++ later) rfl htype
    exact (List.append_eq_nil_iff.1 hafter).2

/-- **When a user can be loaded.** In every state that can be reached, and with a store that does
not fail, a user is loaded exactly when there is a stream and its points add up to an amount of
points. -/
theorem load_succeeds_iff (policy : RetryPolicy) (w : World) (moves : List (Move Command))
    (id : String) :
    ∃ es, (reached policy w moves).state.store.stream id = es.map Event.toRecord ∧
      ((∃ u, (World.attempt (Repository.load id)
          (reached policy w moves).state.untroubled).1 = .ok u) ↔
        es ≠ [] ∧ points es < Text.word32) := by
  refine ⟨history (reached policy w moves) id, stream_reached policy w moves id, ?_⟩
  have hgrown : Grown id (history (reached policy w moves) id) := grown_reached policy w moves id
  have hstore : (reached policy w moves).state.untroubled.store =
      .holding (reached policy w moves).log.saved := (store_reached policy w moves).1
  rw [World.attempt_load rfl hstore hgrown.gapless, ← hgrown.replays_iff]
  by_cases hnil : history (reached policy w moves) id = []
  · rw [history] at hnil
    rw [if_pos hnil]
    constructor
    · rintro ⟨u, hu⟩
      cases hu
    · rintro ⟨hne, -⟩
      exact absurd hnil hne
  · rw [history] at hnil
    rw [if_neg hnil]
    exact ⟨fun h => ⟨hnil, h⟩, fun h => h.2⟩

end Loyalty.Runtime
