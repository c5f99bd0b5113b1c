import Loyalty.Proofs.Simulation.Truth
import Loyalty.Proofs.User.Repository

/-!
# Attempts that run alone

What an attempt comes to when nobody interferes and the operations do not fail. An attempt after
another one goes on in the world that the other one left.

Main statement: loading a user is replaying the history that the store holds.
-/

namespace Loyalty.Simulation.World

open History

/-- An attempt after another one. -/
theorem attempt_bind {α β : Type} (m : Attempt α) (g : α → Attempt β) (w : World) :
    attempt (m >>= g) w =
      match attempt m w with
      | (.ok a, w') => attempt (g a) w'
      | (.error f, w') => (.error f, w') := by
  rw [attempt, attempt, Attempt.run_bind, Calls.run_bind]
  obtain ⟨x, w'⟩ := Calls.run surroundings m.run w
  cases x with
  | ok a => rfl
  | error f => rfl

theorem attempt_bind_of_ok {α β : Type} {m : Attempt α} {g : α → Attempt β} {w w' : World} {a : α}
    (h : attempt m w = (.ok a, w')) : attempt (m >>= g) w = attempt (g a) w' := by
  rw [attempt_bind, h]

/-- The world in which no operation is going to fail. -/
def untroubled (w : World) : World :=
  { w with faults := fun _ => [] }

theorem gated_of_no_fault {α : Type} {op : Operation} {w : World} (h : w.faults op = [])
    (perform : World → Except Failure α × World) : gated op perform w = perform w := by
  rw [gated, fault, h]

/-- Where saving cannot fail it is the store that decides. -/
theorem save_of_no_fault {w : World} (h : w.faults .save = []) (es : List Event) :
    w.save es = match w.store.save es with
      | .error f => (.error f, w.note (.saving es))
      | .ok s => (.ok (), ({ w.note (.saving es) with store := s } : World).note (.saved es)) := by
  have hnoted : (w.note (.saving es)).faults .save = [] := h
  rw [save, gated_of_no_fault hnoted, saveInStore_eq]
  rfl

/-- A gapless history as the store gives it. -/
theorem load_eq {w : World} (hw : w.faults .load = []) {es : List Event}
    (hstore : w.store = .holding es) {id : String} (hes : Gapless (ofUser id es)) :
    w.load id = (.ok (ofUser id es), w) := by
  rw [load, gated_of_no_fault hw, hstore, EventStore.load_holding hes]

/-- Loading a user. -/
theorem attempt_load {w : World} (hw : w.faults .load = []) {es : List Event}
    (hstore : w.store = .holding es) {id : String} (hes : Gapless (ofUser id es)) :
    attempt (Repository.load id) w =
      (if ofUser id es = [] then .error (.notFound id) else User.ofHistory id (ofUser id es), w) := by
  have hload : attempt (Attempt.load id) w = (.ok (ofUser id es), w) := load_eq hw hstore hes
  rw [Repository.load, attempt_bind_of_ok hload]
  cases ofUser id es with
  | nil => rfl
  | cons e rest => rfl

end Loyalty.Simulation.World
