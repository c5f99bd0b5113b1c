import Loyalty.EventStore

/-!
# A store that is written in place

`EventStore.save` makes a new store and leaves the old one alone. Here the same is done to a store
that is kept in one place. What was done before a save failed stays, so all checks come first: the
stream of the batch is not begun before it is sure that the batch follows it.
-/

namespace Loyalty.EventStore.InPlace

/-- Something that is done to a store in place. When it fails, what was done until then stays. -/
abbrev Work : Type := EStateM Failure EventStore Unit

/-- Saves a batch of events. -/
def save : List Event → Work
  | [] => throw (.store "cannot save an empty batch")
  | e :: es => do
    if es.any fun x => x.aggregateId ≠ e.aggregateId then
      throw (.store ("batch for " ++ e.aggregateId ++ " contains events of other aggregates"))
    else
      let s ← get
      match checkVersions e.aggregateId (s.lastVersion e.aggregateId) (e :: es) with
      | .error f => throw f
      | .ok () =>
        modify fun s => s.entry e.aggregateId
        modify fun s => s.adding ((e :: es).map Event.toRecord)

/-- **In place it comes to the same.** A save that fails has done nothing to the store. -/
theorem run_save (s : EventStore) (es : List Event) :
    (save es).run s = match s.save es with
      | .ok s' => .ok () s'
      | .error f => .error f s := by
  cases es with
  | nil => rfl
  | cons e es =>
    rw [save, EventStore.save]
    by_cases hstray : es.any fun x => x.aggregateId ≠ e.aggregateId
    · rw [if_pos hstray, if_pos hstray]
      rfl
    · rw [if_neg hstray, if_neg hstray]
      simp only [EStateM.run_bind, EStateM.run_get]
      cases checkVersions e.aggregateId (s.lastVersion e.aggregateId) (e :: es) with
      | error f => rfl
      | ok =>
        simp only [EStateM.run_bind, EStateM.run_modify]
        exact congrArg _ (adding_entry s e.toRecord (es.map Event.toRecord))

end Loyalty.EventStore.InPlace
