import Loyalty.Process.Calls
import Loyalty.User.Replay

/-!
# Loading users and storing what happened to them

A user is loaded by replaying the whole history; a user without a history is not there.

Before new events are saved, the version of the user is looked up and the first new event must
follow it. Nothing keeps others from saving in between. Then the store finds that the events do
not continue the stream, and refuses them.
-/

namespace Loyalty.Repository

/-- Loads a user. -/
def load (id : String) : Attempt User := do
  let history ← Attempt.load id
  if history.isEmpty then throw (.notFound id)
  else Attempt.ofExcept (User.ofHistory id history)

/-- The version of a user, 0 when there is no such user yet. -/
def currentVersion (id : String) : Attempt Nat :=
  .orAbsent 0 do
    let u ← load id
    pure u.version

/-- What came of storing events: whose they are, and the version that was reached. -/
structure Applied where
  /-- the user -/
  aggregateId : String
  /-- the version of the last event stored -/
  version : Nat
  deriving DecidableEq, Repr

/-- Stores a batch of new events of one user, in ascending order of version. -/
def apply (events : List Event) : Attempt Applied :=
  match History.sorted events with
  | [] => throw (.validation "cannot apply an empty event batch")
  | e :: es => do
    let id := e.aggregateId
    if Text.isBlank id then
      throw .blankId
    match es.find? fun x => x.aggregateId ≠ id with
    | some stray =>
      throw (.validation
        ("event batch for " ++ id ++ " contains an event for " ++ stray.aggregateId))
    | none =>
      let current ← currentVersion id
      if e.version = current + 1 then
        Attempt.save (e :: es)
        pure ⟨id, History.lastVersion (e :: es)⟩
      else
        throw (.conflict id (current + 1) e.version)

end Loyalty.Repository
