import Loyalty.Delivery.Handler
import Loyalty.Event.History

/-!
# Projection

The projection keeps the read model in step with the events. Every event amounts to one write.
Before an event is projected, the version of the profile tells whether it is the next: what the
profile has taken in already is passed over, and an event that comes too early fails.

To catch up on a user, all events beyond the version of the profile are projected.
-/

namespace Loyalty.Projection

/-- The write that a change at the given time and version amounts to. -/
def writeOf (id : String) (version : Nat) (eventAt : Time.Timestamp) : Change → Write
  | .created s =>
    .createUser {
      userId := id
      username := s.username
      email := s.email
      points := 0
      referralCode := s.referralCode
      referredByCode := s.referredByCode
      referrals := []
      version := version
      createdAt := eventAt
      updatedAt := eventAt
      deletedAt := none }
  | .deleted deletedAt => .amend id (.delete deletedAt) version
  | .referralCreated i =>
    .amend id
      (.addReferral
        ⟨i.referralId, i.referralCode, i.referredUserEmail, i.status, eventAt, eventAt⟩)
      version
  | .referralCompleted referralId => .amend id (.setReferralStatus referralId .completed) version
  | .pointsEarned n => .amend id (.addPoints n) version

/-- The version of a user's profile, 0 when there is none. -/
def projectedVersion (id : String) : Attempt Nat :=
  .orAbsent 0 do
    let p ← Attempt.user id
    pure p.version

/-- Writes an event into the read model. -/
def project (e : Event) : Attempt Unit := do
  let change ← Attempt.ofExcept e.decode
  Attempt.write (writeOf e.aggregateId e.version e.eventAt change)

/-- Takes in an event if it is the next. -/
def handle (e : Event) : Attempt Unit := do
  let current ← projectedVersion e.aggregateId
  if e.version ≤ current then
    pure ()
  else if e.version = current + 1 then
    project e
  else
    throw (.outOfOrder e.aggregateId current e.version)

/-- Writes events into the read model, up to the first that fails. -/
def projectAll : List Event → Attempt Unit
  | [] => pure ()
  | e :: es => do
    project e
    projectAll es

/-- Takes in all events of a user that the profile lacks. -/
def sync (id : String) : Attempt Unit := do
  let current ← projectedVersion id
  let missing ← Attempt.loadAfter id current
  projectAll (History.sorted missing)

/-- The projection as a handler of all events. -/
def handler : EventHandler where
  name := "user-projector"
  types := EventType.all
  handle e := .ofAttempt (handle e)
  sync id := .ofAttempt (sync id)

end Loyalty.Projection
