import Loyalty.User.Replay

/-!
# Users that are changed in place

`User.applyEvent` makes a new user and leaves the old one alone. Here the same is done to a user who
is kept in one place, by writing into one field after the other. Such a user shows whatever was
written before a step failed, so a change must not write anything before it is sure to succeed: the
referral to be completed is looked up first, and points are added up before the sum is written.
-/

namespace Loyalty.InPlace

open Time

/-- Something that is done to a user in place. When it fails, what was written until then stays. -/
abbrev Work : Type := EStateM Failure User Unit

/-- Makes a change, of which the event tells. -/
def change (e : Event) : Change → Work
  | .created s => do
    modify fun u => { u with username := s.username }
    modify fun u => { u with email := s.email }
    modify fun u => { u with referralCode := some s.referralCode }
    modify fun u => { u with referredByCode := s.referredByCode }
    modify fun u => { u with createdAt := some e.eventAt }
  | .deleted deletedAt =>
    modify fun u => { u with deletedAt := some deletedAt }
  | .referralCreated i =>
    modify fun u => { u with
      referrals := u.referrals ++
        [⟨i.referralId, i.referralCode, i.referredUserEmail, i.status, e.eventAt, e.eventAt⟩] }
  | .referralCompleted id => do
    match (← get).referrals.findIdx? fun r => r.id = id with
    | none =>
      throw (.invalidPayload e.aggregateId .userReferralCompleted ("unknown referral " ++ id))
    | some i =>
      modify fun u => { u with
        referrals := u.referrals.modify i fun r => { r with status := .completed } }
      modify fun u => { u with
        referrals := u.referrals.modify i fun r => { r with updatedAt := e.eventAt } }
  | .pointsEarned n => do
    match (← get).points.add? n with
    | none => throw (.invalidPayload e.aggregateId .pointsEarned "points balance overflow")
    | some total => modify fun u => { u with points := total }

/-- Applies an event: makes the change, then notes the time and the version. -/
def applyEvent (e : Event) : Work :=
  match e.decode with
  | .error f => throw f
  | .ok c => do
    change e c
    modify fun u => { u with updatedAt := some e.eventAt }
    modify fun u => { u with version := e.version }

/-- Replays a history, up to the first event that cannot be applied. -/
def replay (history : List Event) : Work :=
  (History.sorted history).forM applyEvent

end Loyalty.InPlace
