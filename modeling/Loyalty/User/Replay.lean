import Loyalty.Event.History
import Loyalty.User.State

/-!
# From events to users

Each change acts on the state of a user in one way. It may be impossible, and then nothing of the
state changes. The state of a user is the result of all events of the history, in the order of
the history; replaying stops before the first event that cannot be applied and leaves the state
that was reached until then.
-/

namespace Loyalty

open Time

namespace User

/-- The user after one change at the given time, or why the change is impossible. The version is
not touched. -/
def change (u : User) (eventAt : Timestamp) : Change → Except String User
  | .created s =>
    .ok { u with
      username := s.username, email := s.email, referralCode := some s.referralCode,
      referredByCode := s.referredByCode, createdAt := some eventAt }
  | .deleted deletedAt => .ok { u with deletedAt := some deletedAt }
  | .referralCreated i =>
    .ok { u with
      referrals := u.referrals ++
        [⟨i.referralId, i.referralCode, i.referredUserEmail, i.status, eventAt, eventAt⟩] }
  | .referralCompleted id =>
    match u.referrals.findIdx? fun r => r.id = id with
    | none => .error ("unknown referral " ++ id)
    | some i => .ok { u with referrals := u.referrals.modify i fun r => r.completedAt eventAt }
  | .pointsEarned n =>
    match u.points.add? n with
    | none => .error "points balance overflow"
    | some total => .ok { u with points := total }

/-- The user after one event. -/
def applyEvent (u : User) (e : Event) : Except Failure User := do
  let change ← e.decode
  match u.change e.eventAt change with
  | .error reason => .error (.invalidPayload e.aggregateId e.type reason)
  | .ok v => .ok { v with updatedAt := some e.eventAt, version := e.version }

/-- How a replay ended: the state that was reached, and what stopped it, if anything did. -/
structure Replayed where
  /-- the state that was reached -/
  user : User
  /-- why the next event could not be applied -/
  failure? : Option Failure
  deriving DecidableEq

namespace Replayed

/-- The state, when nothing stopped the replay. -/
def result (r : Replayed) : Except Failure User :=
  match r.failure? with
  | none => .ok r.user
  | some f => .error f

end Replayed

/-- Applies events one after the other, up to the first that cannot be applied. -/
def applyInOrder (u : User) : List Event → Replayed
  | [] => ⟨u, none⟩
  | e :: es =>
    match u.applyEvent e with
    | .ok v => v.applyInOrder es
    | .error f => ⟨u, some f⟩

/-- Replays a history onto a user. -/
def apply (u : User) (history : List Event) : Replayed :=
  u.applyInOrder (History.sorted history)

/-- The user with the given history. -/
def ofHistory (id : String) (history : List Event) : Except Failure User :=
  ((new id).apply history).result

theorem applyInOrder_append (u : User) (es fs : List Event) :
    u.applyInOrder (es ++ fs) =
      match (u.applyInOrder es).failure? with
      | none => (u.applyInOrder es).user.applyInOrder fs
      | some _ => u.applyInOrder es := by
  induction es generalizing u with
  | nil => rfl
  | cons e es ih =>
    simp only [List.cons_append, applyInOrder]
    cases u.applyEvent e with
    | ok v => exact ih v
    | error f => rfl

end User

end Loyalty
