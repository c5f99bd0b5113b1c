import Loyalty.User.Replay

/-!
# Decisions

A rule takes the state of a user and a command, and answers with the events that the command
brings about, or with the reason why it is refused. Rules look at nothing else: the time and the
newly made codes and identities are arguments, so the same arguments always give the same answer.

Texts that come from outside are trimmed before they enter an event.
-/

namespace Loyalty

open Time

namespace User

/-- Refuses to go on with a user that has left. -/
def requireActive (u : User) : Except Rejection Unit :=
  if u.isDeleted then .error (.alreadyDeleted u.id) else .ok ()

/-- The events of a decision that leads to one change, which must be in order. -/
def decided (id : String) (version : Nat) (change : Change) (now : Timestamp) :
    Except Rejection (List Event) :=
  match change.checked with
  | .ok c => .ok [Event.ofChange id version c now]
  | .error fault => .error (.payload fault)

/-- The decision that the user's next event says `change`. -/
def next (u : User) (change : Change) (now : Timestamp) : Except Rejection (List Event) :=
  decided u.id (u.version + 1) change now

/-- A code as it was given, `none` when there is nothing in it. -/
def givenCode (code : Option String) : Option String :=
  (code.map Text.trim).filter fun c => c ≠ ""

end User

namespace CreateUser

/-- Signs up a user. The event is always the first of its history; that there is no other history
yet is for the one who stores the event to see. -/
def decide (c : CreateUser) (freshCode : String) (now : Timestamp) :
    Except Rejection (List Event) :=
  if Text.isBlank c.username || Text.isBlank c.email then
    .error (.invalid "email and username must be defined when creating user")
  else
    User.decided c.userId 1
      (.created {
        username := Text.trim c.username
        email := Text.trim c.email
        referralCode := freshCode
        referredByCode := User.givenCode c.referredByCode })
      now

end CreateUser

namespace DeleteUser

/-- Removes a user. -/
def decide (u : User) (now : Timestamp) : Except Rejection (List Event) := do
  u.requireActive
  u.next (.deleted now) now

end DeleteUser

namespace CreateReferral

/-- Invites someone. -/
def decide (c : CreateReferral) (u : User) (freshId : String) (now : Timestamp) :
    Except Rejection (List Event) :=
  if Text.isBlank c.referredUserEmail then
    .error (.invalid "referred user email must be defined when creating referral")
  else do
    u.requireActive
    match u.referralCode with
    | none => .error (.noReferralCode u.id)
    | some code =>
      u.next
        (.referralCreated {
          referralId := freshId
          referralCode := code
          referredUserEmail := Text.trim c.referredUserEmail
          status := .created })
        now

end CreateReferral

namespace CompleteReferral

/-- Completes the latest referral of the person who signed up. When the person came with the
user's code but was never invited, a referral is recorded that is complete from the start. -/
def decide (c : CompleteReferral) (u : User) (freshId : String) (now : Timestamp) :
    Except Rejection (List Event) :=
  if Text.isBlank c.referredUserId then
    .error (.invalid "referred user id must be defined when completing referral")
  else do
    u.requireActive
    if u.referralCode = some c.referredByCode then
      match u.findReferral (Text.trim c.referredUserEmail) with
      | some r => u.next (.referralCompleted r.id) now
      | none =>
        u.next
          (.referralCreated {
            referralId := freshId
            referralCode := c.referredByCode
            referredUserEmail := Text.trim c.referredUserEmail
            status := .completed })
          now
    else
      .error (.codeMismatch u.referralCode c.referredByCode)

end CompleteReferral

namespace EarnPoints

/-- Gives points to a user. -/
def decide (c : EarnPoints) (u : User) (now : Timestamp) : Except Rejection (List Event) :=
  if c.points = 0 then
    .error (.invalid "points must be greater than zero")
  else do
    u.requireActive
    u.next (.pointsEarned c.points) now

end EarnPoints

namespace Command

/-- The decision on any command, given the state of its user and a newly made text that serves as
the code of a new user or as the identity of a new referral. -/
def decide (u : User) (fresh : String) (now : Timestamp) : Command → Except Rejection (List Event)
  | createUser c => c.decide fresh now
  | deleteUser _ => DeleteUser.decide u now
  | createReferral c => c.decide u fresh now
  | completeReferral c => c.decide u fresh now
  | earnPoints c => c.decide u now

end Command

end Loyalty
