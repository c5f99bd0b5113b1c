import Loyalty.Delivery.Handler

/-!
# Rewards for signing up

When a user has signed up, commands are given that reward the new user and, if somebody's code was
used, also complete the referral and reward the user who referred. Who that is tells the read
model. The commands are given one after the other, up to the first that fails; nothing is taken
back. An event that is delivered again gives its commands again.
-/

namespace Loyalty.Reward

/-- The command that gives a user the points for an action. -/
def earn (userId : String) (action : PointsAction) : Command :=
  .earnPoints ⟨userId, action.points⟩

/-- The commands for a user who signed up without a code. -/
def planWithoutCode (userId : String) : List Command :=
  [earn userId .signUpWithoutReferral]

/-- The commands for a user who signed up with the code of `referrer`. -/
def planWithCode (userId email code referrer : String) : List Command :=
  [.completeReferral {
      userId := referrer
      referredUserId := userId
      referredUserEmail := email
      referredByCode := code },
    earn referrer .referUser,
    earn userId .signUpWithReferral]

/-- The rewards sign nobody up. -/
theorem kind_of_mem_planWithoutCode {userId : String} {c : Command}
    (hc : c ∈ planWithoutCode userId) : c.kind ≠ .createUser := by
  obtain rfl := List.mem_singleton.1 hc
  simp [earn, Command.kind]

/-- The rewards sign nobody up. -/
theorem kind_of_mem_planWithCode {userId email code referrer : String} {c : Command}
    (hc : c ∈ planWithCode userId email code referrer) : c.kind ≠ .createUser := by
  simp only [planWithCode, earn, List.mem_cons, List.not_mem_nil, or_false] at hc
  obtain rfl | rfl | rfl := hc <;> simp [Command.kind]

/-- Gives commands one after the other, up to the first that fails. -/
def carryOut (dispatch : Command → Activity) : List Command → Activity
  | [] => .idle
  | c :: cs => (dispatch c).andThen (carryOut dispatch cs)

/-- Rewards a user who signed up. -/
def rewardSignUp (dispatch : Command → Activity) (userId : String) (s : SignUp) : Activity :=
  match s.referredByCode with
  | none => carryOut dispatch (planWithoutCode userId)
  | some code =>
    .attempt (Attempt.userByReferralCode code) fun referrer =>
      carryOut dispatch (planWithCode userId s.email code referrer.userId)

/-- Reacts to an event. -/
def handle (dispatch : Command → Activity) (e : Event) : Activity :=
  match e.decode with
  | .error f => .fail f
  | .ok (.created s) => rewardSignUp dispatch e.aggregateId s
  | .ok _ => .idle

/-- The rewards as a handler of sign-ups. -/
def handler (dispatch : Command → Activity) : EventHandler where
  name := "referral-saga"
  types := [.userCreated]
  handle := handle dispatch
  sync _ := .idle

end Loyalty.Reward
