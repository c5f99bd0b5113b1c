import Loyalty.Json.Shape

/-!
# Kinds of events, and the states of a referral

The names here are the names in stored data and in messages.
-/

namespace Loyalty

/-- The kinds of facts that the history of a user consists of. -/
inductive EventType where
  /-- the user signed up -/
  | userCreated
  /-- the user left -/
  | userDeleted
  /-- the user invited someone, or someone came with the user's code uninvited -/
  | userReferralCreated
  /-- someone whom the user invited signed up -/
  | userReferralCompleted
  /-- the user was given points -/
  | pointsEarned
  deriving DecidableEq, Repr

namespace EventType

/-- All kinds, in their order. -/
def all : List EventType :=
  [userCreated, userDeleted, userReferralCreated, userReferralCompleted, pointsEarned]

/-- The name of a kind. -/
def name : EventType → String
  | userCreated => "UserCreated"
  | userDeleted => "UserDeleted"
  | userReferralCreated => "UserReferralCreated"
  | userReferralCompleted => "UserReferralCompleted"
  | pointsEarned => "PointsEarned"

/-- The kind with the given name. -/
def ofName? (s : String) : Option EventType :=
  all.find? fun t => t.name = s

/-- The position of a kind among all kinds. -/
def ordinal (t : EventType) : Nat :=
  all.idxOf t

@[simp] theorem mem_all (t : EventType) : t ∈ all := by
  cases t <;> decide

theorem ofName?_eq_some_iff {s : String} {t : EventType} : ofName? s = some t ↔ s = t.name := by
  constructor
  · intro h
    have := List.find?_some h
    simpa using (of_decide_eq_true this).symm
  · rintro rfl
    cases t <;> decide

/-- The string that stands for a kind. -/
def toJson (t : EventType) : Json :=
  .text t.name

/-- Reads a kind. -/
def ofJson? : Json → Option EventType :=
  Json.toName? ofName?

end EventType

/-- How far a referral has come. -/
inductive ReferralStatus where
  /-- the invitation is recorded -/
  | created
  /-- the invitation went out -/
  | sent
  /-- the invited person signed up -/
  | completed
  deriving DecidableEq, Repr

namespace ReferralStatus

/-- All states, in their order. -/
def all : List ReferralStatus :=
  [created, sent, completed]

/-- The name of a state. -/
def name : ReferralStatus → String
  | created => "Created"
  | sent => "Sent"
  | completed => "Completed"

/-- The state with the given name. -/
def ofName? (s : String) : Option ReferralStatus :=
  all.find? fun t => t.name = s

theorem ofName?_eq_some_iff {s : String} {t : ReferralStatus} :
    ofName? s = some t ↔ s = t.name := by
  constructor
  · intro h
    have := List.find?_some h
    simpa using (of_decide_eq_true this).symm
  · rintro rfl
    cases t <;> decide

/-- The string that stands for a state. -/
def toJson (t : ReferralStatus) : Json :=
  .text t.name

/-- Reads a state. -/
def ofJson? : Json → Option ReferralStatus :=
  Json.toName? ofName?

end ReferralStatus

end Loyalty
