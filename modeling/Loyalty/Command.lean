import Loyalty.Json.Shape
import Loyalty.Points

/-!
# Commands

A command asks for a change to one user and may be refused. Its kind decides who handles it.

In JSON a command is one record, with its kind under the name `type` and its fields beside it. The
kind may come after the fields, so a reader has to keep these until it knows what they mean. It
can do so only for values that can be kept, and only down to a certain depth.
-/

namespace Loyalty

open Text

/-- The kinds of commands. -/
inductive CommandKind where
  /-- sign up a user -/
  | createUser
  /-- remove a user -/
  | deleteUser
  /-- invite someone -/
  | createReferral
  /-- note that someone signed up with a user's code -/
  | completeReferral
  /-- give points to a user -/
  | earnPoints
  deriving DecidableEq, Repr

namespace CommandKind

/-- All kinds, in their order. -/
def all : List CommandKind :=
  [createUser, deleteUser, createReferral, completeReferral, earnPoints]

/-- The name of a kind. -/
def name : CommandKind → String
  | createUser => "CreateUser"
  | deleteUser => "DeleteUser"
  | createReferral => "CreateReferral"
  | completeReferral => "CompleteReferral"
  | earnPoints => "EarnPoints"

/-- The kind with the given name. -/
def ofName? (s : String) : Option CommandKind :=
  all.find? fun k => k.name = s

@[simp] theorem mem_all (k : CommandKind) : k ∈ all := by
  cases k <;> decide

theorem ofName?_eq_some_iff {s : String} {k : CommandKind} :
    ofName? s = some k ↔ s = k.name := by
  constructor
  · intro h
    have := List.find?_some h
    simpa using (of_decide_eq_true this).symm
  · rintro rfl
    cases k <;> decide

/-- The string that stands for a kind. -/
def toJson (k : CommandKind) : Json :=
  .text k.name

/-- Reads a kind. -/
def ofJson? : Json → Option CommandKind :=
  Json.toName? ofName?

end CommandKind

/-- Sign up a new user. -/
structure CreateUser where
  /-- the identity of the new user -/
  userId : String
  /-- the name of the new user -/
  username : String
  /-- the address of the new user -/
  email : String
  /-- the code with which the new user came, if any -/
  referredByCode : Option String
  deriving DecidableEq, Repr

/-- Remove a user. The history stays. -/
structure DeleteUser where
  /-- the user -/
  userId : String
  deriving DecidableEq, Repr

/-- Invite someone by address. -/
structure CreateReferral where
  /-- the user who invites -/
  userId : String
  /-- the address of the person invited -/
  referredUserEmail : String
  deriving DecidableEq, Repr

/-- Note, on the user who referred, that the referred person signed up. -/
structure CompleteReferral where
  /-- the user who referred -/
  userId : String
  /-- the user who signed up -/
  referredUserId : String
  /-- the address of the user who signed up -/
  referredUserEmail : String
  /-- the code with which the user signed up; it must be that of the user who referred -/
  referredByCode : String
  deriving DecidableEq, Repr

/-- Give points to a user. -/
structure EarnPoints where
  /-- the user -/
  userId : String
  /-- how many points -/
  points : Points
  deriving DecidableEq, Repr

/-- A command. -/
inductive Command where
  /-- sign up a user -/
  | createUser (c : CreateUser)
  /-- remove a user -/
  | deleteUser (c : DeleteUser)
  /-- invite someone -/
  | createReferral (c : CreateReferral)
  /-- note that someone signed up with a user's code -/
  | completeReferral (c : CompleteReferral)
  /-- give points to a user -/
  | earnPoints (c : EarnPoints)
  deriving DecidableEq, Repr

namespace Command

/-- The kind of a command. -/
def kind : Command → CommandKind
  | createUser _ => .createUser
  | deleteUser _ => .deleteUser
  | createReferral _ => .createReferral
  | completeReferral _ => .completeReferral
  | earnPoints _ => .earnPoints

/-- The user whom a command is about. -/
def aggregateId : Command → String
  | createUser c => c.userId
  | deleteUser c => c.userId
  | createReferral c => c.userId
  | completeReferral c => c.userId
  | earnPoints c => c.userId

theorem exists_eq_createUser {c : Command} (h : c.kind = .createUser) :
    ∃ s, c = .createUser s := by
  cases c with
  | createUser s => exact ⟨s, rfl⟩
  | deleteUser | createReferral | completeReferral | earnPoints => cases h

/-! ## In JSON -/

/-- The fields of a command besides its kind. -/
def toFields : Command → List (String × Json)
  | createUser c =>
    [("userId", .text c.userId), ("username", .text c.username), ("email", .text c.email),
      ("referredByCode", .option .text c.referredByCode)]
  | deleteUser c => [("userId", .text c.userId)]
  | createReferral c =>
    [("userId", .text c.userId), ("referredUserEmail", .text c.referredUserEmail)]
  | completeReferral c =>
    [("userId", .text c.userId), ("referredUserId", .text c.referredUserId),
      ("referredUserEmail", .text c.referredUserEmail), ("referredByCode", .text c.referredByCode)]
  | earnPoints c => [("userId", .text c.userId), ("points", c.points.toJson)]

/-- The record of a command. -/
def toJson (c : Command) : Json :=
  .record (("type", .text c.kind.name) :: c.toFields)

/-- Reads the fields of a command of the given kind. -/
def ofFields? (k : CommandKind) (j : Json) : Option Command :=
  match k with
  | .createUser => do
    let fs ← Json.fields? ["userId", "username", "email", "referredByCode"] 1 j
    some (.createUser {
      userId := ← fs.required "userId" Json.toString?
      username := ← fs.required "username" Json.toString?
      email := ← fs.required "email" Json.toString?
      referredByCode := ← fs.optional "referredByCode" Json.toString? })
  | .deleteUser => do
    let fs ← Json.fields? ["userId"] 0 j
    some (.deleteUser { userId := ← fs.required "userId" Json.toString? })
  | .createReferral => do
    let fs ← Json.fields? ["userId", "referredUserEmail"] 0 j
    some (.createReferral {
      userId := ← fs.required "userId" Json.toString?
      referredUserEmail := ← fs.required "referredUserEmail" Json.toString? })
  | .completeReferral => do
    let fs ← Json.fields?
      ["userId", "referredUserId", "referredUserEmail", "referredByCode"] 0 j
    some (.completeReferral {
      userId := ← fs.required "userId" Json.toString?
      referredUserId := ← fs.required "referredUserId" Json.toString?
      referredUserEmail := ← fs.required "referredUserEmail" Json.toString?
      referredByCode := ← fs.required "referredByCode" Json.toString? })
  | .earnPoints => do
    let fs ← Json.fields? ["userId", "points"] 0 j
    some (.earnPoints {
      userId := ← fs.required "userId" Json.toString?
      points := ← fs.required "points" Points.ofJson? })

/-- How deep the record of a command may nest, itself included. -/
def depthLimit : Nat := 127

/-- The kind of a command and the record of its other fields. -/
def split? : Json → Option (CommandKind × Json)
  | .array (kind :: items) => do
    some (← kind.toString?.bind CommandKind.ofName?, .array items)
  | .object members =>
    match members.partition fun m => m.1 = some "type" with
    | ([(_, kind)], rest) => do
      some (← kind.toString?.bind CommandKind.ofName?, .object rest)
    | _ => none
  | _ => none

/-- Reads the record of a command. -/
def ofJson? (j : Json) : Option Command := do
  if j.keepable ∧ j.depth ≤ depthLimit then
    let (kind, rest) ← split? j
    ofFields? kind rest
  else none

end Command

end Loyalty
