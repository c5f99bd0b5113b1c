import Loyalty.Event.Kind
import Loyalty.Json.Reader
import Loyalty.Json.Writer
import Loyalty.Points
import Loyalty.Text.Blank
import Loyalty.Time.Rfc3339

/-!
# What an event says

A `Change` is the content of an event: one case for each kind, with the data that kind carries.
Events keep it as JSON text, their *payload*. `Change.encode` writes the payload and
`Change.decode` reads it back for a given kind.

A change must have its required fields filled in, give more than zero points, and not put a
deletion before the year 1970 has begun. `Change.checked` is the only gate: what is built passes
it, and so does what is read.
-/

namespace Loyalty

open Time

/-- Why a payload is refused. -/
inductive PayloadFault where
  /-- the event has no payload -/
  | missing
  /-- a required field is blank -/
  | blankField (field : String)
  /-- no points are given -/
  | zeroPoints
  /-- the deletion does not lie after the first second of 1970 -/
  | invalidDeletedAt
  /-- no state of a referral has this name -/
  | invalidStatus (name : String)
  /-- the text does not have the shape of a payload of its kind -/
  | malformed (detail : String)
  deriving DecidableEq, Repr

namespace PayloadFault

/-- The fault in words. -/
def message : PayloadFault → String
  | missing => "event missing payload"
  | blankField field => "required field " ++ field ++ " is blank"
  | zeroPoints => "points earned must be greater than zero"
  | invalidDeletedAt => "deletedAt must be after the Unix epoch"
  | invalidStatus name => "invalid referral status: " ++ name
  | malformed detail => "malformed payload: " ++ detail

/-- The detail given with a malformed text. Reading says only whether a text has a shape, so this
stands where a reader that looks for the place of the fault would name it. -/
def unlocated : String := "<detail>"

end PayloadFault

/-- What a user signs up with. -/
structure SignUp where
  /-- the name of the user -/
  username : String
  /-- the address of the user -/
  email : String
  /-- the code that the user hands out to others -/
  referralCode : String
  /-- the code with which the user came, if any -/
  referredByCode : Option String
  deriving DecidableEq, Repr

/-- What is recorded when someone is referred. -/
structure Invitation where
  /-- the identity of the referral -/
  referralId : String
  /-- the code of the user who refers -/
  referralCode : String
  /-- the address of the person referred -/
  referredUserEmail : String
  /-- how far the referral has come already -/
  status : ReferralStatus
  deriving DecidableEq, Repr

/-- The content of an event. -/
inductive Change where
  /-- the user signed up -/
  | created (signUp : SignUp)
  /-- the user left at this time -/
  | deleted (deletedAt : Timestamp)
  /-- a referral began -/
  | referralCreated (invitation : Invitation)
  /-- the referral with this identity was completed -/
  | referralCompleted (referralId : String)
  /-- the user was given points -/
  | pointsEarned (points : Points)
  deriving DecidableEq

namespace SignUp

/-- The fields of the record, in order. -/
def fieldNames : List String :=
  ["username", "email", "referralCode", "referredByCode"]

/-- The record of a sign-up. The code with which the user came is left out when there is none. -/
def toJson (s : SignUp) : Json :=
  .record ([("username", .text s.username), ("email", .text s.email),
    ("referralCode", .text s.referralCode)] ++
    match s.referredByCode with
    | none => []
    | some code => [("referredByCode", .text code)])

/-- Reads the record of a sign-up. -/
def ofJson? (j : Json) : Option SignUp := do
  let fs ← Json.fields? fieldNames 1 j
  some {
    username := ← fs.required "username" Json.toString?
    email := ← fs.required "email" Json.toString?
    referralCode := ← fs.required "referralCode" Json.toString?
    referredByCode := ← fs.optional "referredByCode" Json.toString? }

end SignUp

namespace Invitation

/-- The fields of the record, in order. -/
def fieldNames : List String :=
  ["referralId", "referralCode", "referredUserEmail", "referralStatus"]

/-- The record of an invitation. -/
def toJson (i : Invitation) : Json :=
  .record [("referralId", .text i.referralId), ("referralCode", .text i.referralCode),
    ("referredUserEmail", .text i.referredUserEmail), ("referralStatus", i.status.toJson)]

/-- Reads the record of an invitation. -/
def ofJson? (j : Json) : Option Invitation := do
  let fs ← Json.fields? fieldNames 0 j
  some {
    referralId := ← fs.required "referralId" Json.toString?
    referralCode := ← fs.required "referralCode" Json.toString?
    referredUserEmail := ← fs.required "referredUserEmail" Json.toString?
    status := ← fs.required "referralStatus" ReferralStatus.ofJson? }

end Invitation

namespace Change

/-- The kind of event that a change is the content of. -/
def type : Change → EventType
  | created _ => .userCreated
  | deleted _ => .userDeleted
  | referralCreated _ => .userReferralCreated
  | referralCompleted _ => .userReferralCompleted
  | pointsEarned _ => .pointsEarned

/-! ## The gate -/

/-- The first of the named fields that is blank. -/
def firstBlank : List (String × String) → Option String
  | [] => none
  | (name, value) :: fields => if Text.isBlank value then some name else firstBlank fields

/-- Refuses a blank field. -/
def requireFields (fields : List (String × String)) : Option PayloadFault :=
  (firstBlank fields).map .blankField

/-- What is wrong with a change, if anything. -/
def fault? : Change → Option PayloadFault
  | created s =>
    requireFields [("username", s.username), ("email", s.email), ("referralCode", s.referralCode)]
  | deleted t => if t.isAfterEpoch then none else some .invalidDeletedAt
  | referralCreated i =>
    requireFields [("referralId", i.referralId), ("referralCode", i.referralCode),
      ("referredUserEmail", i.referredUserEmail)]
  | referralCompleted id => requireFields [("referralId", id)]
  | pointsEarned n => if n = 0 then some .zeroPoints else none

/-- Lets a change pass when nothing is wrong with it. -/
def checked (c : Change) : Except PayloadFault Change :=
  match c.fault? with
  | none => .ok c
  | some f => .error f

/-! ## Payloads -/

/-- The JSON value of a change. -/
def toJson : Change → Json
  | created s => s.toJson
  | deleted t => .record [("deletedAt", Rfc3339.toJson t)]
  | referralCreated i => i.toJson
  | referralCompleted id => .record [("referralId", .text id)]
  | pointsEarned n => .record [("pointsEarned", n.toJson)]

/-- Reads the JSON value of a change of the given kind. -/
def ofJson? (t : EventType) (j : Json) : Option Change :=
  match t with
  | .userCreated => (SignUp.ofJson? j).map created
  | .userDeleted => do
    let fs ← Json.fields? ["deletedAt"] 0 j
    (fs.required "deletedAt" Rfc3339.ofJson?).map deleted
  | .userReferralCreated => (Invitation.ofJson? j).map referralCreated
  | .userReferralCompleted => do
    let fs ← Json.fields? ["referralId"] 0 j
    (fs.required "referralId" Json.toString?).map referralCompleted
  | .pointsEarned => do
    let fs ← Json.fields? ["pointsEarned"] 0 j
    (fs.required "pointsEarned" Points.ofJson?).map pointsEarned

/-- The payload of a change. -/
def encode (c : Change) : String :=
  c.toJson.toText

/-- Reads the payload of an event of the given kind. -/
def decode (t : EventType) : Option String → Except PayloadFault Change
  | none => .error .missing
  | some payload =>
    match (Json.parse? payload).bind (ofJson? t) with
    | none => .error (.malformed PayloadFault.unlocated)
    | some c => c.checked

end Change

end Loyalty
