import Loyalty.Event.Kind
import Loyalty.Json.Shape
import Loyalty.Points
import Loyalty.Time.Rfc3339

/-!
# Users and their referrals

What is known of a user: the state that the events of the user's history add up to. A user that
has left is still known, with the time of leaving.
-/

namespace Loyalty

open Time Text

/-- Somebody whom a user referred. -/
structure Referral where
  /-- the identity of the referral -/
  id : String
  /-- the code of the user who refers -/
  referralCode : String
  /-- the address of the person referred -/
  referredUserEmail : String
  /-- how far the referral has come -/
  status : ReferralStatus
  /-- when it began -/
  createdAt : Timestamp
  /-- when it changed last -/
  updatedAt : Timestamp
  deriving DecidableEq

/-- The state of a user. -/
structure User where
  /-- the identity of the user -/
  id : String
  /-- the version of the last event, 0 before any -/
  version : Nat
  /-- the name of the user -/
  username : String
  /-- the address of the user -/
  email : String
  /-- the balance, which only grows -/
  points : Points
  /-- the code that the user hands out to others -/
  referralCode : Option String
  /-- the code with which the user came -/
  referredByCode : Option String
  /-- whom the user referred, in order -/
  referrals : List Referral
  /-- when the user signed up -/
  createdAt : Option Timestamp
  /-- when the user changed last -/
  updatedAt : Option Timestamp
  /-- when the user left -/
  deletedAt : Option Timestamp
  deriving DecidableEq

namespace Referral

/-- The fields of a referral, in order. -/
def fieldNames : List String :=
  ["id", "referralCode", "referredUserEmail", "status", "createdAt", "updatedAt"]

/-- The JSON value of a referral. -/
def toJson (r : Referral) : Json :=
  .record [("id", .text r.id), ("referralCode", .text r.referralCode),
    ("referredUserEmail", .text r.referredUserEmail), ("status", r.status.toJson),
    ("createdAt", Rfc3339.toJson r.createdAt), ("updatedAt", Rfc3339.toJson r.updatedAt)]

/-- Reads the JSON value of a referral. -/
def ofJson? (j : Json) : Option Referral := do
  let fs ← Json.fields? fieldNames 0 j
  some {
    id := ← fs.required "id" Json.toString?
    referralCode := ← fs.required "referralCode" Json.toString?
    referredUserEmail := ← fs.required "referredUserEmail" Json.toString?
    status := ← fs.required "status" ReferralStatus.ofJson?
    createdAt := ← fs.required "createdAt" Rfc3339.ofJson?
    updatedAt := ← fs.required "updatedAt" Rfc3339.ofJson? }

/-- The referral, completed at the given time. -/
def completedAt (r : Referral) (t : Timestamp) : Referral :=
  { r with status := .completed, updatedAt := t }

end Referral

namespace User

/-- A user of whom nothing is known but the identity. -/
def new (id : String) : User where
  id := id
  version := 0
  username := ""
  email := ""
  points := 0
  referralCode := none
  referredByCode := none
  referrals := []
  createdAt := none
  updatedAt := none
  deletedAt := none

/-- The user has left. -/
def isDeleted (u : User) : Bool :=
  u.deletedAt.isSome

/-- The latest referral of the person with exactly this address. -/
def findReferral (u : User) (email : String) : Option Referral :=
  u.referrals.reverse.find? fun r => r.referredUserEmail = email

/-! ## In JSON -/

/-- The fields of a user, in order. -/
def fieldNames : List String :=
  ["id", "version", "username", "email", "points", "referralCode", "referredByCode", "referrals",
    "createdAt", "updatedAt", "deletedAt"]

/-- The JSON value of a user. -/
def toJson (u : User) : Json :=
  .record [("id", .text u.id), ("version", .nat u.version), ("username", .text u.username),
    ("email", .text u.email), ("points", u.points.toJson),
    ("referralCode", .option .text u.referralCode),
    ("referredByCode", .option .text u.referredByCode),
    ("referrals", .array (u.referrals.map Referral.toJson)),
    ("createdAt", .option Rfc3339.toJson u.createdAt),
    ("updatedAt", .option Rfc3339.toJson u.updatedAt),
    ("deletedAt", .option Rfc3339.toJson u.deletedAt)]

/-- Reads the JSON value of a user. -/
def ofJson? (j : Json) : Option User := do
  let fs ← Json.fields? fieldNames 0 j
  some {
    id := ← fs.required "id" Json.toString?
    version := ← fs.required "version" (Json.toNat? word64)
    username := ← fs.required "username" Json.toString?
    email := ← fs.required "email" Json.toString?
    points := ← fs.required "points" Points.ofJson?
    referralCode := ← fs.optional "referralCode" Json.toString?
    referredByCode := ← fs.optional "referredByCode" Json.toString?
    referrals := ← fs.required "referrals" (Json.toList? Referral.ofJson?)
    createdAt := ← fs.optional "createdAt" Rfc3339.ofJson?
    updatedAt := ← fs.optional "updatedAt" Rfc3339.ofJson?
    deletedAt := ← fs.optional "deletedAt" Rfc3339.ofJson? }

end User

end Loyalty
