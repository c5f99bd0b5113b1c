import Loyalty.Failure
import Loyalty.User.State

/-!
# The read model

For every user the read model keeps a `Profile`, made for questions. A profile is changed by
*writes*, each of which carries the version of the event that causes it: only the write that
belongs to the next event of the user is accepted, so a profile is always that of one moment in
the history. A write that is refused changes nothing.

Users who have left keep their profile, but lists and searches pass over it.
-/

namespace Loyalty

open Time Text

/-- What the read model knows of a user. -/
structure Profile where
  /-- the identity of the user -/
  userId : String
  /-- the name of the user -/
  username : String
  /-- the address of the user -/
  email : String
  /-- the balance -/
  points : Points
  /-- the code that the user hands out to others -/
  referralCode : String
  /-- the code with which the user came -/
  referredByCode : Option String
  /-- whom the user referred, in order -/
  referrals : List Referral
  /-- the version of the last event that is taken in -/
  version : Nat
  /-- when the user signed up -/
  createdAt : Timestamp
  /-- when the user changed last -/
  updatedAt : Timestamp
  /-- when the user left -/
  deletedAt : Option Timestamp
  deriving DecidableEq

namespace Profile

/-- The fields of a profile, in order. -/
def fieldNames : List String :=
  ["userId", "username", "email", "points", "referralCode", "referredByCode", "referrals",
    "version", "createdAt", "updatedAt", "deletedAt"]

/-- The JSON value of a profile. -/
def toJson (p : Profile) : Json :=
  .record [("userId", .text p.userId), ("username", .text p.username), ("email", .text p.email),
    ("points", p.points.toJson), ("referralCode", .text p.referralCode),
    ("referredByCode", .option .text p.referredByCode),
    ("referrals", .array (p.referrals.map Referral.toJson)), ("version", .nat p.version),
    ("createdAt", Rfc3339.toJson p.createdAt), ("updatedAt", Rfc3339.toJson p.updatedAt),
    ("deletedAt", .option Rfc3339.toJson p.deletedAt)]

/-- Reads the JSON value of a profile. -/
def ofJson? (j : Json) : Option Profile := do
  let fs ← Json.fields? fieldNames 0 j
  some {
    userId := ← fs.required "userId" Json.toString?
    username := ← fs.required "username" Json.toString?
    email := ← fs.required "email" Json.toString?
    points := ← fs.required "points" Points.ofJson?
    referralCode := ← fs.required "referralCode" Json.toString?
    referredByCode := ← fs.optional "referredByCode" Json.toString?
    referrals := ← fs.required "referrals" (Json.toList? Referral.ofJson?)
    version := ← fs.required "version" (Json.toNat? word64)
    createdAt := ← fs.required "createdAt" Rfc3339.ofJson?
    updatedAt := ← fs.required "updatedAt" Rfc3339.ofJson?
    deletedAt := ← fs.optional "deletedAt" Rfc3339.ofJson? }

/-- In lists of users a profile stands no later than another: the one that signed up first comes
first, and of two that signed up together the one with the lesser identity. -/
def notAfter (p q : Profile) : Bool :=
  p.createdAt.isBefore q.createdAt ||
    (p.createdAt == q.createdAt && decide (p.userId ≤ q.userId))

end Profile

/-- What an event after the first does to the profile of its user. -/
inductive Amendment where
  /-- the user left -/
  | delete (deletedAt : Timestamp)
  /-- the user referred someone -/
  | addReferral (referral : Referral)
  /-- a referral of the user came further -/
  | setReferralStatus (referralId : String) (status : ReferralStatus)
  /-- the user was given points -/
  | addPoints (points : Points)
  deriving DecidableEq

/-- A change to the read model that one event causes. -/
inductive Write where
  /-- a user signed up -/
  | createUser (profile : Profile)
  /-- the profile of a user is taken to this version -/
  | amend (userId : String) (amendment : Amendment) (version : Nat)
  deriving DecidableEq

namespace Write

/-- The user whose profile a write changes. -/
def userId : Write → String
  | createUser p => p.userId
  | amend id _ _ => id

end Write

namespace Profile

/-- The profile with an amendment, or why it cannot be made. `now` is the time of writing, which
some amendments note as the time of the change. -/
def amend (p : Profile) (now : Timestamp) : Amendment → Except Failure Profile
  | .delete deletedAt => .ok { p with deletedAt := some deletedAt, updatedAt := deletedAt }
  | .addReferral r => .ok { p with updatedAt := r.updatedAt, referrals := p.referrals ++ [r] }
  | .setReferralStatus referralId status =>
    match p.referrals.findIdx? fun r => r.id = referralId with
    | none =>
      .error (.readModel ("referral " ++ referralId ++ " not found for user " ++ p.userId))
    | some i =>
      .ok { p with
        referrals := p.referrals.modify i fun r => { r with status := status, updatedAt := now } }
  | .addPoints n =>
    match p.points.add? n with
    | none => .error (.readModel ("points overflow for user " ++ p.userId))
    | some total => .ok { p with points := total, updatedAt := now }

end Profile

/-- The read model. -/
structure ReadModel where
  /-- the profiles, in the order in which they came -/
  profiles : List Profile
  /-- a user has one profile -/
  distinct : (profiles.map Profile.userId).Nodup
  deriving DecidableEq

namespace ReadModel

/-- A read model that knows nobody. -/
def empty : ReadModel := ⟨[], List.nodup_nil⟩

/-- The profile of a user. -/
def find? (m : ReadModel) (id : String) : Option Profile :=
  m.profiles.find? fun p => p.userId = id

/-- The read model with another profile for a user it knows. -/
def replace (m : ReadModel) (p : Profile) : ReadModel where
  profiles := m.profiles.map fun q => if q.userId = p.userId then p else q
  distinct := by
    have h : (Profile.userId ∘ fun q => if q.userId = p.userId then p else q) =
        Profile.userId := by
      funext q
      by_cases hq : q.userId = p.userId <;> simp [hq]
    rw [List.map_map, h]
    exact m.distinct

/-- The read model with the profile of a user it does not know. -/
def add (m : ReadModel) (p : Profile) (unknown : m.find? p.userId = none) : ReadModel where
  profiles := m.profiles ++ [p]
  distinct := by
    have h : ∀ q ∈ m.profiles, q.userId ≠ p.userId := by
      simpa [find?] using unknown
    rw [List.map_append, List.nodup_append]
    refine ⟨m.distinct, by simp, ?_⟩
    intro id hid other hother
    obtain ⟨q, hq, rfl⟩ := List.mem_map.1 hid
    obtain rfl : other = p.userId := by simpa using hother
    exact h q hq

@[simp] theorem find?_empty (id : String) : empty.find? id = none := rfl

theorem userId_of_find? {m : ReadModel} {id : String} {p : Profile} (h : m.find? id = some p) :
    p.userId = id := by
  simpa using List.find?_some h

/-- The new profile of a known user is found, and nobody else's has changed. -/
theorem find?_replace (m : ReadModel) (p : Profile) (id : String) :
    (m.replace p).find? id =
      if id = p.userId then (m.find? id).map fun _ => p else m.find? id := by
  have h : ∀ ps : List Profile,
      (ps.map fun q => if q.userId = p.userId then p else q).find?
          (fun q => decide (q.userId = id)) =
        if id = p.userId then (ps.find? fun q => decide (q.userId = id)).map fun _ => p
        else ps.find? fun q => decide (q.userId = id) := by
    intro ps
    induction ps with
    | nil => simp
    | cons q ps ih =>
      by_cases hq : q.userId = p.userId
      · by_cases hid : id = p.userId
        · subst hid
          simp [hq]
        · have hne : ¬ p.userId = id := fun h => hid h.symm
          simp [hq, hid, hne] at ih ⊢
          exact ih
      · by_cases hqid : q.userId = id
        · subst hqid
          simp [hq]
        · simp [hq, hqid] at ih ⊢
          exact ih
  exact h m.profiles

/-- A user who was added is found, and so are those who were known before. -/
theorem find?_add (m : ReadModel) (p : Profile) (h : m.find? p.userId = none) (id : String) :
    (m.add p h).find? id = if id = p.userId then some p else m.find? id := by
  by_cases hid : id = p.userId
  · subst hid
    have hnone : m.profiles.find? (fun q => decide (q.userId = p.userId)) = none := h
    simp [find?, add, List.find?_append, hnone]
  · have hne : ¬ p.userId = id := fun h => hid h.symm
    simp [find?, add, List.find?_append, hid, hne]

/-! ## Writing -/

/-- Amends the profile of a user and takes it to the given version, which must be the next. -/
def amend (m : ReadModel) (now : Timestamp) (id : String) (a : Amendment) (version : Nat) :
    Except Failure ReadModel :=
  match m.find? id with
  | none => .error (.notFound id)
  | some p =>
    if version = p.version + 1 then do
      let q ← p.amend now a
      .ok (m.replace { q with version := version })
    else .error (.outOfOrder id p.version version)

/-- Takes in a new user. -/
def create (m : ReadModel) (p : Profile) : Except Failure ReadModel :=
  match h : m.find? p.userId with
  | some known => .error (.outOfOrder p.userId known.version p.version)
  | none => .ok (m.add p h)

/-- The read model after a write at the given time. -/
def write (m : ReadModel) (now : Timestamp) : Write → Except Failure ReadModel
  | .createUser p => m.create p
  | .amend id a version => m.amend now id a version

/-! ## Asking -/

/-- The users that have not left, in order. -/
def users (m : ReadModel) : List Profile :=
  (m.profiles.filter fun p => p.deletedAt.isNone).mergeSort Profile.notAfter

/-- The profile of a user, also of one that has left. -/
def user (m : ReadModel) (id : String) : Except Failure Profile :=
  match m.find? id with
  | none => .error (.notFound id)
  | some p => .ok p

/-- The referrals of a user. -/
def referrals (m : ReadModel) (id : String) : Except Failure (List Referral) :=
  (m.user id).map Profile.referrals

/-- A user with this code that has not left. -/
def userByReferralCode (m : ReadModel) (code : String) : Except Failure Profile :=
  match m.profiles.find? fun p => p.deletedAt.isNone && p.referralCode == code with
  | none => .error (.notFound ("referral code " ++ code))
  | some p => .ok p

end ReadModel

end Loyalty
