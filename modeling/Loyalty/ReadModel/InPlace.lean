import Loyalty.ReadModel

/-!
# A read model that is written in place

`ReadModel.write` makes a new read model and leaves the old one alone. Here the same is done to a
read model that is kept in one place, by writing into one field of a profile after the other. What
was written before a write failed stays, so nothing may be written before it is sure to succeed: the
version is compared first, the referral is looked up before its status is written, points are added
up before the sum is, and the version comes last.
-/

namespace Loyalty.ReadModel.InPlace

open Time

/-- Something that is done in place. When it fails, what was written until then stays. -/
abbrev Work (State Result : Type) : Type := EStateM Failure State Result

/-- Amends a profile. `now` is the time of writing. -/
def amend (now : Timestamp) : Amendment → Work Profile Unit
  | .delete deletedAt => do
    modify fun p => { p with deletedAt := some deletedAt }
    modify fun p => { p with updatedAt := deletedAt }
  | .addReferral r => do
    modify fun p => { p with updatedAt := r.updatedAt }
    modify fun p => { p with referrals := p.referrals ++ [r] }
  | .setReferralStatus referralId status => do
    let p ← get
    match p.referrals.findIdx? fun r => r.id = referralId with
    | none =>
      throw (.readModel ("referral " ++ referralId ++ " not found for user " ++ p.userId))
    | some i =>
      modify fun p => { p with
        referrals := p.referrals.modify i fun r => { r with status := status } }
      modify fun p => { p with
        referrals := p.referrals.modify i fun r => { r with updatedAt := now } }
  | .addPoints n => do
    let p ← get
    match p.points.add? n with
    | none => throw (.readModel ("points overflow for user " ++ p.userId))
    | some total =>
      modify fun p => { p with points := total }
      modify fun p => { p with updatedAt := now }

/-- Changes a profile and takes it to the given version, which must be the next. -/
def atVersion (version : Nat) (change : Work Profile Unit) : Work Profile Unit := do
  let p ← get
  if version = p.version + 1 then
    change
    modify fun p => { p with version := version }
  else throw (.outOfOrder p.userId p.version version)

/-- Works on the profile of a user, where it stands. -/
def update (id : String) (work : Work Profile Unit) : Work ReadModel Unit := fun m =>
  match m.find? id with
  | none => .error (.notFound id) m
  | some p =>
    match work.run p with
    | .ok () q => .ok () (m.replace q)
    | .error f q => .error f (m.replace q)

/-- Takes in a new user. -/
def create (p : Profile) : Work ReadModel Unit := fun m =>
  match h : m.find? p.userId with
  | some known => .error (.outOfOrder p.userId known.version p.version) m
  | none => .ok () (m.add p h)

/-- Makes a write at the given time. -/
def write (now : Timestamp) : Write → Work ReadModel Unit
  | .createUser p => create p
  | .amend id a version => update id (atVersion version (amend now a))

/-- Makes writes one after the other, each at its own time, whether or not those before it were
refused. The result is those that were taken in and what is left in the end. -/
def writeAll (m : ReadModel) : List (Timestamp × Write) → List Write × ReadModel
  | [] => ([], m)
  | (now, wr) :: rest =>
    match (write now wr).run m with
    | .ok () m' => (wr :: (writeAll m' rest).1, (writeAll m' rest).2)
    | .error _ m' => writeAll m' rest

end Loyalty.ReadModel.InPlace
