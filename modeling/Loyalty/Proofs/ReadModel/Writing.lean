import Loyalty.Proofs.ReadModel.Profile
import Loyalty.ReadModel.InPlace
import Loyalty.Simulation.Supply

/-!
# Writes are taken in whole or not at all

A write into a read model that is kept in one place goes field by field, and when it fails, what was
written before stays. That nothing is left of a write that is refused is a property of the writes:
`InPlace.run_amend` says that an amendment which fails has written nothing yet, and from it
`InPlace.run_write` that writing in place comes to the same as making a new read model.

The version that a write bears must be the next, so the writes to a user that are taken in are
numbered without a gap. `InPlace.Rises` is what this means for a profile over any writes whatever,
most of which may be refused.

Main statement: why a write is refused, what it leaves behind, and how versions rise.
-/

namespace Loyalty

open Time
open Simulation.Supply (clock)

/-! ## What a write is refused for -/

/-- An amendment cannot be made to a profile. -/
inductive Profile.Refuses (p : Profile) : Amendment → Failure → Prop where
  /-- the referral is unknown -/
  | unknownReferral {id : String} (status : ReferralStatus) (h : ∀ r ∈ p.referrals, r.id ≠ id) :
    Refuses p (.setReferralStatus id status)
      (.readModel ("referral " ++ id ++ " not found for user " ++ p.userId))
  /-- the points would not fit -/
  | overflow {n : Points} (h : Text.word32 ≤ p.points.toNat + n.toNat) :
    Refuses p (.addPoints n) (.readModel ("points overflow for user " ++ p.userId))

/-- A write cannot be made to a read model. A user who is not known comes before a version that is
not the next, and this before whatever else is wrong. -/
inductive ReadModel.Refuses (m : ReadModel) : Write → Failure → Prop where
  /-- a new user is known already -/
  | known {p q : Profile} (h : m.find? p.userId = some q) :
    Refuses m (.createUser p) (.outOfOrder p.userId q.version p.version)
  /-- the user is not known -/
  | unknown {id : String} (a : Amendment) (version : Nat) (h : m.find? id = none) :
    Refuses m (.amend id a version) (.notFound id)
  /-- the version is not the next -/
  | outOfOrder {id : String} {p : Profile} (a : Amendment) {version : Nat}
    (h : m.find? id = some p) (hversion : version ≠ p.version + 1) :
    Refuses m (.amend id a version) (.outOfOrder id p.version version)
  /-- the profile cannot be amended -/
  | amendment {id : String} {p : Profile} {a : Amendment} {version : Nat} {f : Failure}
    (h : m.find? id = some p) (hversion : version = p.version + 1) (hf : p.Refuses a f) :
    Refuses m (.amend id a version) f

namespace Profile

theorem amend_eq_error_iff {p : Profile} {now : Timestamp} {a : Amendment} {f : Failure} :
    p.amend now a = .error f ↔ p.Refuses a f := by
  constructor
  · intro h
    cases a with
    | delete | addReferral => cases h
    | setReferralStatus id status =>
      rw [amend] at h
      split at h
      · next hnone =>
        cases h
        exact .unknownReferral status (by simpa using hnone)
      · cases h
    | addPoints n =>
      rw [amend] at h
      split at h
      · next hnone =>
        cases h
        exact .overflow (by simpa [Points.add?] using hnone)
      · cases h
  · intro h
    cases h with
    | unknownReferral status h =>
      have hnone := List.findIdx?_eq_none_iff.2 fun r hr => decide_eq_false (h r hr)
      rw [amend, hnone]
    | @overflow n h =>
      have hnone : p.points.add? n = none := if_neg (Nat.not_lt.2 h)
      rw [amend, hnone]

end Profile

namespace ReadModel

theorem create_of_known {m : ReadModel} {p q : Profile} (h : m.find? p.userId = some q) :
    m.create p = .error (.outOfOrder p.userId q.version p.version) := by
  rw [create]
  split
  · next q' hq' =>
    cases h.symm.trans hq'
    rfl
  · next hnone => cases h.symm.trans hnone

theorem create_of_unknown {m : ReadModel} {p : Profile} (h : m.find? p.userId = none) :
    m.create p = .ok (m.add p h) := by
  rw [create]
  split
  · next q hq => cases h.symm.trans hq
  · rfl

theorem write_eq_error_iff {m : ReadModel} {now : Timestamp} {wr : Write} {f : Failure} :
    m.write now wr = .error f ↔ m.Refuses wr f := by
  constructor
  · intro h
    cases wr with
    | createUser p =>
      rw [write, create] at h
      split at h
      · next q hq =>
        cases h
        exact .known hq
      · cases h
    | amend id a version =>
      rw [write, amend] at h
      split at h
      · next hnone =>
        cases h
        exact .unknown a version hnone
      · next p hp =>
        split at h
        · next hversion =>
          cases hq : p.amend now a with
          | error g =>
            rw [hq] at h
            cases h
            exact .amendment hp hversion (Profile.amend_eq_error_iff.1 hq)
          | ok q =>
            rw [hq] at h
            cases h
        · next hversion =>
          cases h
          exact .outOfOrder a hp hversion
  · intro h
    cases h with
    | known h => exact create_of_known h
    | unknown a version h => rw [write, amend, h]
    | outOfOrder a h hversion =>
      rw [write, amend, h]
      exact if_neg hversion
    | amendment h hversion hf =>
      rw [write, amend, h]
      simp only [if_pos hversion, Profile.amend_eq_error_iff.2 hf]
      rfl

/-- A profile that is put in its own place changes nothing. -/
theorem replace_eq_self {m : ReadModel} {id : String} {p : Profile} (h : m.find? id = some p) :
    m.replace p = m := by
  have hp : p ∈ m.profiles := List.mem_of_find?_eq_some h
  have hprofiles : (m.profiles.map fun q => if q.userId = p.userId then p else q) = m.profiles := by
    refine (List.map_congr_left fun q hq => ?_).trans (List.map_id _)
    split
    · next hid => exact List.inj_on_of_nodup_map m.distinct hp hq hid.symm
    · rfl
  rw [replace]
  congr

/-! ## In place -/

namespace InPlace

/-- What becomes of something that is done in place, when nothing is left of a failure. -/
def outcome {State : Type} (old : State) : Except Failure State → EStateM.Result Failure State Unit
  | .ok new => .ok () new
  | .error f => .error f old

/-- An amendment that fails has written nothing. -/
theorem run_amend (p : Profile) (now : Timestamp) (a : Amendment) :
    (amend now a).run p = outcome p (p.amend now a) := by
  cases a with
  | delete | addReferral => rfl
  | setReferralStatus id status =>
    rw [Profile.amend]
    cases hk : p.referrals.findIdx? fun r => r.id = id with
    | none =>
      simp only [amend, EStateM.run_bind, EStateM.run_get, hk, EStateM.run_throw]
      rfl
    | some i =>
      -- Two fields of the same referral are written, one after the other.
      simp only [amend, EStateM.run_bind, EStateM.run_get, hk, EStateM.run_modify,
        List.modify_modify_eq]
      rfl
  | addPoints n =>
    rw [Profile.amend]
    cases htotal : p.points.add? n with
    | none =>
      simp only [amend, EStateM.run_bind, EStateM.run_get, htotal, EStateM.run_throw]
      rfl
    | some total =>
      simp only [amend, EStateM.run_bind, EStateM.run_get, htotal, EStateM.run_modify]
      rfl

/-- Nor has one that fails because of its version, and the version is written last. -/
theorem run_atVersion (p : Profile) (now : Timestamp) (a : Amendment) (version : Nat) :
    (atVersion version (amend now a)).run p =
      outcome p (if version = p.version + 1 then
        (p.amend now a).map fun q => { q with version := version }
      else .error (.outOfOrder p.userId p.version version)) := by
  rw [atVersion, EStateM.run_bind, EStateM.run_get]
  by_cases hversion : version = p.version + 1
  · simp only [if_pos hversion, EStateM.run_bind, run_amend]
    cases p.amend now a with
    | error f => rfl
    | ok q => rfl
  · simp only [if_neg hversion]
    rfl

/-- The profile is put back into its own place. -/
theorem run_update (m : ReadModel) (now : Timestamp) (id : String) (a : Amendment) (version : Nat) :
    (update id (atVersion version (amend now a))).run m =
      outcome m (m.amend now id a version) := by
  rw [ReadModel.amend, EStateM.run, update]
  cases hp : m.find? id with
  | none => rfl
  | some p =>
    obtain rfl := userId_of_find? hp
    simp only [run_atVersion]
    by_cases hversion : version = p.version + 1
    · simp only [if_pos hversion]
      cases p.amend now a with
      | error f => exact congrArg (EStateM.Result.error f) (replace_eq_self hp)
      | ok q => rfl
    · simp only [if_neg hversion]
      exact congrArg (EStateM.Result.error _) (replace_eq_self hp)

/-- A new user is taken in only where there is none. -/
theorem run_create (m : ReadModel) (p : Profile) : (create p).run m = outcome m (m.create p) := by
  rw [EStateM.run, create]
  split
  · next q hq =>
    rw [create_of_known hq]
    rfl
  · next hnone =>
    rw [create_of_unknown hnone]
    rfl

/-- **In place it comes to the same.** -/
theorem run_write (m : ReadModel) (now : Timestamp) (wr : Write) :
    (write now wr).run m = outcome m (m.write now wr) := by
  cases wr with
  | createUser p => exact run_create m p
  | amend id a version => exact run_update m now id a version

theorem run_eq_ok_iff {m m' : ReadModel} {now : Timestamp} {wr : Write} :
    (write now wr).run m = .ok () m' ↔ m.write now wr = .ok m' := by
  rw [run_write]
  cases m.write now wr with
  | error f => exact ⟨nofun, nofun⟩
  | ok m₁ => simp [outcome]

theorem run_eq_error_iff {m m' : ReadModel} {now : Timestamp} {wr : Write} {f : Failure} :
    (write now wr).run m = .error f m' ↔ m' = m ∧ m.Refuses wr f := by
  rw [run_write, ← @write_eq_error_iff m now wr f]
  cases m.write now wr with
  | error g => simp [outcome, and_comm, eq_comm]
  | ok m₁ => exact ⟨nofun, fun h => nomatch h.2⟩

/-- A write is taken in unless there is a reason to refuse it. -/
theorem exists_run_eq_ok_iff {m : ReadModel} {now : Timestamp} {wr : Write} :
    (∃ m', (write now wr).run m = .ok () m') ↔ ∀ f, ¬ m.Refuses wr f := by
  constructor
  · rintro ⟨m', h⟩ f hf
    cases h.symm.trans (run_eq_error_iff.2 ⟨rfl, hf⟩)
  · intro h
    cases hrun : (write now wr).run m with
    | ok u m' => exact ⟨m', rfl⟩
    | error f m' => exact absurd (run_eq_error_iff.1 hrun).2 (h f)

/-! ## One write after the other -/

/-- Amendments to the profile of a user, numbered from the version after the given one. -/
def numbered (id : String) (version : Nat) (as : List Amendment) : List Write :=
  (as.zipIdx (version + 1)).map fun x => .amend id x.1 x.2

/-- The writes to the profile of a user. -/
def toUser (id : String) (ws : List Write) : List Write :=
  ws.filter fun wr => wr.userId = id

/-- How the profile of a user has changed by the writes to it that were taken in. -/
inductive Rises (id : String) : Option Profile → List Write → Option Profile → Prop where
  /-- nothing was written -/
  | absent : Rises id none [] none
  /-- the profile was amended, and its version rose by one each time -/
  | amended {p q : Profile} (as : List Amendment) (hversion : q.version = p.version + as.length) :
    Rises id (some p) (numbered id p.version as) (some q)
  /-- the profile was made and then amended -/
  | created {p q : Profile} (as : List Amendment) (hversion : q.version = p.version + as.length) :
    Rises id none (.createUser p :: numbered id p.version as) (some q)

/-- One write more was taken in, before all others. -/
theorem Rises.cons {now : Timestamp} {wr : Write} {row row' : Option Profile} {p : Profile}
    (hp : wr.Makes now row p) {taken : List Write} (h : Rises wr.userId (some p) taken row') :
    Rises wr.userId row (wr :: taken) row' := by
  cases h with
  | @amended _ q as hversion =>
    cases hp with
    | created => exact .created as hversion
    | @amended p₀ p id a _ hnext ha =>
      subst hnext
      have hnumbered : numbered id p₀.version (a :: as) =
          .amend id a (p₀.version + 1) :: numbered id (p₀.version + 1) as := by
        rw [numbered, numbered, List.zipIdx_cons, List.map_cons]
      have hrises : q.version = p₀.version + (a :: as).length := by
        rw [hversion, List.length_cons]
        exact Nat.add_right_comm ..
      exact hnumbered ▸ .amended (a :: as) hrises

/-- Whatever is written, a profile changes by what is taken in, and in no other way. -/
theorem rises_writeAll (m : ReadModel) (ws : List (Timestamp × Write)) (id : String) :
    Rises id (m.find? id) (toUser id (writeAll m ws).1) ((writeAll m ws).2.find? id) := by
  induction ws generalizing m with
  | nil =>
    show Rises id (m.find? id) [] (m.find? id)
    cases m.find? id with
    | none => exact .absent
    | some p => exact .amended [] rfl
  | cons x ws ih =>
    obtain ⟨now, wr⟩ := x
    rw [writeAll, run_write]
    cases hwrite : m.write now wr with
    | error f => exact ih m
    | ok m' =>
      obtain ⟨p, hp, hfind⟩ := makes_of_write hwrite
      have hrises := ih m'
      rw [hfind] at hrises
      show Rises id (m.find? id) (toUser id (wr :: (writeAll m' ws).1)) _
      rw [toUser, List.filter_cons]
      by_cases hid : id = wr.userId
      · subst hid
        rw [if_pos rfl] at hrises
        rw [if_pos (decide_eq_true rfl)]
        exact hrises.cons hp
      · rw [if_neg hid] at hrises
        rw [if_neg (by simpa using Ne.symm hid)]
        exact hrises

/-- **Writes are taken in whole or not at all.** A write that fails leaves the read model as it was,
even in place, and it fails for what `ReadModel.Refuses` says and for nothing else. A write that
succeeds makes one profile, that of its user, and changes no other. A user is taken in exactly when
there is no profile yet; a profile is amended exactly when there is one, the version is the next and
the amendment can be made. Whatever is written, no profile goes away, and the writes to it that are
taken in are numbered one by one, up to the version that it has in the end. -/
theorem writes_are_atomic (m : ReadModel) :
    (∀ now wr f m', (write now wr).run m = .error f m' ↔ m' = m ∧ m.Refuses wr f) ∧
    (∀ now wr m', (write now wr).run m = .ok () m' →
      ∃ p, wr.Makes now (m.find? wr.userId) p ∧
        ∀ id, m'.find? id = if id = wr.userId then some p else m.find? id) ∧
    (∀ now p, (∃ m', (write now (.createUser p)).run m = .ok () m') ↔ m.find? p.userId = none) ∧
    (∀ now id a version, (∃ m', (write now (.amend id a version)).run m = .ok () m') ↔
      ∃ p, m.find? id = some p ∧ version = p.version + 1 ∧ ∀ f, ¬ p.Refuses a f) ∧
    ∀ ws id, Rises id (m.find? id) (toUser id (writeAll m ws).1) ((writeAll m ws).2.find? id) := by
  refine ⟨fun now wr f m' => run_eq_error_iff,
    fun now wr m' h => makes_of_write (run_eq_ok_iff.1 h), fun now p => ?_,
    fun now id a version => ?_, fun ws id => rises_writeAll m ws id⟩
  · rw [exists_run_eq_ok_iff]
    constructor
    · intro h
      exact Option.eq_none_iff_forall_ne_some.2 fun q hq => h _ (.known hq)
    · rintro hnone f ⟨hq⟩
      cases hnone.symm.trans hq
  · rw [exists_run_eq_ok_iff]
    constructor
    · intro h
      cases hp : m.find? id with
      | none => exact absurd (.unknown a version hp) (h _)
      | some p =>
        have hversion : version = p.version + 1 :=
          not_not.1 fun hne => h _ (.outOfOrder a hp hne)
        exact ⟨p, rfl, hversion, fun f hf => h f (.amendment hp hversion hf)⟩
    · rintro ⟨p, hp, hversion, hp'⟩ f hf
      cases hf with
      | unknown _ _ hnone => cases hp.symm.trans hnone
      | outOfOrder _ hq hne =>
        cases hp.symm.trans hq
        exact hne hversion
      | amendment hq _ hf =>
        cases hp.symm.trans hq
        exact hp' f hf

/-- A new user. -/
def newcomer : Profile :=
  ⟨"kim", "kim", "kim@example.org", 0, "KIM", none, [], 1, clock 0, clock 0, none⟩

/-- A referral of that user. -/
def invitation : Referral :=
  ⟨"r", "KIM", "lee@example.org", .created, clock 1, clock 1⟩

/-- The writes that are taken in, and between them one for each reason why a write is refused. -/
def contested : List (Timestamp × Write) :=
  [(clock 0, .amend "kim" (.addPoints 5) 2), (clock 1, .createUser newcomer),
    (clock 2, .createUser newcomer), (clock 3, .amend "kim" (.addPoints 5) 3),
    (clock 4, .amend "kim" (.addReferral invitation) 2),
    (clock 5, .amend "kim" (.setReferralStatus "s" .completed) 3),
    (clock 6, .amend "kim" (.setReferralStatus "r" .completed) 3),
    (clock 7, .amend "kim" (.addPoints 4294967295) 4), (clock 8, .amend "kim" (.addPoints 1) 5)]

theorem contested_are_atomic :
    Rises "kim" none [.createUser newcomer, .amend "kim" (.addReferral invitation) 2,
        .amend "kim" (.setReferralStatus "r" .completed) 3, .amend "kim" (.addPoints 4294967295) 4]
      ((writeAll empty contested).2.find? "kim") ∧
    (write (clock 9) (.amend "kim" (.addPoints 1) 5)).run (writeAll empty contested).2 =
      .error (.readModel "points overflow for user kim") (writeAll empty contested).2 := by
  have hrises := (writes_are_atomic empty).2.2.2.2 contested "kim"
  have htaken : toUser "kim" (writeAll empty contested).1 =
      [.createUser newcomer, .amend "kim" (.addReferral invitation) 2,
        .amend "kim" (.setReferralStatus "r" .completed) 3,
        .amend "kim" (.addPoints 4294967295) 4] := by decide +kernel
  have hrefuses : ReadModel.write (writeAll empty contested).2 (clock 9)
      (.amend "kim" (.addPoints 1) 5) = .error (.readModel "points overflow for user kim") := by
    decide +kernel
  exact ⟨htaken ▸ hrises,
    ((writes_are_atomic _).1 _ _ _ _).2 ⟨rfl, write_eq_error_iff.1 hrefuses⟩⟩

end InPlace

end ReadModel

end Loyalty
