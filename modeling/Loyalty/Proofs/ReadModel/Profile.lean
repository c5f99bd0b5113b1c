import Mathlib.Data.List.Nodup
import Loyalty.Proofs.User.Replay
import Loyalty.ReadModel.Projection

/-!
# Profiles and users

An event does two things: it changes the user to whom a history replays, and it amounts to a write
to the read model. The two go their own ways. A replay puts in whatever it is given, and a write is
taken in only if it belongs to the next version; a replay dates a change by the event, and some
writes are dated by the clock.

`Profile.Shows` is what they agree on: everything but the time of the last change.
`Write.Makes` says what a write makes of the profile of its user.

Main statements: the write of a sign-up makes a profile that shows the new user; the write of any
other event can be taken in exactly when the event can be applied, and then the profile shows the
user afterwards when it showed the user before.
-/

namespace Loyalty

open Time

/-- All of a referral but the time of its last change. -/
def Referral.undated (r : Referral) : String × String × String × ReferralStatus × Timestamp :=
  (r.id, r.referralCode, r.referredUserEmail, r.status, r.createdAt)

/-- A profile shows a user: they agree on everything but the times of the last changes. -/
structure Profile.Shows (p : Profile) (u : User) : Prop where
  /-- the identity -/
  id_eq : p.userId = u.id
  /-- the name -/
  username_eq : p.username = u.username
  /-- the address -/
  email_eq : p.email = u.email
  /-- the balance -/
  points_eq : p.points = u.points
  /-- the code that the user hands out -/
  referralCode_eq : some p.referralCode = u.referralCode
  /-- the code with which the user came -/
  referredByCode_eq : p.referredByCode = u.referredByCode
  /-- whom the user referred, in order -/
  referrals_eq : p.referrals.map Referral.undated = u.referrals.map Referral.undated
  /-- the version -/
  version_eq : p.version = u.version
  /-- when the user signed up -/
  createdAt_eq : some p.createdAt = u.createdAt
  /-- when the user left -/
  deletedAt_eq : p.deletedAt = u.deletedAt

/-! ## What a write does -/

/-- What a write makes, at a time, of the profile of its user. -/
inductive Write.Makes (now : Timestamp) : Write → Option Profile → Profile → Prop where
  /-- a user without a profile gets the profile that is written -/
  | created (p : Profile) : Makes now (.createUser p) none p
  /-- a profile is amended and taken to the next version -/
  | amended {p q : Profile} {id : String} {a : Amendment} {version : Nat}
    (hversion : version = p.version + 1) (h : p.amend now a = .ok q) :
    Makes now (.amend id a version) (some p) { q with version := version }

namespace Profile

/-- What an amendment, at a time, makes of a profile. -/
inductive Amended (now : Timestamp) (p : Profile) : Amendment → Profile → Prop where
  /-- the user has left -/
  | left (t : Timestamp) : Amended now p (.delete t) { p with deletedAt := some t, updatedAt := t }
  /-- the user has referred one more -/
  | referred (r : Referral) : Amended now p (.addReferral r)
      { p with updatedAt := r.updatedAt, referrals := p.referrals ++ [r] }
  /-- a referral has come further -/
  | furthered {id : String} (status : ReferralStatus) {i : Nat}
    (hi : p.referrals.findIdx? (fun r => r.id = id) = some i) :
    Amended now p (.setReferralStatus id status)
      { p with
        referrals := p.referrals.modify i fun r => { r with status := status, updatedAt := now } }
  /-- the user has more points -/
  | credited {n total : Points} (htotal : p.points.add? n = some total) :
    Amended now p (.addPoints n) { p with points := total, updatedAt := now }

theorem amend_eq_ok_iff {p q : Profile} {now : Timestamp} {a : Amendment} :
    p.amend now a = .ok q ↔ Amended now p a q := by
  constructor
  · intro h
    cases a with
    | delete t =>
      cases h
      exact .left t
    | addReferral r =>
      cases h
      exact .referred r
    | setReferralStatus id status =>
      rw [amend] at h
      split at h
      · cases h
      · next i hi =>
        cases h
        exact .furthered status hi
    | addPoints n =>
      rw [amend] at h
      split at h
      · cases h
      · next total htotal =>
        cases h
        exact .credited htotal
  · intro h
    cases h with
    | left | referred => rfl
    | furthered status hi => rw [amend, hi]
    | credited htotal => rw [amend, htotal]

/-- An amended profile is still that of the same user. -/
theorem userId_of_amend {p q : Profile} {now : Timestamp} {a : Amendment}
    (h : p.amend now a = .ok q) : q.userId = p.userId := by
  cases amend_eq_ok_iff.1 h <;> rfl

end Profile

namespace ReadModel

/-- Every profile is found. -/
theorem find?_of_mem {m : ReadModel} {p : Profile} (hp : p ∈ m.profiles) :
    m.find? p.userId = some p := by
  cases hfind : m.find? p.userId with
  | none =>
    have hnone := List.find?_eq_none.1 hfind p hp
    simp at hnone
  | some q =>
    have hq : q ∈ m.profiles := List.mem_of_find?_eq_some hfind
    rw [List.inj_on_of_nodup_map m.distinct hq hp (userId_of_find? hfind)]

/-- What a write that was taken in has done: one profile was made, and no other has changed. -/
theorem makes_of_write {m m' : ReadModel} {now : Timestamp} {wr : Write}
    (h : m.write now wr = .ok m') :
    ∃ p, wr.Makes now (m.find? wr.userId) p ∧
      ∀ id, m'.find? id = if id = wr.userId then some p else m.find? id := by
  cases wr with
  | createUser p =>
    rw [write, create] at h
    split at h
    · cases h
    · next hnone =>
      cases h
      refine ⟨p, ?_, m.find?_add p hnone⟩
      rw [Write.userId, hnone]
      exact .created p
  | amend id a version =>
    rw [write, amend] at h
    split at h
    · cases h
    · next p hp =>
      split at h
      · next hversion =>
        obtain ⟨q, hq, hm⟩ := eq_ok_of_bind h
        cases hm
        have hid : q.userId = id := (Profile.userId_of_amend hq).trans (userId_of_find? hp)
        refine ⟨{ q with version := version }, ?_, fun other => ?_⟩
        · rw [Write.userId, hp]
          exact .amended hversion hq
        · rw [find?_replace, Write.userId, hid]
          split
          · next hother => rw [hother, hp, Option.map_some]
          · rfl
      · cases h

/-- A write that can make a profile is taken in. -/
theorem write_of_makes {m : ReadModel} {now : Timestamp} {wr : Write} {p : Profile}
    (h : wr.Makes now (m.find? wr.userId) p) : ∃ m', m.write now wr = .ok m' := by
  generalize hrow : m.find? wr.userId = row at h
  cases h with
  | created p =>
    refine ⟨m.add p hrow, ?_⟩
    rw [write, create]
    split
    · next known hknown => cases hknown.symm.trans hrow
    · rfl
  | @amended p q id a version hversion hq =>
    refine ⟨m.replace { q with version := version }, ?_⟩
    rw [Write.userId] at hrow
    rw [write, amend, hrow]
    simp only [if_pos hversion, hq]
    rfl

end ReadModel

/-! ## Writes and events -/

namespace Projection

/-- The write that an event amounts to. -/
def writeFor (e : Event) : Except Failure Write :=
  e.decode.map (writeOf e.aggregateId e.version e.eventAt)

theorem writeFor_eq_ok_iff {e : Event} {wr : Write} :
    writeFor e = .ok wr ↔
      ∃ c, e.decode = .ok c ∧ wr = writeOf e.aggregateId e.version e.eventAt c := by
  rw [writeFor]
  cases e.decode with
  | error f => exact ⟨nofun, fun ⟨_, hc, _⟩ => nomatch hc⟩
  | ok c =>
    constructor
    · intro h
      exact ⟨c, rfl, (Except.ok.inj h).symm⟩
    · rintro ⟨_, hc, rfl⟩
      cases hc
      rfl

/-- A write is to the profile of the user of the event. -/
theorem userId_of_writeFor {e : Event} {wr : Write} (h : writeFor e = .ok wr) :
    wr.userId = e.aggregateId := by
  obtain ⟨c, -, rfl⟩ := writeFor_eq_ok_iff.1 h
  cases c <;> rfl

/-- A write makes a profile of the version of its event. -/
theorem version_of_makes {e : Event} {wr : Write} (h : writeFor e = .ok wr) {now : Timestamp}
    {row : Option Profile} {p : Profile} (hp : wr.Makes now row p) : p.version = e.version := by
  obtain ⟨c, -, rfl⟩ := writeFor_eq_ok_iff.1 h
  cases c <;> cases hp <;> rfl

end Projection

namespace Profile

open Projection

/-- The profile that a sign-up makes shows the user who signed up. -/
theorem shows_of_created {e : Event} {now : Timestamp} {wr : Write} {p : Profile}
    (hwr : writeFor e = .ok wr) (hp : wr.Makes now none p) :
    ∃ u, (User.new e.aggregateId).applyEvent e = .ok u ∧ p.Shows u := by
  obtain ⟨c, hc, rfl⟩ := writeFor_eq_ok_iff.1 hwr
  cases c with
  | created s =>
    cases hp
    exact ⟨_, User.applyEvent_eq_ok_iff.2 ⟨_, _, hc, rfl, rfl⟩,
      ⟨rfl, rfl, rfl, rfl, rfl, rfl, rfl, rfl, rfl, rfl⟩⟩
  | deleted | referralCreated | referralCompleted | pointsEarned => cases hp

/-- A referral stands at the same place in a profile and in the user whom it shows. -/
theorem Shows.findIdx?_eq {p : Profile} {u : User} (h : p.Shows u) (id : String) :
    p.referrals.findIdx? (fun r => r.id = id) = u.referrals.findIdx? fun r => r.id = id := by
  have hundated (rs : List Referral) : rs.findIdx? (fun r => r.id = id) =
      (rs.map Referral.undated).findIdx? fun x => x.1 = id := by
    rw [List.findIdx?_map]
    rfl
  rw [hundated, hundated, h.referrals_eq]

/-- It does not show when a referral was completed. -/
theorem map_undated_modify (rs : List Referral) (i : Nat) (t : Timestamp) :
    (rs.modify i fun r => r.completedAt t).map Referral.undated =
      (rs.map Referral.undated).modify i fun x => (x.1, x.2.1, x.2.2.1, .completed, x.2.2.2.2) := by
  refine List.ext_getElem? fun j => ?_
  rw [List.getElem?_map, List.getElem?_modify, List.getElem?_modify, List.getElem?_map]
  cases rs[j]? with
  | none => rfl
  | some r =>
    by_cases hij : i = j
    · simp only [Functor.map, Option.map_some, hij, if_true]
      rfl
    · simp [hij]

/-- An event of a user who is shown can be applied when its write can be taken in, and the profile
that it makes shows the user afterwards. -/
theorem Shows.of_makes {p q : Profile} {u : User} (h : p.Shows u) {e : Event} {now : Timestamp}
    {wr : Write} (hwr : writeFor e = .ok wr) (hq : wr.Makes now (some p) q) :
    ∃ v, u.applyEvent e = .ok v ∧ q.Shows v := by
  have hversion : q.version = e.version := version_of_makes hwr hq
  obtain ⟨c, hc, hwrite⟩ := writeFor_eq_ok_iff.1 hwr
  cases hq with
  | @amended _ q id a version _ hamend =>
  cases c with
  | created s => cases hwrite
  | deleted t =>
    cases hwrite
    cases hamend
    exact ⟨_, User.applyEvent_eq_ok_iff.2 ⟨_, _, hc, rfl, rfl⟩,
      ⟨h.id_eq, h.username_eq, h.email_eq, h.points_eq, h.referralCode_eq, h.referredByCode_eq,
        h.referrals_eq, hversion, h.createdAt_eq, rfl⟩⟩
  | referralCreated i =>
    cases hwrite
    cases hamend
    refine ⟨_, User.applyEvent_eq_ok_iff.2 ⟨_, _, hc, rfl, rfl⟩,
      ⟨h.id_eq, h.username_eq, h.email_eq, h.points_eq, h.referralCode_eq, h.referredByCode_eq,
        ?_, hversion, h.createdAt_eq, h.deletedAt_eq⟩⟩
    rw [List.map_append, List.map_append, h.referrals_eq]
  | referralCompleted referralId =>
    cases hwrite
    cases amend_eq_ok_iff.1 hamend with | @furthered _ _ i hi =>
    rw [h.findIdx?_eq] at hi
    have hchange : u.change e.eventAt (.referralCompleted referralId) =
        .ok { u with referrals := u.referrals.modify i fun r => r.completedAt e.eventAt } := by
      rw [User.change, hi]
    refine ⟨_, User.applyEvent_eq_ok_iff.2 ⟨_, _, hc, hchange, rfl⟩,
      ⟨h.id_eq, h.username_eq, h.email_eq, h.points_eq, h.referralCode_eq, h.referredByCode_eq,
        ?_, hversion, h.createdAt_eq, h.deletedAt_eq⟩⟩
    refine (map_undated_modify p.referrals i now).trans ?_
    rw [h.referrals_eq, map_undated_modify]
  | pointsEarned n =>
    cases hwrite
    cases amend_eq_ok_iff.1 hamend with | @credited _ total htotal =>
    rw [h.points_eq] at htotal
    have hchange : u.change e.eventAt (.pointsEarned n) = .ok { u with points := total } := by
      rw [User.change, htotal]
    exact ⟨_, User.applyEvent_eq_ok_iff.2 ⟨_, _, hc, hchange, rfl⟩,
      ⟨h.id_eq, h.username_eq, h.email_eq, rfl, h.referralCode_eq, h.referredByCode_eq,
        h.referrals_eq, hversion, h.createdAt_eq, h.deletedAt_eq⟩⟩

/-- The write of the next event can be taken in when the event can be applied. -/
theorem Shows.makes {p : Profile} {u v : User} (h : p.Shows u) {e : Event}
    (hv : u.applyEvent e = .ok v) (htype : e.type ≠ .userCreated)
    (hversion : e.version = p.version + 1) (now : Timestamp) :
    ∃ wr q, writeFor e = .ok wr ∧ wr.Makes now (some p) q := by
  obtain ⟨c, w, hc, hw, -⟩ := User.applyEvent_eq_ok_iff.1 hv
  have hamend : ∀ {a : Amendment},
      writeOf e.aggregateId e.version e.eventAt c = .amend e.aggregateId a e.version →
        (∃ q, p.amend now a = .ok q) → ∃ wr q, writeFor e = .ok wr ∧ wr.Makes now (some p) q := by
    rintro a hwrite ⟨q, hq⟩
    refine ⟨_, { q with version := e.version }, writeFor_eq_ok_iff.2 ⟨c, hc, rfl⟩, ?_⟩
    rw [hwrite]
    exact .amended hversion hq
  cases c with
  | created s => exact absurd (Event.type_of_decode hc).symm htype
  | deleted t => exact hamend rfl ⟨_, amend_eq_ok_iff.2 (.left t)⟩
  | referralCreated i => exact hamend rfl ⟨_, amend_eq_ok_iff.2 (.referred _)⟩
  | referralCompleted referralId =>
    rw [User.change, ← h.findIdx?_eq] at hw
    split at hw
    · cases hw
    · next i hi => exact hamend rfl ⟨_, amend_eq_ok_iff.2 (.furthered _ hi)⟩
  | pointsEarned n =>
    rw [User.change, ← h.points_eq] at hw
    split at hw
    · cases hw
    · next total htotal => exact hamend rfl ⟨_, amend_eq_ok_iff.2 (.credited htotal)⟩

end Profile

end Loyalty
