import Mathlib.Data.List.Lex
import Mathlib.Data.Prod.Lex
import Mathlib.Data.String.Basic
import Loyalty.Proofs.ReadModel.Writing

/-!
# Answers depend on what is known, and on nothing else

The profiles of a read model stand in some order, in which nothing is to be seen: it is the order in
which they came, and it might be any other. `ReadModel.SameRows` says that two read models know the
same of everybody; then their profiles are permutations of each other. The list of users is sorted,
and no two profiles have the same place in it, since nobody has two profiles; so it is the same list.

A search by a code may find any profile with that code. Which one it is can be told only when the
codes of the users that have not left are distinct.

Main statement: what each question is answered with, in terms of who is known.
-/

namespace Loyalty

open Time
open Simulation.Supply (clock)

/-! ## The order of profiles -/

namespace Profile

/-- The place of a profile in a list of users: by the time of the sign-up, then by the identity. -/
def place (p : Profile) : List Int ×ₗ String :=
  toLex (p.createdAt.key, p.userId)

/-- A profile stands earlier in a list of users than another. -/
def Before (p q : Profile) : Prop :=
  p.createdAt.isBefore q.createdAt ∨ p.createdAt = q.createdAt ∧ p.userId < q.userId

theorem notAfter_iff {p q : Profile} : p.notAfter q ↔ p.place ≤ q.place := by
  rw [place, place, Prod.Lex.toLex_le_toLex, Timestamp.key_injective.eq_iff, notAfter]
  simp [Timestamp.isBefore]

theorem before_iff {p q : Profile} : p.Before q ↔ p.place < q.place := by
  rw [place, place, Prod.Lex.toLex_lt_toLex, Timestamp.key_injective.eq_iff, Before]
  simp [Timestamp.isBefore]

theorem userId_eq_of_place {p q : Profile} (h : p.place = q.place) : p.userId = q.userId :=
  (Prod.ext_iff.1 (toLex_inj.1 h)).2

end Profile

namespace ReadModel

/-! ## Read models that know the same -/

/-- Two read models know the same of everybody. -/
def SameRows (m m' : ReadModel) : Prop :=
  ∀ id, m.find? id = m'.find? id

theorem find?_eq_some_iff {m : ReadModel} {id : String} {p : Profile} :
    m.find? id = some p ↔ p ∈ m.profiles ∧ p.userId = id := by
  constructor
  · intro h
    exact ⟨List.mem_of_find?_eq_some h, userId_of_find? h⟩
  · rintro ⟨hp, rfl⟩
    exact find?_of_mem hp

theorem nodup_profiles (m : ReadModel) : m.profiles.Nodup :=
  m.distinct.of_map _

/-- They know the same when they have the same profiles, in whatever order. -/
theorem sameRows_iff_perm {m m' : ReadModel} : m.SameRows m' ↔ m.profiles.Perm m'.profiles := by
  rw [List.perm_ext_iff_of_nodup m.nodup_profiles m'.nodup_profiles]
  constructor
  · intro h p
    have hp := h p.userId
    constructor
    · intro hmem
      exact (find?_eq_some_iff.1 (hp ▸ find?_of_mem hmem)).1
    · intro hmem
      exact (find?_eq_some_iff.1 (hp ▸ find?_of_mem hmem)).1
  · intro h id
    refine Option.ext fun p => ?_
    rw [find?_eq_some_iff, find?_eq_some_iff, h p]

/-! ## The list of users -/

theorem mem_users {m : ReadModel} {p : Profile} :
    p ∈ m.users ↔ m.find? p.userId = some p ∧ p.deletedAt = none := by
  rw [users, List.mem_mergeSort, List.mem_filter, find?_eq_some_iff, Option.isNone_iff_eq_none]
  simp

theorem pairwise_notAfter_users (m : ReadModel) :
    m.users.Pairwise fun p q => p.place ≤ q.place := by
  have htrans : ∀ p q r : Profile, p.notAfter q → q.notAfter r → p.notAfter r := by
    intro p q r hpq hqr
    exact Profile.notAfter_iff.2 ((Profile.notAfter_iff.1 hpq).trans (Profile.notAfter_iff.1 hqr))
  have htotal : ∀ p q : Profile, (p.notAfter q || q.notAfter p) = true := by
    intro p q
    rw [Bool.or_eq_true, Profile.notAfter_iff, Profile.notAfter_iff]
    exact le_total _ _
  exact (List.pairwise_mergeSort htrans htotal _).imp fun h => Profile.notAfter_iff.1 h

theorem nodup_userIds_users (m : ReadModel) : (m.users.map Profile.userId).Nodup := by
  have hperm : m.users.Perm (m.profiles.filter fun p => p.deletedAt.isNone) :=
    List.mergeSort_perm ..
  exact (hperm.map _).nodup_iff.2 (m.distinct.sublist (List.filter_sublist.map _))

/-- Nobody stands at the place of somebody else. -/
theorem pairwise_users (m : ReadModel) : m.users.Pairwise Profile.Before := by
  have hids : m.users.Pairwise fun p q => p.userId ≠ q.userId :=
    List.pairwise_map.1 m.nodup_userIds_users
  refine (m.pairwise_notAfter_users.and hids).imp fun ⟨hle, hne⟩ => ?_
  exact Profile.before_iff.2 (hle.lt_of_ne fun h => hne (Profile.userId_eq_of_place h))

theorem SameRows.users_eq {m m' : ReadModel} (h : m.SameRows m') : m.users = m'.users := by
  have hperm : m.users.Perm m'.users :=
    (List.mergeSort_perm ..).trans
      (((sameRows_iff_perm.1 h).filter _).trans (List.mergeSort_perm ..).symm)
  refine hperm.eq_of_pairwise (fun p q _ _ hpq hqp => ?_) m.pairwise_users m'.pairwise_users
  exact absurd (Profile.before_iff.1 hpq) (Profile.before_iff.1 hqp).asymm

/-! ## The search by a code -/

/-- A user with this code is known who has not left. -/
structure HandsOut (m : ReadModel) (p : Profile) (code : String) : Prop where
  /-- the profile is that of a user who is known -/
  known : m.find? p.userId = some p
  /-- the user has not left -/
  active : p.deletedAt = none
  /-- the code is that of the user -/
  code_eq : p.referralCode = code

theorem handsOut_of_userByReferralCode {m : ReadModel} {code : String} {p : Profile}
    (h : m.userByReferralCode code = .ok p) : m.HandsOut p code := by
  rw [userByReferralCode] at h
  split at h
  · cases h
  · next q hq =>
    cases h
    have hfound := List.find?_some hq
    simp only [Bool.and_eq_true, Option.isNone_iff_eq_none, beq_iff_eq] at hfound
    exact ⟨find?_of_mem (List.mem_of_find?_eq_some hq), hfound.1, hfound.2⟩

theorem userByReferralCode_eq_error_iff {m : ReadModel} {code : String} {f : Failure} :
    m.userByReferralCode code = .error f ↔
      (∀ p, ¬ m.HandsOut p code) ∧ f = .notFound ("referral code " ++ code) := by
  rw [userByReferralCode]
  cases hfind : m.profiles.find? fun p => p.deletedAt.isNone && p.referralCode == code with
  | none =>
    have hnobody : ∀ p, ¬ m.HandsOut p code := by
      intro p hp
      have hnot := List.find?_eq_none.1 hfind p (find?_eq_some_iff.1 hp.known).1
      simp [hp.active, hp.code_eq] at hnot
    simp [hnobody, eq_comm]
  | some q =>
    have hq : m.HandsOut q code :=
      handsOut_of_userByReferralCode (by rw [userByReferralCode, hfind])
    exact ⟨nofun, fun h => absurd hq (h.1 q)⟩

theorem exists_userByReferralCode_eq_ok_iff {m : ReadModel} {code : String} :
    (∃ p, m.userByReferralCode code = .ok p) ↔ ∃ p, m.HandsOut p code := by
  constructor
  · rintro ⟨p, hp⟩
    exact ⟨p, handsOut_of_userByReferralCode hp⟩
  · rintro ⟨p, hp⟩
    cases hresult : m.userByReferralCode code with
    | ok q => exact ⟨q, rfl⟩
    | error f => exact absurd hp ((userByReferralCode_eq_error_iff.1 hresult).1 p)

/-- If nobody else hands out the code, the one who does is found. -/
theorem userByReferralCode_eq_ok {m : ReadModel} {code : String} {p : Profile}
    (hp : m.HandsOut p code) (honly : ∀ q, m.HandsOut q code → q = p) :
    m.userByReferralCode code = .ok p := by
  obtain ⟨q, hq⟩ := exists_userByReferralCode_eq_ok_iff.2 ⟨p, hp⟩
  rw [hq, honly q (handsOut_of_userByReferralCode hq)]

theorem SameRows.handsOut_iff {m m' : ReadModel} (h : m.SameRows m') {code : String} {p : Profile} :
    m.HandsOut p code ↔ m'.HandsOut p code := by
  constructor
  · rintro ⟨hknown, hactive, hcode⟩
    exact ⟨(h _).symm.trans hknown, hactive, hcode⟩
  · rintro ⟨hknown, hactive, hcode⟩
    exact ⟨(h _).trans hknown, hactive, hcode⟩

/-! ## Users by identity -/

theorem user_eq_ok {m : ReadModel} {id : String} {p : Profile} (h : m.find? id = some p) :
    m.user id = .ok p := by
  rw [user, h]

theorem referrals_eq_ok {m : ReadModel} {id : String} {p : Profile} (h : m.find? id = some p) :
    m.referrals id = .ok p.referrals := by
  rw [referrals, user_eq_ok h]
  rfl

/-- Whoever was known once is known after any writes. -/
theorem known_after {m : ReadModel} {id : String} {p : Profile} (h : m.find? id = some p)
    (ws : List (Timestamp × Write)) : ∃ q, (InPlace.writeAll m ws).2.find? id = some q := by
  have hrises := InPlace.rises_writeAll m ws id
  rw [h] at hrises
  generalize InPlace.toUser id (InPlace.writeAll m ws).1 = taken at hrises
  generalize (InPlace.writeAll m ws).2.find? id = row at hrises ⊢
  cases hrises with
  | amended => exact ⟨_, rfl⟩

/-- **Answers depend on what is known, and on nothing else.** Let writes of whatever kind have been
made to two read models, so that in the end both know the same of everybody. Then they list the same
users: all that are known and have not left, each once, by the time of the sign-up and then by the
identity. A search by a code finds somebody exactly when a user with this code is known who has not
left; it finds such a user, and if codes are distinct both find the only one there is. A user is
found by the identity, after leaving as before, and whatever else is written. -/
theorem answers_depend_on_rows (m₁ m₂ : ReadModel) (ws₁ ws₂ : List (Timestamp × Write))
    (hrows : (InPlace.writeAll m₁ ws₁).2.SameRows (InPlace.writeAll m₂ ws₂).2) :
    let m := (InPlace.writeAll m₁ ws₁).2
    let m' := (InPlace.writeAll m₂ ws₂).2
    m.users = m'.users ∧
    (∀ p, p ∈ m.users ↔ m.find? p.userId = some p ∧ p.deletedAt = none) ∧
    m.users.Nodup ∧ m.users.Pairwise Profile.Before ∧
    (∀ code, (∃ p, m.userByReferralCode code = .ok p) ↔ ∃ p, m.HandsOut p code) ∧
    (∀ code p, m.userByReferralCode code = .ok p → m.HandsOut p code) ∧
    (∀ code f, m.userByReferralCode code = .error f → f = .notFound ("referral code " ++ code)) ∧
    ((∀ code p q, m.HandsOut p code → m.HandsOut q code → p = q) →
      ∀ code p, m.HandsOut p code →
        m.userByReferralCode code = .ok p ∧ m'.userByReferralCode code = .ok p) ∧
    (∀ id p, m.find? id = some p → m.user id = .ok p ∧ m.referrals id = .ok p.referrals) ∧
    ∀ id p, m₁.find? id = some p → ∃ q, m.user id = .ok q := by
  intro m m'
  refine ⟨hrows.users_eq, fun p => mem_users, (nodup_userIds_users m).of_map, pairwise_users m,
    fun code => exists_userByReferralCode_eq_ok_iff, fun code p => handsOut_of_userByReferralCode,
    fun code f h => (userByReferralCode_eq_error_iff.1 h).2, fun hdistinct code p hp => ⟨?_, ?_⟩,
    fun id p hp => ⟨user_eq_ok hp, referrals_eq_ok hp⟩, fun id p hp => ?_⟩
  · exact userByReferralCode_eq_ok hp fun q hq => hdistinct code q p hq hp
  · refine userByReferralCode_eq_ok (hrows.handsOut_iff.1 hp) fun q hq => ?_
    exact hdistinct code q p (hrows.handsOut_iff.2 hq) hp
  · obtain ⟨q, hq⟩ := known_after hp ws₁
    exact ⟨q, user_eq_ok hq⟩

/-- The sign-up of a user at a time. -/
def signUp (id : String) (n : Nat) : Timestamp × Write :=
  (clock n, .createUser ⟨id, id, id, 0, id, none, [], 1, clock n, clock n, none⟩)

/-- A user leaves. -/
def departure (id : String) : Timestamp × Write :=
  (clock 9, .amend id (.delete (clock 9)) 2)

/-- The same users have come in another order. -/
theorem arrivals_answered :
    (InPlace.writeAll empty [signUp "lee" 2, signUp "max" 1, departure "max", signUp "kim" 2]).2.users
        = (InPlace.writeAll empty
          [signUp "max" 1, signUp "kim" 2, signUp "lee" 2, departure "max"]).2.users ∧
      ((InPlace.writeAll empty
          [signUp "max" 1, signUp "kim" 2, signUp "lee" 2, departure "max"]).2.users.map
        Profile.userId) = ["kim", "lee"] := by
  have hrows : SameRows
      (InPlace.writeAll empty [signUp "lee" 2, signUp "max" 1, departure "max", signUp "kim" 2]).2
      (InPlace.writeAll empty
        [signUp "max" 1, signUp "kim" 2, signUp "lee" 2, departure "max"]).2 :=
    sameRows_iff_perm.2 (by decide +kernel)
  refine ⟨(answers_depend_on_rows empty empty _ _ hrows).1, ?_⟩
  rw [users, List.mergeSort_of_pairwise (by decide +kernel)]
  decide +kernel

end ReadModel

end Loyalty
