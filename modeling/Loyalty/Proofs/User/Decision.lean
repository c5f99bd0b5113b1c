import Loyalty.Proofs.User.Replay
import Loyalty.User.Decision

/-!
# What rules decide

Whatever the command, a rule that does not refuse it decides on one event: the next of the user,
with a change that the user admits. Someone who signs up is not looked at, and the event is the
first.

A user admits a change when the user has not left, the change is in order by itself and does not
sign up, and a referral that it completes is there. That is nearly all that applying the event
takes; what no rule looks at is whether points fit into the balance.

`Command.Brings` says which change a command brings about, and what the rule for the command asks of
the user besides. So a command is accepted exactly when it brings about a change that is in order.

Main statements: the events that rules decide on; an admitted change can be applied exactly when
the balance holds its points.
-/

namespace Loyalty

/-- A change that a rule may decide upon for a user. -/
structure User.Admits (u : User) (c : Change) : Prop where
  /-- the user has not left -/
  active : u.isDeleted = false
  /-- nothing is wrong with the change -/
  checked : c.checked = .ok c
  /-- nobody signs up twice -/
  not_created : c.type ≠ .userCreated
  /-- a referral that is completed is there -/
  known : ∀ id, c = .referralCompleted id → ∃ r ∈ u.referrals, r.id = id

namespace User

theorem decided_eq_ok_iff {id : String} {version : Nat} {c : Change} {now : Time.Timestamp}
    {es : List Event} :
    decided id version c now = .ok es ↔
      c.checked = .ok c ∧ es = [Event.ofChange id version c now] := by
  rw [decided]
  cases hc : c.checked with
  | ok d =>
    obtain ⟨-, rfl⟩ := Change.checked_eq_ok_iff.1 hc
    exact ⟨fun h => ⟨rfl, (Except.ok.inj h).symm⟩, fun h => h.2 ▸ rfl⟩
  | error f => exact ⟨nofun, fun h => nomatch h.1⟩

/-- A rule for a user who must not have left. -/
theorem requireActive_bind_eq_ok_iff {u : User} {rest : Except Rejection (List Event)}
    {es : List Event} :
    (u.requireActive >>= fun _ => rest) = .ok es ↔ u.isDeleted = false ∧ rest = .ok es := by
  rw [requireActive]
  cases u.isDeleted with
  | true => exact ⟨nofun, fun h => nomatch h.1⟩
  | false => exact ⟨fun h => ⟨rfl, h⟩, fun h => h.2⟩

theorem findReferral_mem {u : User} {email : String} {r : Referral}
    (h : u.findReferral email = some r) : r ∈ u.referrals :=
  List.mem_reverse.1 (List.mem_of_find?_eq_some h)

end User

/-! ## Signing up -/

/-- What someone signs up with, when the code is given that the new user is to hand out. -/
def CreateUser.signUp (c : CreateUser) (fresh : String) : SignUp where
  username := Text.trim c.username
  email := Text.trim c.email
  referralCode := fresh
  referredByCode := User.givenCode c.referredByCode

namespace Command

/-- What the rule for a sign-up decides on, in full. -/
theorem decide_createUser_eq {c : CreateUser} {u : User} {fresh : String} {now : Time.Timestamp}
    {es : List Event} (h : decide u fresh now (.createUser c) = .ok es) :
    (Change.created (c.signUp fresh)).checked = .ok (.created (c.signUp fresh)) ∧
      es = [Event.ofChange c.userId 1 (.created (c.signUp fresh)) now] := by
  rw [decide, CreateUser.decide] at h
  split at h
  · cases h
  · exact User.decided_eq_ok_iff.1 h

/-- What the rule for a sign-up decides on. -/
theorem decide_createUser {c : CreateUser} {u : User} {fresh : String} {now : Time.Timestamp}
    {es : List Event} (h : decide u fresh now (.createUser c) = .ok es) :
    ∃ s, (Change.created s).checked = .ok (.created s) ∧
      es = [Event.ofChange c.userId 1 (.created s) now] :=
  ⟨_, decide_createUser_eq h⟩

/-! ## All other commands -/

/-- The change that a command brings about for a user who has not left. -/
inductive Brings (u : User) (fresh : String) (now : Time.Timestamp) : Command → Change → Prop where
  /-- the user leaves -/
  | deleted (c : DeleteUser) : Brings u fresh now (.deleteUser c) (.deleted now)
  /-- somebody is invited -/
  | invited {c : CreateReferral} {code : String} (hemail : Text.isBlank c.referredUserEmail = false)
    (hcode : u.referralCode = some code) :
    Brings u fresh now (.createReferral c)
      (.referralCreated ⟨fresh, code, Text.trim c.referredUserEmail, .created⟩)
  /-- somebody who was invited has signed up -/
  | completed {c : CompleteReferral} {r : Referral} (hid : Text.isBlank c.referredUserId = false)
    (hcode : u.referralCode = some c.referredByCode)
    (hr : u.findReferral (Text.trim c.referredUserEmail) = some r) :
    Brings u fresh now (.completeReferral c) (.referralCompleted r.id)
  /-- somebody who was not invited has signed up -/
  | recorded {c : CompleteReferral} (hid : Text.isBlank c.referredUserId = false)
    (hcode : u.referralCode = some c.referredByCode)
    (hr : u.findReferral (Text.trim c.referredUserEmail) = none) :
    Brings u fresh now (.completeReferral c)
      (.referralCreated ⟨fresh, c.referredByCode, Text.trim c.referredUserEmail, .completed⟩)
  /-- the user is given points -/
  | earned {c : EarnPoints} (hpoints : c.points ≠ 0) :
    Brings u fresh now (.earnPoints c) (.pointsEarned c.points)

/-- How many points a command gives to the user whom it is about. -/
def points : Command → Nat
  | earnPoints c => c.points.toNat
  | _ => 0

variable {u : User} {fresh : String} {now : Time.Timestamp} {c : Command} {d : Change}

theorem Brings.points_eq (h : Brings u fresh now c d) : d.points = c.points := by
  cases h <;> rfl

theorem Brings.not_created (h : Brings u fresh now c d) : d.type ≠ .userCreated := by
  cases h <;> simp [Change.type]

theorem Brings.not_deleted (h : Brings u fresh now c d) (hc : c.kind ≠ .deleteUser) :
    d.type ≠ .userDeleted := by
  cases h with
  | deleted => exact absurd rfl hc
  | invited | completed | recorded | earned => simp [Change.type]

theorem Brings.known (h : Brings u fresh now c d) (id : String) (hd : d = .referralCompleted id) :
    ∃ r ∈ u.referrals, r.id = id := by
  cases h with
  | @completed c r hid hcode hr =>
    exact ⟨r, User.findReferral_mem hr, Change.referralCompleted.inj hd⟩
  | deleted | invited | recorded | earned => cases hd

/-- A rule that does not refuse a command has found a change that the command brings about. -/
theorem brings_of_decide (hc : c.kind ≠ .createUser) {es : List Event}
    (h : c.decide u fresh now = .ok es) :
    ∃ d, Brings u fresh now c d ∧ (u.requireActive >>= fun _ => u.next d now) = .ok es := by
  cases c with
  | createUser c => exact absurd rfl hc
  | deleteUser c => exact ⟨_, .deleted c, h⟩
  | createReferral c =>
    rw [decide, CreateReferral.decide] at h
    split at h
    · cases h
    · next hemail =>
      rw [Bool.not_eq_true] at hemail
      obtain ⟨hactive, h⟩ := User.requireActive_bind_eq_ok_iff.1 h
      split at h
      · cases h
      · next code hcode =>
        exact ⟨_, .invited hemail hcode, User.requireActive_bind_eq_ok_iff.2 ⟨hactive, h⟩⟩
  | completeReferral c =>
    rw [decide, CompleteReferral.decide] at h
    split at h
    · cases h
    · next hid =>
      rw [Bool.not_eq_true] at hid
      obtain ⟨hactive, h⟩ := User.requireActive_bind_eq_ok_iff.1 h
      split at h
      · next hcode =>
        split at h
        · next r hr =>
          exact ⟨_, .completed hid hcode hr, User.requireActive_bind_eq_ok_iff.2 ⟨hactive, h⟩⟩
        · next hr =>
          exact ⟨_, .recorded hid hcode hr, User.requireActive_bind_eq_ok_iff.2 ⟨hactive, h⟩⟩
      · cases h
  | earnPoints c =>
    rw [decide, EarnPoints.decide] at h
    split at h
    · cases h
    · next hpoints => exact ⟨_, .earned hpoints, h⟩

/-- When a command brings about a change, whether the user has left and whether something is wrong
with the change is all that is left to be decided. -/
theorem Brings.decide_eq (h : Brings u fresh now c d) :
    c.decide u fresh now = u.requireActive >>= fun _ => u.next d now := by
  cases h with
  | deleted c => rfl
  | invited hemail hcode =>
    rw [decide, CreateReferral.decide, hemail, if_neg Bool.false_ne_true, hcode]
  | completed hid hcode hr =>
    rw [decide, CompleteReferral.decide, hid, if_neg Bool.false_ne_true, if_pos hcode, hr]
  | recorded hid hcode hr =>
    rw [decide, CompleteReferral.decide, hid, if_neg Bool.false_ne_true, if_pos hcode, hr]
  | earned hpoints =>
    rw [decide, EarnPoints.decide, if_neg hpoints]

/-- What the other rules decide on: the next event of the user says what the command brings about,
provided that the user has not left and nothing is wrong with the change. -/
theorem decide_eq_ok_iff (hc : c.kind ≠ .createUser) {es : List Event} :
    c.decide u fresh now = .ok es ↔
      ∃ d, u.isDeleted = false ∧ Brings u fresh now c d ∧ d.checked = .ok d ∧
        es = [Event.ofChange u.id (u.version + 1) d now] := by
  have hnext : ∀ {d : Change}, (u.requireActive >>= fun _ => u.next d now) = .ok es ↔
      u.isDeleted = false ∧ d.checked = .ok d ∧
        es = [Event.ofChange u.id (u.version + 1) d now] :=
    User.requireActive_bind_eq_ok_iff.trans (and_congr_right fun _ => User.decided_eq_ok_iff)
  constructor
  · intro h
    obtain ⟨d, hd, h⟩ := brings_of_decide hc h
    obtain ⟨hactive, hchecked⟩ := hnext.1 h
    exact ⟨d, hactive, hd, hchecked⟩
  · rintro ⟨d, hactive, hd, hchecked⟩
    rw [hd.decide_eq]
    exact hnext.2 ⟨hactive, hchecked⟩

/-- What the other rules decide on is admitted by the user. -/
theorem decide_eq_ok (hc : c.kind ≠ .createUser) {es : List Event}
    (h : c.decide u fresh now = .ok es) :
    ∃ d, u.Admits d ∧ es = [Event.ofChange u.id (u.version + 1) d now] := by
  obtain ⟨d, hactive, hd, hchecked, hes⟩ := (decide_eq_ok_iff hc).1 h
  exact ⟨d, ⟨hactive, hchecked, hd.not_created, hd.known⟩, hes⟩

/-- Nobody is removed but by a command to do so. -/
theorem type_of_decide {e : Event} (hc : c.kind ≠ .deleteUser)
    (h : c.decide u fresh now = .ok [e]) : e.type ≠ .userDeleted := by
  by_cases hkind : c.kind = .createUser
  · obtain ⟨c, rfl⟩ := exists_eq_createUser hkind
    obtain ⟨-, he⟩ := decide_createUser_eq h
    rw [(List.cons.inj he).1]
    exact nofun
  · obtain ⟨d, -, hd, -, he⟩ := (decide_eq_ok_iff hkind).1 h
    rw [(List.cons.inj he).1]
    exact hd.not_deleted hc

/-- Whatever is decided gives as many points as the command does. -/
theorem points_of_decide {e : Event} (h : c.decide u fresh now = .ok [e]) : e.points = c.points := by
  by_cases hc : c.kind = .createUser
  · obtain ⟨c, rfl⟩ := exists_eq_createUser hc
    obtain ⟨hs, he⟩ := decide_createUser_eq h
    rw [(List.cons.inj he).1, Event.points_eq (Event.decode_ofChange hs _ _ _)]
    rfl
  · obtain ⟨d, -, hd, hchecked, he⟩ := (decide_eq_ok_iff hc).1 h
    rw [(List.cons.inj he).1, Event.points_eq (Event.decode_ofChange hchecked _ _ _),
      Change.points_carried, hd.points_eq]

end Command

namespace User

/-- An event that says the change which is shown of what it was made to say. -/
theorem applyEvent_ofChange {u w : User} {id : String} {version : Nat} {c : Change}
    {now : Time.Timestamp} (hc : c.checked = .ok c) (hw : u.change now c.carried = .ok w) :
    ∃ v, u.applyEvent (Event.ofChange id version c now) = .ok v :=
  ⟨_, applyEvent_eq_ok_iff.2 ⟨c.carried, w, Event.decode_ofChange hc id version now, hw, rfl⟩⟩

/-- An admitted change can be applied exactly when the balance holds its points. -/
theorem applyEvent_admitted_iff {u : User} {c : Change} (hc : u.Admits c) {id : String}
    {version : Nat} {now : Time.Timestamp} :
    (∃ v, u.applyEvent (Event.ofChange id version c now) = .ok v) ↔
      u.points.toNat + c.points < Text.word32 := by
  have hpoints : u.points.toNat < Text.word32 := UInt32.toNat_lt u.points
  -- A change that gives no points leaves the balance in bounds.
  have happlies : ∀ {w}, u.change now c.carried = .ok w → c.points = 0 →
      ((∃ v, u.applyEvent (Event.ofChange id version c now) = .ok v) ↔
        u.points.toNat + c.points < Text.word32) := by
    intro w hw hzero
    rw [hzero, Nat.add_zero]
    exact ⟨fun _ => hpoints, fun _ => applyEvent_ofChange hc.checked hw⟩
  cases c with
  | created s => exact absurd rfl hc.not_created
  | deleted t => exact happlies rfl rfl
  | referralCreated i => exact happlies rfl rfl
  | referralCompleted referralId =>
    obtain ⟨r, hr, hid⟩ := hc.known referralId rfl
    obtain ⟨i, hi⟩ : ∃ i, u.referrals.findIdx? (fun r => r.id = referralId) = some i := by
      refine Option.ne_none_iff_exists'.1 fun hnone => ?_
      have := List.findIdx?_eq_none_iff.1 hnone r hr
      simp [hid] at this
    have hw : u.change now (.referralCompleted referralId) =
        .ok { u with referrals := u.referrals.modify i fun r => r.completedAt now } := by
      rw [change, hi]
    exact happlies hw rfl
  | pointsEarned n =>
    constructor
    · rintro ⟨v, hv⟩
      obtain ⟨d, w, hd, hw, -⟩ := applyEvent_eq_ok_iff.1 hv
      rw [Event.decode_ofChange hc.checked] at hd
      cases hd
      rw [← Change.points_carried, ← (effect_change hw).points_eq]
      exact UInt32.toNat_lt w.points
    · intro hlt
      have hsum : u.points.add? n = some (u.points + n) := if_pos hlt
      have hw : u.change now (.pointsEarned n) = .ok { u with points := u.points + n } := by
        rw [change, hsum]
      exact applyEvent_ofChange hc.checked hw

end User

end Loyalty
