import Loyalty.Proofs.User.Decision
import Loyalty.Simulation.Supply

/-!
# What comes of a command that is accepted

Between a command and what becomes of the user stand a rule, the gate for what the rule decides, a
payload that is written, the same payload read and looked at again, and the change that it makes.
`Command.Yields` says what comes out at the other end, without any of them, in full: what is not
named there stays as it was. It is said of every user, also of one that no history replays to.

Two things only can come between. Points that do not fit are accepted, and cannot be applied. And
the time at which a user leaves goes through a payload, so what the user is left with is the time
that is shown there.

Main statement: an accepted command is one event, the next of its user, that can be read; and
applying it yields what the command asks for.
-/

namespace Loyalty

open Time
open Simulation.Supply (clock)

/-- The code with which someone came, without white space around it. A blank one is none. -/
def CreateUser.broughtCode (c : CreateUser) : Option String :=
  c.referredByCode.bind fun code => if Text.isBlank code then none else some (Text.trim code)

theorem CreateUser.givenCode_eq (c : CreateUser) :
    User.givenCode c.referredByCode = c.broughtCode := by
  rw [User.givenCode, broughtCode]
  cases c.referredByCode with
  | none => rfl
  | some code =>
    simp only [Option.map_some, Option.bind_some, Option.filter_some, ne_eq, decide_not,
      Bool.not_eq_true', decide_eq_false_iff_not, Text.isBlank_iff_trim_eq_empty]
    by_cases hblank : Text.trim code = ""
    · simp [hblank]
    · simp [hblank]

namespace Command

/-- The user to whom the event of a command is applied. Of someone who signs up nothing is known
yet. -/
def subject (u : User) : Command → User
  | createUser c => .new c.userId
  | deleteUser _ | createReferral _ | completeReferral _ | earnPoints _ => u

/-- What an accepted command makes of its user. -/
inductive Yields (u : User) (fresh : String) (now : Timestamp) : Command → User → Prop where
  /-- somebody has signed up -/
  | signedUp (c : CreateUser) :
    Yields u fresh now (.createUser c)
      { User.new c.userId with
        version := 1
        username := Text.trim c.username
        email := Text.trim c.email
        referralCode := some fresh
        referredByCode := c.broughtCode
        createdAt := some now
        updatedAt := some now }
  /-- the user has left, at this time as it is shown -/
  | left (c : DeleteUser) :
    Yields u fresh now (.deleteUser c)
      { u with version := u.version + 1, updatedAt := some now, deletedAt := some now.carried }
  /-- somebody has been invited, with the code of the user -/
  | invited (c : CreateReferral) {code : String} (hcode : u.referralCode = some code) :
    Yields u fresh now (.createReferral c)
      { u with
        version := u.version + 1
        updatedAt := some now
        referrals := u.referrals ++
          [⟨fresh, code, Text.trim c.referredUserEmail, .created, now, now⟩] }
  /-- the referrals have changed, and nothing else -/
  | completed (c : CompleteReferral) (referrals : List Referral) :
    Yields u fresh now (.completeReferral c)
      { u with version := u.version + 1, updatedAt := some now, referrals := referrals }
  /-- points have been added -/
  | earned (c : EarnPoints) {total : Points}
    (htotal : total.toNat = u.points.toNat + c.points.toNat) :
    Yields u fresh now (.earnPoints c)
      { u with version := u.version + 1, updatedAt := some now, points := total }

variable {u w : User} {fresh : String} {now : Timestamp} {c : Command} {d : Change}

/-- Whoever has left has left now, unless now is shown as another time. -/
theorem Yields.deletedAt_iff {v : User} {c : DeleteUser}
    (h : Yields u fresh now (.deleteUser c) v) : v.deletedAt = some now ↔ now.Regular := by
  cases h
  rw [Option.some.injEq, Timestamp.carried_eq_self_iff]

/-- What is shown of what a command brings about yields what the command asks for. -/
theorem Brings.yields (h : Brings u fresh now c d) (hw : u.change now d.carried = .ok w) :
    Yields u fresh now c { w with updatedAt := some now, version := u.version + 1 } := by
  cases h with
  | deleted c =>
    cases hw
    exact .left c
  | invited hemail hcode =>
    cases hw
    exact .invited _ hcode
  | completed hid hcode hr =>
    rw [Change.carried, User.change] at hw
    split at hw
    · cases hw
    · cases hw
      exact .completed _ _
  | recorded hid hcode hr =>
    cases hw
    exact .completed _ _
  | earned hpoints =>
    rw [Change.carried, User.change] at hw
    split at hw
    · cases hw
    · next total htotal =>
      cases hw
      exact .earned _ (Points.add?_eq_some_iff.1 htotal).symm

/-- Points that fit are all that a command may lack. -/
theorem fits_iff (u : User) (c : Command) :
    u.points.toNat + c.points < Text.word32 ↔
      ∀ p, c = .earnPoints p → u.points.toNat + p.points.toNat < Text.word32 := by
  have hpoints : u.points.toNat < Text.word32 := UInt32.toNat_lt u.points
  cases c with
  | earnPoints p =>
    constructor
    · rintro hfits _ ⟨⟩
      exact hfits
    · intro hfits
      exact hfits p rfl
  | createUser | deleteUser | createReferral | completeReferral =>
    refine ⟨fun _ p hc => ?_, fun _ => hpoints⟩
    cases hc

end Command

theorem User.apply_singleton_eq_ok_iff {u v : User} {e : Event} :
    u.apply [e] = ⟨v, none⟩ ↔ u.applyEvent e = .ok v := by
  rw [apply, History.sorted_eq_self (List.pairwise_singleton _ e), applyInOrder]
  cases u.applyEvent e with
  | ok w => simp [applyInOrder]
  | error f => simp

namespace Command

/-- What an accepted command comes to: one event, the next of its user, which can be read; and the
user whom applying the event leads to, unless points do not fit. -/
structure Fulfilled (u : User) (fresh : String) (now : Timestamp) (c : Command) (e : Event) :
    Prop where
  /-- the event is about the user -/
  aggregateId_eq : e.aggregateId = (c.subject u).id
  /-- it is the next event of the user -/
  version_eq : e.version = (c.subject u).version + 1
  /-- it comes about now -/
  eventAt_eq : e.eventAt = now
  /-- it says something -/
  readable : ∃ d, e.decode = .ok d
  /-- it can be applied, provided that points which are given fit -/
  applicable_iff : (∃ v, (c.subject u).apply [e] = ⟨v, none⟩) ↔
    ∀ p, c = .earnPoints p → u.points.toNat + p.points.toNat < Text.word32
  /-- what it makes of the user is what the command asks for -/
  yields : ∀ v, (c.subject u).apply [e] = ⟨v, none⟩ → c.Yields u fresh now v
  /-- the user who leaves has left now, if now is regular, and only then -/
  deletedAt_iff : ∀ d, c = .deleteUser d → ∀ v, (c.subject u).apply [e] = ⟨v, none⟩ →
    (v.deletedAt = some now ↔ now.Regular)

theorem fulfilled_createUser {u : User} {fresh : String} {now : Timestamp} {c : CreateUser}
    {es : List Event} (h : decide u fresh now (.createUser c) = .ok es) :
    ∃ e, es = [e] ∧ Fulfilled u fresh now (.createUser c) e := by
  obtain ⟨hchecked, rfl⟩ := decide_createUser_eq h
  have hdecode := Event.decode_ofChange hchecked c.userId 1 now
  have happlied := User.applyEvent_of_decode (u := .new c.userId) hdecode
  rw [Change.carried, User.change] at happlied
  refine ⟨_, rfl, rfl, rfl, rfl, ⟨_, hdecode⟩, ⟨?_, fun _ => ?_⟩, fun v hv => ?_, ?_⟩
  · rintro - p ⟨⟩
  · exact ⟨_, User.apply_singleton_eq_ok_iff.2 happlied⟩
  · cases happlied.symm.trans (User.apply_singleton_eq_ok_iff.1 hv)
    rw [CreateUser.signUp, c.givenCode_eq]
    exact .signedUp c
  · rintro s ⟨⟩

theorem fulfilled_of_ne {u : User} {fresh : String} {now : Timestamp} {c : Command}
    (hc : c.kind ≠ .createUser) {es : List Event} (h : c.decide u fresh now = .ok es) :
    ∃ e, es = [e] ∧ Fulfilled u fresh now c e := by
  obtain ⟨d, hactive, hd, hchecked, rfl⟩ := (decide_eq_ok_iff hc).1 h
  have hdecode := Event.decode_ofChange hchecked u.id (u.version + 1) now
  have hsubject : c.subject u = u := by
    cases c with
    | createUser c => exact absurd rfl hc
    | deleteUser | createReferral | completeReferral | earnPoints => rfl
  have hadmits : u.Admits d := ⟨hactive, hchecked, hd.not_created, hd.known⟩
  have hfits : (∃ v, u.applyEvent (.ofChange u.id (u.version + 1) d now) = .ok v) ↔
      u.points.toNat + d.points < Text.word32 := User.applyEvent_admitted_iff hadmits
  rw [hd.points_eq, fits_iff] at hfits
  have hyields : ∀ v, (c.subject u).apply [.ofChange u.id (u.version + 1) d now] = ⟨v, none⟩ →
      c.Yields u fresh now v := by
    intro v hv
    rw [hsubject, User.apply_singleton_eq_ok_iff] at hv
    obtain ⟨d', w, hd', hw, rfl⟩ := User.applyEvent_eq_ok_iff.1 hv
    cases hdecode.symm.trans hd'
    exact hd.yields hw
  refine ⟨_, rfl, ?_, ?_, rfl, ⟨d.carried, hdecode⟩, ?_, hyields, ?_⟩
  · rw [hsubject]
    rfl
  · rw [hsubject]
    rfl
  · simpa only [hsubject, User.apply_singleton_eq_ok_iff] using hfits
  · rintro c rfl v hv
    exact (hyields v hv).deletedAt_iff

/-- Nobody who has left accepts a command. -/
theorem rejected_of_deleted {u : User} {fresh : String} {now : Timestamp} {c : Command}
    (hc : c.kind ≠ .createUser) (hu : u.isDeleted = true) :
    ∃ r, c.decide u fresh now = .error r := by
  cases h : c.decide u fresh now with
  | error r => exact ⟨r, rfl⟩
  | ok es =>
    obtain ⟨d, hactive, -⟩ := (decide_eq_ok_iff hc).1 h
    cases hu.symm.trans hactive

end Command

/-- **Deciding and applying.** A command that is accepted is one event, the next of its user, that
can be read; applying it yields what the command asks for, unless it gives points that do not fit.
A user who leaves has left now exactly when now is shown as it is. Of a user who has left every
command is refused but a sign-up, which looks at nobody. -/
theorem accepted_is_fulfilled (u : User) (c : Command) (fresh : String) (now : Timestamp) :
    (∀ es, c.decide u fresh now = .ok es →
      ∃ e, es = [e] ∧ Command.Fulfilled u fresh now c e) ∧
    (u.isDeleted = true → c.kind ≠ .createUser → ∃ r, c.decide u fresh now = .error r) := by
  refine ⟨fun es h => ?_, fun hu hc => Command.rejected_of_deleted hc hu⟩
  by_cases hc : c.kind = .createUser
  · obtain ⟨s, rfl⟩ := Command.exists_eq_createUser hc
    exact Command.fulfilled_createUser h
  · exact Command.fulfilled_of_ne hc h

/-- Someone signs up with white space all around, and with a code that is nothing else. -/
def CreateUser.padded : CreateUser :=
  ⟨"v", "\u3000zoe ", "\tz@x\n", some " \u00a0"⟩

/-- A user with few points short of all there are. -/
def User.wealthy : User :=
  { User.new "u" with version := 7, points := 4294967290, updatedAt := some (clock 1) }

/-- A user who has left. -/
def User.gone : User :=
  { User.wealthy with deletedAt := some (clock 2) }

theorem padded_is_fulfilled :
    (∃ e, (Command.createUser .padded).decide .gone "Z" (clock 9) = .ok [e] ∧
      (User.new "v").apply [e] =
        ⟨⟨"v", 1, "zoe", "z@x", 0, some "Z", none, [], some (clock 9), some (clock 9), none⟩,
          none⟩) ∧
    (∃ e, (Command.earnPoints ⟨"u", 5⟩).decide .wealthy "" (clock 9) = .ok [e] ∧
      User.wealthy.apply [e] =
        ⟨{ User.wealthy with version := 8, points := 4294967295, updatedAt := some (clock 9) },
          none⟩) ∧
    (∃ e, (Command.earnPoints ⟨"u", 6⟩).decide .wealthy "" (clock 9) = .ok [e] ∧
      ¬ ∃ v, User.wealthy.apply [e] = ⟨v, none⟩) ∧
    User.gone.isDeleted = true ∧ (Command.deleteUser ⟨"u"⟩).kind ≠ .createUser ∧
      ∃ r, (Command.deleteUser ⟨"u"⟩).decide .gone "" (clock 9) = .error r := by
  have hsignUp : (Command.createUser .padded).decide .gone "Z" (clock 9) =
      .ok [.ofChange "v" 1 (.created ⟨"zoe", "z@x", "Z", none⟩) (clock 9)] := by
    decide +kernel
  have hfits : (Command.earnPoints ⟨"u", 5⟩).decide .wealthy "" (clock 9) =
      .ok [.ofChange "u" 8 (.pointsEarned 5) (clock 9)] := by
    decide +kernel
  have hexcess : (Command.earnPoints ⟨"u", 6⟩).decide .wealthy "" (clock 9) =
      .ok [.ofChange "u" 8 (.pointsEarned 6) (clock 9)] := by
    decide +kernel
  refine ⟨?_, ?_, ?_, rfl, by decide, ?_⟩
  · obtain ⟨e, he, h⟩ := (accepted_is_fulfilled _ _ _ _).1 _ hsignUp
    obtain ⟨v, hv⟩ := h.applicable_iff.2 fun p hp => nomatch hp
    refine ⟨e, hsignUp.trans (congrArg _ he), hv.trans ?_⟩
    cases h.yields v hv
    decide +kernel
  · obtain ⟨e, he, h⟩ := (accepted_is_fulfilled _ _ _ _).1 _ hfits
    obtain ⟨v, hv⟩ := h.applicable_iff.2 fun p hp => by
      cases hp
      decide
    refine ⟨e, hfits.trans (congrArg _ he), hv.trans ?_⟩
    cases h.yields v hv with
    | earned _ htotal =>
      obtain rfl := UInt32.toNat_inj.1 (htotal.trans (by decide : _ = (4294967295 : Points).toNat))
      rfl
  · obtain ⟨e, he, h⟩ := (accepted_is_fulfilled _ _ _ _).1 _ hexcess
    refine ⟨e, hexcess.trans (congrArg _ he), fun happlied => ?_⟩
    exact absurd (h.applicable_iff.1 happlied _ rfl) (by decide)
  · exact (accepted_is_fulfilled .gone (.deleteUser ⟨"u"⟩) "" (clock 9)).2 rfl (by decide)

/-- A time whose nanoseconds hold a full second more, in the middle of a minute. -/
def Time.overlongClock : Timestamp :=
  { clock 9 with nano := 1250000000, nano_lt := by decide }

/-- Whoever leaves at that time has left in the second after it. -/
theorem overlongClock_not_kept :
    ∃ e, (Command.deleteUser ⟨"u"⟩).decide .wealthy "" overlongClock = .ok [e] ∧
      ∃ v, User.wealthy.apply [e] = ⟨v, none⟩ ∧ v.deletedAt ≠ some overlongClock ∧
        v.deletedAt = some overlongClock.carried := by
  have hleaves : (Command.deleteUser ⟨"u"⟩).decide .wealthy "" overlongClock =
      .ok [.ofChange "u" 8 (.deleted overlongClock) overlongClock] := by
    decide +kernel
  obtain ⟨e, he, h⟩ := Command.fulfilled_of_ne (by decide) hleaves
  obtain ⟨v, hv⟩ := h.applicable_iff.2 fun p hp => nomatch hp
  have hlater : ¬ overlongClock.Regular := by decide +kernel
  refine ⟨e, hleaves.trans (congrArg _ he), v, hv, ?_, ?_⟩
  · rw [ne_eq, (h.yields v hv).deletedAt_iff]
    exact hlater
  · cases h.yields v hv
    rfl

end Loyalty
