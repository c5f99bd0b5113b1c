import Loyalty.Proofs.Stream.Growth

/-!
# When commands are accepted

A rule refuses a command for few reasons, and for a user with a stored history fewer still: what the
gate let into the history is in order, so the user has a code that is not blank, and so are the
identities of the referrals.

The code that a user hands out is that of the sign-up with which the history begins. Nothing that
comes later changes it.

Main statements: the code of a user stands in the user's history; and a user who has not left accepts
points, and accepts that somebody has signed up with the user's code.
-/

namespace Loyalty

open History

namespace User

/-- Only a sign-up says which code a user hands out. -/
theorem referralCode_change {u w : User} {t : Time.Timestamp} {c : Change}
    (h : u.change t c = .ok w) (hc : c.type ≠ .userCreated) : w.referralCode = u.referralCode := by
  cases c with
  | created s => exact absurd rfl hc
  | deleted deletedAt =>
    cases h
    rfl
  | referralCreated i =>
    cases h
    rfl
  | referralCompleted id =>
    rw [change] at h
    split at h
    · cases h
    · cases h
      rfl
  | pointsEarned n =>
    rw [change] at h
    split at h
    · cases h
    · cases h
      rfl

/-- The code that a user hands out is that of a sign-up in the history. -/
theorem signedUp_of_ofHistory {id : String} {es : List Event} (h : Grown id es) (hne : es ≠ [])
    {u : User} (hu : ofHistory id es = .ok u) :
    ∃ e ∈ es, ∃ s, e.decode = .ok (.created s) ∧ u.referralCode = some s.referralCode := by
  induction h generalizing u with
  | nil => exact absurd rfl hne
  | @signUp s hs now =>
    have hgapless : Gapless ([] ++ [Event.ofChange id 1 (.created s) now]) := rfl
    have hfirst := ofHistory_append_of_ok hgapless (ofHistory_nil id)
    rw [List.nil_append, hu] at hfirst
    obtain ⟨c, w, hc, hw, rfl⟩ := applyEvent_eq_ok_iff.1 hfirst.symm
    have hdecode := Event.decode_ofChange hs id 1 now
    cases hdecode.symm.trans hc
    cases hw
    exact ⟨_, List.mem_singleton_self _, s, hdecode, rfl⟩
  | @more es h hne' v hv c hc now ih =>
    have hgapless : Gapless (es ++ [Event.ofChange id (es.length + 1) c now]) :=
      (Grown.more h hne' hv hc now).gapless
    rw [ofHistory_append_of_ok hgapless hv] at hu
    obtain ⟨d, w, hd, hw, rfl⟩ := applyEvent_eq_ok_iff.1 hu
    cases (Event.decode_ofChange hc.checked _ _ _).symm.trans hd
    obtain ⟨e, he, s, hs, hcode⟩ := ih hne' hv
    have hshown : c.carried.type ≠ .userCreated := by
      rw [Change.type_carried]
      exact hc.not_created
    exact ⟨e, List.mem_append_left _ he, s, hs, (referralCode_change hw hshown).trans hcode⟩

/-- Nothing in a user is blank that should not be. -/
structure Sound (u : User) : Prop where
  /-- the code that the user hands out -/
  code : ∀ code, u.referralCode = some code → Text.isBlank code = false
  /-- the identities of the referrals -/
  referrals : ∀ r ∈ u.referrals, Text.isBlank r.id = false

/-- The gate has seen to it. -/
theorem sound_of_ofHistory {id : String} {es : List Event} (h : Grown id es) (hne : es ≠ [])
    {u : User} (hu : ofHistory id es = .ok u) : u.Sound where
  code code hcode := by
    obtain ⟨e, -, s, hs, hcode'⟩ := signedUp_of_ofHistory h hne hu
    obtain rfl : s.referralCode = code := Option.some.inj (hcode'.symm.trans hcode)
    have hfilled := Change.requireFields_eq_none_iff.1 (Event.fault?_of_decode hs)
    exact hfilled ("referralCode", _) (by simp)
  referrals r hr := by
    obtain ⟨e, -, i, hi, hid⟩ := (reflects_of_ofHistory h.gapless hu).referrals r hr
    have hfilled := Change.requireFields_eq_none_iff.1 (Event.fault?_of_decode hi)
    rw [← hid]
    exact hfilled ("referralId", _) (by simp)

end User

namespace Command

variable {u : User} {fresh : String} {now : Time.Timestamp}

/-- A user who has not left accepts a command that brings about a change with nothing wrong in it. -/
theorem accepted_of_brings {c : Command} {d : Change} (hu : u.isDeleted = false)
    (hd : Brings u fresh now c d) (hfault : d.fault? = none) :
    ∃ e, c.decide u fresh now = .ok [e] := by
  have hc : c.kind ≠ .createUser := by
    cases hd <;> simp [kind]
  exact ⟨_, (decide_eq_ok_iff hc).2
    ⟨d, hu, hd, Change.checked_eq_ok_iff.2 ⟨hfault, rfl⟩, rfl⟩⟩

/-- A user who has not left accepts points. -/
theorem accepts_points (hu : u.isDeleted = false) (id : String) {n : Points} (hn : n ≠ 0) :
    ∃ e, (earnPoints ⟨id, n⟩).decide u fresh now = .ok [e] :=
  accepted_of_brings hu (.earned hn) (if_neg hn)

/-- A user who has not left accepts that somebody has signed up with the user's code, invited or
not. -/
theorem accepts_referral (hu : u.isDeleted = false) (hsound : u.Sound)
    (hfresh : Text.isBlank fresh = false) {id referredId email code : String}
    (hcode : u.referralCode = some code) (hreferred : Text.isBlank referredId = false)
    (hemail : Text.isBlank email = false) :
    ∃ e, (completeReferral ⟨id, referredId, email, code⟩).decide u fresh now = .ok [e] := by
  cases hr : u.findReferral (Text.trim email) with
  | some r =>
    refine accepted_of_brings hu (.completed hreferred hcode hr) ?_
    refine Change.requireFields_eq_none_iff.2 fun f hf => ?_
    obtain rfl := List.mem_singleton.1 hf
    exact hsound.referrals r (User.findReferral_mem hr)
  | none =>
    refine accepted_of_brings hu (.recorded hreferred hcode hr) ?_
    refine Change.requireFields_eq_none_iff.2 fun f hf => ?_
    have hblank : Text.isBlank (Text.trim email) = false := (Text.isBlank_trim email).trans hemail
    simp only [List.mem_cons, List.not_mem_nil, or_false] at hf
    obtain rfl | rfl | rfl := hf
    · exact hfresh
    · exact hsound.code code hcode
    · exact hblank

end Command

end Loyalty
