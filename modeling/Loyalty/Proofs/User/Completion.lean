import Mathlib.Data.List.Nodup
import Loyalty.Proofs.User.Fulfilment

/-!
# Completing a referral, once and again

Who has signed up with a user's code is looked for among the referrals of the user from the latest
one back, by address; the event that follows names a referral, which is looked for from the first one
on, by identity. The two searches meet at the same referral when no two referrals have the same
identity. When there is none of that address a referral is added that is complete from the start, and
is the latest of its address from then on.

So after a completion the latest referral of the address is complete, whether or not there was one
before. `CompleteReferral.Settled` says this together with everything that the rule asks of the user.
It is kept by every further completion with the same command, which is accepted, finds the same
referral, and changes the time of its last change.

Main statement: a completion that is accepted completes one referral, and doing it again, however
often, changes nothing but a time.
-/

namespace Loyalty

open Time
open Simulation.Supply (clock)

namespace User

/-! ## Two searches -/

/-- The latest referral of an address is the one behind which there is none of that address. -/
theorem findReferral_eq_some_iff {u : User} {email : String} {r : Referral} :
    u.findReferral email = some r ↔ r.referredUserEmail = email ∧
      ∃ before after, u.referrals = before ++ r :: after ∧
        ∀ x ∈ after, x.referredUserEmail ≠ email := by
  rw [findReferral, List.find?_eq_some_iff_append]
  constructor
  · rintro ⟨hemail, after, before, hreferrals, hafter⟩
    refine ⟨of_decide_eq_true hemail, before.reverse, after.reverse, ?_, fun x hx => ?_⟩
    · rw [← List.reverse_reverse u.referrals, hreferrals]
      simp
    · simpa using hafter x (List.mem_reverse.1 hx)
  · rintro ⟨hemail, before, after, hreferrals, hafter⟩
    refine ⟨decide_eq_true hemail, after.reverse, before.reverse, ?_, fun x hx => ?_⟩
    · rw [hreferrals]
      simp
    · simpa using hafter x (List.mem_reverse.1 hx)

theorem findReferral_eq_none_iff {u : User} {email : String} :
    u.findReferral email = none ↔ ∀ r ∈ u.referrals, r.referredUserEmail ≠ email := by
  rw [findReferral, List.find?_eq_none]
  simp

/-- A referral whose identity no other has is the first one of its identity. -/
theorem change_referralCompleted {u : User} {before after : List Referral} {r : Referral}
    (hu : u.referrals = before ++ r :: after) (hids : (u.referrals.map Referral.id).Nodup)
    (t : Timestamp) :
    u.change t (.referralCompleted r.id) =
      .ok { u with referrals := before ++ r.completedAt t :: after } := by
  have hfirst : u.referrals.findIdx? (fun x => x.id = r.id) = some before.length := by
    have hbefore : before.findIdx? (fun x => x.id = r.id) = none := by
      rw [List.findIdx?_eq_none_iff]
      intro x hx
      rw [hu, List.map_append, List.nodup_append] at hids
      exact decide_eq_false (hids.2.2 x.id (List.mem_map_of_mem hx) r.id (by simp))
    rw [hu, List.findIdx?_append, hbefore, List.findIdx?_cons]
    simp
  rw [change, hfirst, hu]
  simp [List.modify_eq_take_drop]

/-- The user whose next event leaves these referrals. -/
def revised (u : User) (now : Timestamp) (referrals : List Referral) : User :=
  { u with version := u.version + 1, updatedAt := some now, referrals := referrals }

end User

/-! ## Settled referrals -/

@[simp] theorem Referral.id_completedAt (r : Referral) (t : Timestamp) :
    (r.completedAt t).id = r.id := rfl

/-- Completing a complete referral once more changes the time of its last change. -/
theorem Referral.completedAt_of_completed {r : Referral} (h : r.status = .completed)
    (t : Timestamp) : r.completedAt t = { r with updatedAt := t } := by
  rw [completedAt, ← h]

namespace CompleteReferral

/-- Decides on the command, with a newly made identity and a time, and applies what was decided. -/
def handle (c : CompleteReferral) (u : User) (attempt : String × Timestamp) : Except Failure User :=
  match c.decide u attempt.1 attempt.2 with
  | .error rejection => .error (.ofRejection rejection)
  | .ok es => (u.apply es).result

/-- The command completes the referral `r` of a user, which stands between others as before. -/
inductive Completes (c : CompleteReferral) (u : User) (fresh : String) (now : Timestamp) :
    List Referral → Referral → List Referral → Prop where
  /-- the latest referral of the address is completed -/
  | invited {before after : List Referral} {old : Referral}
    (hreferrals : u.referrals = before ++ old :: after)
    (hemail : old.referredUserEmail = Text.trim c.referredUserEmail)
    (hlatest : ∀ x ∈ after, x.referredUserEmail ≠ Text.trim c.referredUserEmail) :
    Completes c u fresh now before { old with status := .completed, updatedAt := now } after
  /-- there is none, and one is added -/
  | uninvited {code : String}
    (hnone : ∀ x ∈ u.referrals, x.referredUserEmail ≠ Text.trim c.referredUserEmail)
    (hcode : u.referralCode = some code) :
    Completes c u fresh now u.referrals
      ⟨fresh, code, Text.trim c.referredUserEmail, .completed, now, now⟩ []

/-- The latest referral of the address is complete, and nothing stands in the way of the command. -/
structure Settled (c : CompleteReferral) (u : User) (before : List Referral) (r : Referral)
    (after : List Referral) : Prop where
  /-- where the referral stands -/
  referrals_eq : u.referrals = before ++ r :: after
  /-- it is of the address -/
  email_eq : r.referredUserEmail = Text.trim c.referredUserEmail
  /-- and the latest one -/
  latest : ∀ x ∈ after, x.referredUserEmail ≠ Text.trim c.referredUserEmail
  /-- it is complete -/
  completed : r.status = .completed
  /-- no two referrals have the same identity -/
  nodup : (u.referrals.map Referral.id).Nodup
  /-- the identity of the referral is filled in -/
  id_filled : Text.isBlank r.id = false
  /-- so is that of the user who signed up -/
  referredUserId_filled : Text.isBlank c.referredUserId = false
  /-- the user has not left -/
  active : u.isDeleted = false
  /-- the code is that of the user -/
  code_eq : u.referralCode = some c.referredByCode

variable {c : CompleteReferral} {u v : User} {before after : List Referral} {r : Referral}

theorem Settled.findReferral_eq (h : c.Settled v before r after) :
    v.findReferral (Text.trim c.referredUserEmail) = some r :=
  User.findReferral_eq_some_iff.2 ⟨h.email_eq, before, after, h.referrals_eq, h.latest⟩

/-- A referral that is settled is found again. -/
theorem Settled.decide_eq (h : c.Settled v before r after) (fresh : String) (now : Timestamp) :
    (Change.referralCompleted r.id).checked = .ok (.referralCompleted r.id) ∧
      c.decide v fresh now =
        .ok [.ofChange v.id (v.version + 1) (.referralCompleted r.id) now] := by
  have hchecked : (Change.referralCompleted r.id).checked = .ok (.referralCompleted r.id) := by
    refine Change.checked_eq_ok_iff.2 ⟨Change.requireFields_eq_none_iff.2 fun f hf => ?_, rfl⟩
    obtain rfl := List.mem_singleton.1 hf
    exact h.id_filled
  have hbrings : Command.Brings v fresh now (.completeReferral c) (.referralCompleted r.id) :=
    .completed h.referredUserId_filled h.code_eq h.findReferral_eq
  exact ⟨hchecked, (Command.decide_eq_ok_iff (c := .completeReferral c) nofun).2
    ⟨_, h.active, hbrings, hchecked, rfl⟩⟩

/-- The event of a completion that finds no referral adds one. -/
theorem apply_referralCreated {i : Invitation}
    (hchecked : (Change.referralCreated i).checked = .ok (.referralCreated i)) (now : Timestamp) :
    u.apply [.ofChange u.id (u.version + 1) (.referralCreated i) now] =
      ⟨u.revised now (u.referrals ++
        [⟨i.referralId, i.referralCode, i.referredUserEmail, i.status, now, now⟩]), none⟩ :=
  User.apply_singleton_eq_ok_iff.2 (User.applyEvent_eq_ok_iff.2
    ⟨_, _, Event.decode_ofChange hchecked _ _ _, rfl, rfl⟩)

/-- The event of one that finds a referral completes it. -/
theorem apply_referralCompleted (hu : u.referrals = before ++ r :: after)
    (hids : (u.referrals.map Referral.id).Nodup)
    (hchecked : (Change.referralCompleted r.id).checked = .ok (.referralCompleted r.id))
    (now : Timestamp) :
    u.apply [.ofChange u.id (u.version + 1) (.referralCompleted r.id) now] =
      ⟨u.revised now (before ++ r.completedAt now :: after), none⟩ :=
  User.apply_singleton_eq_ok_iff.2 (User.applyEvent_eq_ok_iff.2
    ⟨_, _, Event.decode_ofChange hchecked _ _ _, User.change_referralCompleted hu hids now, rfl⟩)

/-- What is settled stays so when the command is handled again, and only a time changes. -/
theorem Settled.again (h : c.Settled v before r after) (attempt : String × Timestamp) :
    ∃ w, c.handle v attempt = .ok w ∧
      c.Settled w before { r with updatedAt := attempt.2 } after := by
  obtain ⟨hchecked, hdecide⟩ := h.decide_eq attempt.1 attempt.2
  have happlied := apply_referralCompleted h.referrals_eq h.nodup hchecked attempt.2
  rw [Referral.completedAt_of_completed h.completed] at happlied
  refine ⟨v.revised attempt.2 (before ++ { r with updatedAt := attempt.2 } :: after), ?_, ?_⟩
  · rw [handle, hdecide]
    exact congrArg User.Replayed.result happlied
  · have hids := h.nodup
    rw [h.referrals_eq] at hids
    exact { h with referrals_eq := rfl, nodup := by simpa [User.revised] using hids }

/-- However often the command is handled again. -/
theorem Settled.repeated (h : c.Settled v before r after) (attempts : List (String × Timestamp)) :
    ∃ w, attempts.foldlM c.handle v = .ok w ∧ c.Settled w before
      { r with updatedAt := (attempts.getLast?.map Prod.snd).getD r.updatedAt } after := by
  induction attempts using List.reverseRecOn with
  | nil => exact ⟨v, rfl, h⟩
  | append_singleton attempts last ih =>
    obtain ⟨w, hw, hsettled⟩ := ih
    obtain ⟨w', hw', hsettled'⟩ := hsettled.again last
    refine ⟨w', ?_, ?_⟩
    · rw [List.foldlM_append, hw]
      show List.foldlM c.handle w [last] = .ok w'
      rw [List.foldlM_cons, hw']
      rfl
    · rw [List.getLast?_concat]
      exact hsettled'

/-- A completion that is accepted completes a referral, and settles it. -/
theorem settled_of_decide {fresh : String} {now : Timestamp} {es : List Event}
    (hids : (u.referrals.map Referral.id).Nodup) (hfresh : fresh ∉ u.referrals.map Referral.id)
    (h : c.decide u fresh now = .ok es) :
    ∃ e v before r after, es = [e] ∧ u.apply [e] = ⟨v, none⟩ ∧
      c.Completes u fresh now before r after ∧ c.Settled v before r after := by
  obtain ⟨d, hactive, hd, hchecked, rfl⟩ :=
    (Command.decide_eq_ok_iff (c := .completeReferral c) nofun).1 h
  have hfault : d.fault? = none := (Change.checked_eq_ok_iff.1 hchecked).1
  cases hd with
  | completed hid hcode hold =>
    have hfilled := Change.requireFields_eq_none_iff.1 hfault
    obtain ⟨hemail, before, after, hreferrals, hlatest⟩ := User.findReferral_eq_some_iff.1 hold
    refine ⟨_, _, before, _, after, rfl, apply_referralCompleted hreferrals hids hchecked now,
      .invited hreferrals hemail hlatest, ?_⟩
    rw [hreferrals] at hids
    exact
      { referrals_eq := rfl
        email_eq := hemail
        latest := hlatest
        completed := rfl
        nodup := by simpa [User.revised] using hids
        id_filled := hfilled ("referralId", _) (by simp)
        referredUserId_filled := hid
        active := hactive
        code_eq := hcode }
  | recorded hid hcode hnone =>
    have hfilled := Change.requireFields_eq_none_iff.1 hfault
    rw [User.findReferral_eq_none_iff] at hnone
    refine ⟨_, _, u.referrals, _, [], rfl, apply_referralCreated hchecked now,
      .uninvited hnone hcode, ?_⟩
    exact
      { referrals_eq := rfl
        email_eq := rfl
        latest := by simp
        completed := rfl
        nodup := by
          rw [User.revised, List.map_append]
          exact List.nodup_append.2 ⟨hids, by simp, by simpa using hfresh⟩
        id_filled := hfilled ("referralId", _) (by simp)
        referredUserId_filled := hid
        active := hactive
        code_eq := hcode }

end CompleteReferral

/-- **Completing a referral.** A completion that is accepted leaves the latest referral of the address
complete, and every other as it was. Handled again with other identities, at other times and however
often, it is accepted, names the same referral, and sets nothing but the time of its last change. -/
theorem completion_converges {u : User} {c : CompleteReferral} {fresh : String} {now : Timestamp}
    {es : List Event} (hids : (u.referrals.map Referral.id).Nodup)
    (hfresh : fresh ∉ u.referrals.map Referral.id) (h : c.decide u fresh now = .ok es) :
    ∃ e v before r after,
      es = [e] ∧ u.apply [e] = ⟨v, none⟩ ∧ v.referrals = before ++ r :: after ∧
      c.Completes u fresh now before r after ∧
      v.findReferral (Text.trim c.referredUserEmail) = some r ∧ r.status = .completed ∧
      (v.referrals.map Referral.id).Nodup ∧
      ∀ attempts : List (String × Timestamp), ∃ w,
        attempts.foldlM c.handle v = .ok w ∧
        w.referrals = before ++
          { r with updatedAt := (attempts.getLast?.map Prod.snd).getD r.updatedAt } :: after ∧
        ∀ fresh' now', ∃ e', c.decide w fresh' now' = .ok [e'] ∧
          e'.decode = .ok (.referralCompleted r.id) := by
  obtain ⟨e, v, before, r, after, rfl, happlied, hcompletes, hsettled⟩ :=
    CompleteReferral.settled_of_decide hids hfresh h
  refine ⟨e, v, before, r, after, rfl, happlied, hsettled.referrals_eq, hcompletes,
    hsettled.findReferral_eq, hsettled.completed, hsettled.nodup, fun attempts => ?_⟩
  obtain ⟨w, hw, hsettled'⟩ := hsettled.repeated attempts
  refine ⟨w, hw, hsettled'.referrals_eq, fun fresh' now' => ?_⟩
  obtain ⟨hchecked, hdecide⟩ := hsettled'.decide_eq fresh' now'
  exact ⟨_, hdecide, Event.decode_ofChange hchecked _ _ _⟩

/-- A user of whose referrals two are of the same address, and the latest is of another. -/
def User.referrer : User :=
  { User.new "u" with
    version := 4
    referralCode := some "K"
    referrals := [⟨"1", "K", "x@y", .created, clock 1, clock 1⟩,
      ⟨"2", "K", "x@y", .created, clock 2, clock 2⟩, ⟨"3", "K", "z", .created, clock 3, clock 3⟩] }

/-- Someone has signed up with the user's code, with white space around the address. -/
def CompleteReferral.arrival (email : String) : CompleteReferral :=
  ⟨"u", "v", email, "K"⟩

theorem referrer_converges :
    (User.referrer.referrals.map Referral.id).Nodup ∧
      "4" ∉ User.referrer.referrals.map Referral.id ∧
    (∃ e v w, (CompleteReferral.arrival " x@y\n").decide .referrer "4" (clock 5) = .ok [e] ∧
      User.referrer.apply [e] = ⟨v, none⟩ ∧
      [("5", clock 6), ("6", clock 7)].foldlM (CompleteReferral.arrival " x@y\n").handle v = .ok w ∧
      w.referrals = [⟨"1", "K", "x@y", .created, clock 1, clock 1⟩,
        ⟨"2", "K", "x@y", .completed, clock 2, clock 7⟩,
        ⟨"3", "K", "z", .created, clock 3, clock 3⟩]) ∧
    ∃ e v w, (CompleteReferral.arrival "\u3000y@z ").decide .referrer "4" (clock 5) = .ok [e] ∧
      User.referrer.apply [e] = ⟨v, none⟩ ∧
      [("5", clock 6)].foldlM (CompleteReferral.arrival "\u3000y@z ").handle v = .ok w ∧
      w.referrals =
        User.referrer.referrals ++ [⟨"4", "K", "y@z", .completed, clock 5, clock 6⟩] := by
  have hids : (User.referrer.referrals.map Referral.id).Nodup := by decide
  have hfresh : "4" ∉ User.referrer.referrals.map Referral.id := by decide
  have hinvited : (CompleteReferral.arrival " x@y\n").decide .referrer "4" (clock 5) =
      .ok [.ofChange "u" 5 (.referralCompleted "2") (clock 5)] := by
    decide +kernel
  have huninvited : (CompleteReferral.arrival "\u3000y@z ").decide .referrer "4" (clock 5) =
      .ok [.ofChange "u" 5 (.referralCreated ⟨"4", "K", "y@z", .completed⟩) (clock 5)] := by
    decide +kernel
  refine ⟨hids, hfresh, ?_, ?_⟩
  · obtain ⟨e, v, before, r, after, he, hv, hreferrals, -, hfound, -, -, hagain⟩ :=
      completion_converges hids hfresh hinvited
    obtain ⟨w, hw, hreferrals', -⟩ := hagain [("5", clock 6), ("6", clock 7)]
    refine ⟨e, v, w, hinvited.trans (congrArg _ he), hv, hw, hreferrals'.trans ?_⟩
    obtain rfl := (List.cons.inj he).1
    cases (by decide +kernel : User.referrer.apply [.ofChange "u" 5 (.referralCompleted "2")
      (clock 5)] = ⟨User.referrer.revised (clock 5) [⟨"1", "K", "x@y", .created, clock 1, clock 1⟩,
        ⟨"2", "K", "x@y", .completed, clock 2, clock 5⟩,
        ⟨"3", "K", "z", .created, clock 3, clock 3⟩], none⟩).symm.trans hv
    obtain rfl := Option.some.inj hfound
    have hsplit : [⟨"1", "K", "x@y", .created, clock 1, clock 1⟩] ++
        (⟨"2", "K", "x@y", .completed, clock 2, clock 5⟩ : Referral) ::
          [⟨"3", "K", "z", .created, clock 3, clock 3⟩] = before ++ _ :: after := hreferrals
    obtain ⟨rfl, -, rfl⟩ :=
      (List.append_cons_inj_of_notMem (by decide) (by decide)).1 hsplit
    rfl
  · obtain ⟨e, v, before, r, after, he, hv, -, hcompletes, -, -, -, hagain⟩ :=
      completion_converges hids hfresh huninvited
    obtain ⟨w, hw, hreferrals', -⟩ := hagain [("5", clock 6)]
    refine ⟨e, v, w, huninvited.trans (congrArg _ he), hv, hw, hreferrals'.trans ?_⟩
    have htrim : Text.trim (CompleteReferral.arrival "\u3000y@z ").referredUserEmail = "y@z" := by
      decide +kernel
    cases hcompletes with
    | @invited _ _ old hreferrals hemail hlatest =>
      have hmem : old ∈ User.referrer.referrals := by simp [hreferrals]
      have hnone : ∀ x ∈ User.referrer.referrals, x.referredUserEmail ≠ "y@z" := by decide
      exact absurd (hemail.trans htrim) (hnone old hmem)
    | uninvited hnone hcode =>
      cases hcode
      rw [htrim]
      rfl

end Loyalty
