import Loyalty.Proofs.Event.Order
import Loyalty.Proofs.User.Replay
import Loyalty.Simulation.Supply

/-!
# What a replay means

A replay goes through a history event by event and stops at the first that cannot be applied. What
comes out of it can be said of the whole history at once, without going through it. This holds of
every history, also of one that no rule would have brought about: where users sign up twice or go
on after they have left, where two referrals have the same identity or two events the same version.

`History.InOrder` says which order a history is taken in, and determines it. `History.facts` are
what its events say. `History.Replayable` says when nothing stops the replay, and `User.Means` what
each part of the user comes from. The referrals are the hard part: a completion goes to the first
referral of its identity, wherever it stands, and a later one of the same identity never changes.

Main statement: a history can be replayed exactly when it is replayable in its order, and what it
replays to is what it means.
-/

namespace Loyalty

open Time
open Simulation.Supply (clock)

/-! ## What the events of a history say -/

/-- What some events say, and when. -/
abbrev Facts : Type := List (Change × Timestamp)

/-- What the events of a history say. An event that cannot be read says nothing. -/
def History.facts (es : List Event) : Facts :=
  es.filterMap fun e => e.decode.toOption.map fun c => (c, e.eventAt)

theorem History.facts_concat (es : List Event) {e : Event} {c : Change} (h : e.decode = .ok c) :
    facts (es ++ [e]) = facts es ++ [(c, e.eventAt)] := by
  simp [facts, h, Except.toOption]

namespace Facts

/-- The sign-ups, with their times. -/
def signUps (fs : Facts) : List (SignUp × Timestamp) :=
  fs.filterMap fun
    | (.created s, t) => some (s, t)
    | _ => none

/-- The times of leaving. -/
def deletions (fs : Facts) : List Timestamp :=
  fs.filterMap fun
    | (.deleted t, _) => some t
    | _ => none

/-- The identities of the referrals that are created. -/
def invited (fs : Facts) : List String :=
  fs.filterMap fun
    | (.referralCreated i, _) => some i.referralId
    | _ => none

/-- The times at which the referrals of one identity are completed. -/
def completions (id : String) (fs : Facts) : List Timestamp :=
  fs.filterMap fun
    | (.referralCompleted id', t) => if id' = id then some t else none
    | _ => none

end Facts

/-- The referral with which an invitation begins. -/
def Referral.opened (i : Invitation) (t : Timestamp) : Referral :=
  ⟨i.referralId, i.referralCode, i.referredUserEmail, i.status, t, t⟩

/-- How the referral of an invitation stands in the end: as it began when there was one of its
identity before it or no completion followed, else completed at the time of the last one. -/
def Referral.standing (before : Facts) (i : Invitation) (t : Timestamp) (after : Facts) :
    Referral :=
  if i.referralId ∈ before.invited then opened i t
  else
    match (Facts.completions i.referralId after).getLast? with
    | none => opened i t
    | some t' => (opened i t).completedAt t'

/-- Nothing stops the replay of these events. -/
structure History.Replayable (es : List Event) : Prop where
  /-- every event can be read -/
  readable : ∀ e ∈ es, ∃ c, e.decode = .ok c
  /-- a referral that is completed was created before -/
  known : ∀ before id t after, facts es = before ++ (.referralCompleted id, t) :: after →
    id ∈ Facts.invited before
  /-- all points together are an amount of points -/
  points_lt : points es < Text.word32

namespace User

/-- What a user shows of a sign-up, and of none. -/
def ShowsSignUp (u : User) : Option (SignUp × Timestamp) → Prop
  | none => u.username = "" ∧ u.email = "" ∧ u.referralCode = none ∧ u.referredByCode = none ∧
    u.createdAt = none
  | some (s, t) => u.username = s.username ∧ u.email = s.email ∧
    u.referralCode = some s.referralCode ∧ u.referredByCode = s.referredByCode ∧
    u.createdAt = some t

/-- Some referrals are those that facts tell of. -/
structure Refer (rs : List Referral) (fs : Facts) : Prop where
  /-- there is one for each invitation, in order -/
  ids_eq : rs.map Referral.id = fs.invited
  /-- each stands as its invitation and the completions leave it -/
  standing : ∀ before i t after, fs = before ++ (.referralCreated i, t) :: after →
    rs[before.invited.length]? = some (Referral.standing before i t after)

/-- Some facts tell of a user what no count and no version does. -/
structure Tells (u : User) (fs : Facts) : Prop where
  /-- names, codes and beginning are those of the last sign-up -/
  signUp : u.ShowsSignUp fs.signUps.getLast?
  /-- the end is that of the last deletion -/
  deletedAt_eq : u.deletedAt = fs.deletions.getLast?
  /-- the referrals are those that the facts tell of -/
  referrals : Refer u.referrals fs

/-- What each part of a user comes from, when the events are taken in this order. -/
structure Means (u : User) (id : String) (es : List Event) : Prop where
  /-- the user is the one asked for -/
  id_eq : u.id = id
  /-- the version is that of the last event -/
  version_eq : u.version = History.lastVersion es
  /-- the last change is that of the last event -/
  updatedAt_eq : u.updatedAt = es.getLast?.map Event.eventAt
  /-- the points are all points together -/
  points_eq : u.points.toNat = History.points es
  /-- all else is told by what the events say -/
  told : u.Tells (History.facts es)

end User

/-! ## One fact more -/

namespace Facts

theorem invited_concat (fs : Facts) (c : Change) (t : Timestamp) :
    invited (fs ++ [(c, t)]) = invited fs ++
      match c with
      | .referralCreated i => [i.referralId]
      | _ => [] := by
  cases c <;> simp [invited]

theorem completions_concat (id : String) (fs : Facts) (c : Change) (t : Timestamp) :
    completions id (fs ++ [(c, t)]) = completions id fs ++
      match c with
      | .referralCompleted id' => if id' = id then [t] else []
      | _ => [] := by
  cases c with
  | referralCompleted id' => by_cases h : id' = id <;> simp [completions, h]
  | created | deleted | referralCreated | pointsEarned => simp [completions]

end Facts

/-- A fact that completes no referral leaves all as they stand. -/
theorem Referral.standing_concat {c : Change} (hc : c.type ≠ .userReferralCompleted)
    (before : Facts) (i : Invitation) (t : Timestamp) (after : Facts) (t' : Timestamp) :
    standing before i t (after ++ [(c, t')]) = standing before i t after := by
  rw [standing, standing, Facts.completions_concat]
  cases c with
  | referralCompleted id => exact absurd rfl hc
  | created | deleted | referralCreated | pointsEarned => rw [List.append_nil]

/-- A completion changes the first referral of its identity and no other. -/
theorem Referral.standing_concat_completed (before : Facts) (i : Invitation) (t : Timestamp)
    (after : Facts) (id : String) (t' : Timestamp) :
    standing before i t (after ++ [(.referralCompleted id, t')]) =
      if i.referralId = id ∧ id ∉ before.invited then (standing before i t after).completedAt t'
      else standing before i t after := by
  rw [standing, standing, Facts.completions_concat]
  by_cases hbefore : i.referralId ∈ before.invited
  · have hnot : ¬ (i.referralId = id ∧ id ∉ before.invited) := fun ⟨hid, hnew⟩ =>
      hnew (hid ▸ hbefore)
    rw [if_pos hbefore, if_pos hbefore, if_neg hnot]
  · rw [if_neg hbefore, if_neg hbefore]
    by_cases hid : i.referralId = id
    · subst hid
      rw [if_pos ⟨rfl, hbefore⟩]
      simp only [if_true, List.getLast?_concat]
      -- The last completion is the only one that shows.
      split <;> rfl
    · have hid' : ¬ id = i.referralId := fun h => hid h.symm
      rw [if_neg fun h => hid h.1]
      simp only [hid', if_false, List.append_nil]

namespace User.Refer

variable {rs : List Referral} {fs : Facts}

/-- A fact that is not about referrals. -/
theorem concat_other (h : Refer rs fs) {c : Change} (hcreated : c.type ≠ .userReferralCreated)
    (hcompleted : c.type ≠ .userReferralCompleted) (t : Timestamp) :
    Refer rs (fs ++ [(c, t)]) := by
  refine ⟨?_, fun before i t' after hfs => ?_⟩
  · rw [h.ids_eq, Facts.invited_concat]
    cases c with
    | referralCreated i => exact absurd rfl hcreated
    | created | deleted | referralCompleted | pointsEarned => rw [List.append_nil]
  · rcases History.split_concat hfs with ⟨-, -, hlast⟩ | ⟨after', rfl, hfs'⟩
    · cases hlast
      exact absurd rfl hcreated
    · rw [Referral.standing_concat hcompleted]
      exact h.standing before i t' after' hfs'

/-- An invitation. -/
theorem concat_created (h : Refer rs fs) (i : Invitation) (t : Timestamp) :
    Refer (rs ++ [.opened i t]) (fs ++ [(.referralCreated i, t)]) := by
  have hlength : rs.length = fs.invited.length := by rw [← h.ids_eq, List.length_map]
  refine ⟨?_, fun before i' t' after hfs => ?_⟩
  · rw [List.map_append, h.ids_eq, Facts.invited_concat]
    rfl
  · rcases History.split_concat hfs with ⟨rfl, rfl, hlast⟩ | ⟨after', rfl, hfs'⟩
    · cases hlast
      rw [← hlength, List.getElem?_concat_length, Referral.standing]
      simp [Facts.completions]
    · rw [Referral.standing_concat (by simp [Change.type])]
      have hold := h.standing before i' t' after' hfs'
      rw [List.getElem?_append_left (List.getElem?_eq_some_iff.1 hold).1]
      exact hold

/-- The first invitation of an identity among others. -/
theorem findIdx?_eq_length_iff {before after : List String} {id id' : String} {k : Nat}
    (h : (before ++ id' :: after).findIdx? (fun x => x = id) = some k) :
    k = before.length ↔ id' = id ∧ id ∉ before := by
  rw [List.findIdx?_append] at h
  cases hbefore : before.findIdx? (fun x => x = id) with
  | some j =>
    obtain ⟨hj, hx, -⟩ := List.findIdx?_eq_some_iff_getElem.1 hbefore
    have hmem : id ∈ before := by
      rw [← of_decide_eq_true hx]
      exact List.getElem_mem hj
    rw [hbefore] at h
    obtain rfl : j = k := by simpa using h
    exact ⟨fun hk => absurd hk (Nat.ne_of_lt hj), fun hid => absurd hmem hid.2⟩
  | none =>
    have hnew : id ∉ before := fun hmem => by
      simpa using List.findIdx?_eq_none_iff.1 hbefore id hmem
    rw [hbefore, Option.none_or, List.findIdx?_cons] at h
    by_cases hid : id' = id
    · simp only [hid, decide_true, if_true, Option.map_some, Nat.zero_add, Option.some.injEq] at h
      exact ⟨fun _ => ⟨hid, hnew⟩, fun _ => h.symm⟩
    · rw [decide_eq_false hid] at h
      obtain ⟨i, hi, rfl⟩ := Option.map_eq_some_iff.1 h
      obtain ⟨j, -, rfl⟩ := Option.map_eq_some_iff.1 hi
      refine ⟨fun hk => ?_, fun hid' => absurd hid'.1 hid⟩
      have hbehind : j + 1 + before.length = before.length := hk
      omega

/-- A completion, of the referral at the place at which its identity is found first. -/
theorem concat_completed (h : Refer rs fs) {id : String} {k : Nat}
    (hk : rs.findIdx? (fun r => r.id = id) = some k) (t : Timestamp) :
    Refer (rs.modify k fun r => r.completedAt t) (fs ++ [(.referralCompleted id, t)]) := by
  refine ⟨?_, fun before i t' after hfs => ?_⟩
  · rw [Facts.invited_concat, List.append_nil, ← h.ids_eq]
    refine List.ext_getElem? fun j => ?_
    rw [List.getElem?_map, List.getElem?_map, List.getElem?_modify]
    cases rs[j]? with
    | none => rfl
    | some r => by_cases hkj : k = j <;> simp [hkj, Referral.completedAt]
  · rcases History.split_concat hfs with ⟨-, -, hlast⟩ | ⟨after', rfl, hfs'⟩
    · cases hlast
    · have hids : (before.invited ++ i.referralId :: Facts.invited after').findIdx?
          (fun x => x = id) = some k := by
        have hinvited : before.invited ++ i.referralId :: Facts.invited after' = fs.invited := by
          simp [hfs', Facts.invited]
        rw [hinvited, ← h.ids_eq, List.findIdx?_map]
        exact hk
      rw [List.getElem?_modify, h.standing before i t' after' hfs',
        Referral.standing_concat_completed]
      by_cases hplace : k = before.invited.length
      · rw [if_pos ((findIdx?_eq_length_iff hids).1 hplace)]
        simp [hplace]
      · rw [if_neg fun hfirst => hplace ((findIdx?_eq_length_iff hids).2 hfirst)]
        simp [hplace]

end User.Refer

namespace User

/-- A change adds to what is told. -/
theorem Tells.change {u w : User} {fs : Facts} (h : u.Tells fs) {t : Timestamp} {c : Change}
    (hw : u.change t c = .ok w) : w.Tells (fs ++ [(c, t)]) := by
  obtain ⟨hsignUp, hdeleted, hreferrals⟩ := h
  cases c with
  | created s =>
    cases hw
    refine ⟨?_, ?_, hreferrals.concat_other (by simp [Change.type]) (by simp [Change.type]) t⟩
    · simp [Facts.signUps, ShowsSignUp]
    · simpa [Facts.deletions] using hdeleted
  | deleted deletedAt =>
    cases hw
    refine ⟨?_, ?_, hreferrals.concat_other (by simp [Change.type]) (by simp [Change.type]) t⟩
    · simpa [Facts.signUps, ShowsSignUp] using hsignUp
    · simp [Facts.deletions]
  | referralCreated i =>
    cases hw
    refine ⟨?_, ?_, hreferrals.concat_created i t⟩
    · simpa [Facts.signUps, ShowsSignUp] using hsignUp
    · simpa [Facts.deletions] using hdeleted
  | referralCompleted id =>
    rw [User.change] at hw
    split at hw
    · cases hw
    · next k hk =>
      cases hw
      refine ⟨?_, ?_, hreferrals.concat_completed hk t⟩
      · simpa [Facts.signUps, ShowsSignUp] using hsignUp
      · simpa [Facts.deletions] using hdeleted
  | pointsEarned n =>
    rw [User.change] at hw
    split at hw
    · cases hw
    · cases hw
      refine ⟨?_, ?_, hreferrals.concat_other (by simp [Change.type]) (by simp [Change.type]) t⟩
      · simpa [Facts.signUps, ShowsSignUp] using hsignUp
      · simpa [Facts.deletions] using hdeleted

end User

/-! ## One event more -/

theorem History.replayable_nil : Replayable [] where
  readable := by simp
  known := by simp [facts]
  points_lt := by decide

/-- What one event more asks for. -/
theorem History.replayable_concat_iff {es : List Event} {e : Event} :
    Replayable (es ++ [e]) ↔ Replayable es ∧ ∃ c, e.decode = .ok c ∧
      (∀ id, c = .referralCompleted id → id ∈ (facts es).invited) ∧
      points es + c.points < Text.word32 := by
  constructor
  · intro h
    obtain ⟨c, hc⟩ := h.readable e (by simp)
    have hpoints : points es + c.points < Text.word32 := by
      rw [← Event.points_eq hc, ← points_append]
      exact h.points_lt
    refine ⟨⟨fun e' he' => h.readable e' (List.mem_append_left _ he'),
      fun before id t after hes => ?_, by omega⟩, c, hc, fun id hid => ?_, hpoints⟩
    · refine h.known before id t (after ++ [(c, e.eventAt)]) ?_
      rw [facts_concat es hc, hes, List.append_assoc, List.cons_append]
    · subst hid
      exact h.known (facts es) id e.eventAt [] (facts_concat es hc)
  · rintro ⟨h, c, hc, hknown, hpoints⟩
    refine ⟨fun e' he' => ?_, fun before id t after hes => ?_, ?_⟩
    · rcases List.mem_append.1 he' with he' | he'
      · exact h.readable e' he'
      · obtain rfl := List.mem_singleton.1 he'
        exact ⟨c, hc⟩
    · rw [facts_concat es hc] at hes
      rcases split_concat hes with ⟨-, rfl, hlast⟩ | ⟨after', -, hes'⟩
      · cases hlast
        exact hknown id rfl
      · exact h.known before id t after' hes'
    · rw [points_append, Event.points_eq hc]
      exact hpoints

namespace User

/-- A change is possible when the referral is there that it completes, and the points fit that it
gives. -/
theorem change_isOk_iff {u : User} {t : Timestamp} {c : Change} :
    (∃ w, u.change t c = .ok w) ↔
      (∀ id, c = .referralCompleted id → id ∈ u.referrals.map Referral.id) ∧
        u.points.toNat + c.points < Text.word32 := by
  have hpoints : u.points.toNat < Text.word32 := UInt32.toNat_lt u.points
  cases c with
  | created | deleted | referralCreated =>
    refine ⟨fun _ => ⟨fun id hid => ?_, hpoints⟩, fun _ => ⟨_, rfl⟩⟩
    cases hid
  | referralCompleted id =>
    rw [User.change]
    cases hk : u.referrals.findIdx? fun r => r.id = id with
    | none =>
      constructor
      · rintro ⟨w, hw⟩
        cases hw
      · rintro ⟨hknown, -⟩
        obtain ⟨r, hr, hid⟩ := List.mem_map.1 (hknown id rfl)
        simpa [hid] using List.findIdx?_eq_none_iff.1 hk r hr
    | some k =>
      obtain ⟨hlt, hid, -⟩ := List.findIdx?_eq_some_iff_getElem.1 hk
      refine ⟨fun _ => ⟨fun id' hc => ?_, hpoints⟩, fun _ => ⟨_, rfl⟩⟩
      cases hc
      exact List.mem_map.2 ⟨_, List.getElem_mem hlt, of_decide_eq_true hid⟩
  | pointsEarned n =>
    rw [User.change, Points.add?]
    by_cases hfits : u.points.toNat + n.toNat < Text.word32
    · rw [if_pos hfits]
      refine ⟨fun _ => ⟨fun id hid => ?_, hfits⟩, fun _ => ⟨_, rfl⟩⟩
      cases hid
    · rw [if_neg hfits]
      constructor
      · rintro ⟨w, hw⟩
        cases hw
      · rintro ⟨-, hfits'⟩
        exact absurd hfits' hfits

theorem means_new (id : String) : (new id).Means id [] where
  id_eq := rfl
  version_eq := rfl
  updatedAt_eq := rfl
  points_eq := rfl
  told := ⟨⟨rfl, rfl, rfl, rfl, rfl⟩, rfl, rfl, by simp [History.facts]⟩

/-- One event more can be applied when it can be read, names a referral that is there, and gives
no points beyond what fits. -/
theorem Means.applyEvent_isOk_iff {u : User} {id : String} {es : List Event} (hu : u.Means id es)
    (e : Event) :
    (∃ v, u.applyEvent e = .ok v) ↔ ∃ c, e.decode = .ok c ∧
      (∀ id, c = .referralCompleted id → id ∈ (History.facts es).invited) ∧
      History.points es + c.points < Text.word32 := by
  simp only [applyEvent_eq_ok_iff, ← hu.points_eq, ← hu.told.referrals.ids_eq,
    ← change_isOk_iff (u := u) (t := e.eventAt)]
  constructor
  · rintro ⟨_, c, w, hc, hw, -⟩
    exact ⟨c, hc, w, hw⟩
  · rintro ⟨c, hc, w, hw⟩
    exact ⟨_, c, w, hc, hw, rfl⟩

/-- The meaning of a history with one event more. -/
theorem Means.applyEvent {u v : User} {id : String} {es : List Event} (hu : u.Means id es)
    {e : Event} (h : u.applyEvent e = .ok v) : v.Means id (es ++ [e]) := by
  obtain ⟨c, w, hc, hw, rfl⟩ := applyEvent_eq_ok_iff.1 h
  have heffect : u.Effect c w := effect_change hw
  have htold : w.Tells (History.facts (es ++ [e])) := by
    rw [History.facts_concat es hc]
    exact hu.told.change hw
  refine ⟨heffect.id_eq.trans hu.id_eq, ?_, ?_, ?_, ⟨htold.signUp, htold.deletedAt_eq,
    htold.referrals⟩⟩
  · simp [History.lastVersion]
  · simp
  · rw [History.points_append, Event.points_eq hc, ← hu.points_eq]
    exact heffect.points_eq

/-- Events that are applied in this order: when nothing stops them, and what they come to. -/
theorem applyInOrder_means (id : String) (es : List Event) :
    ((∃ u, ((new id).applyInOrder es).result = .ok u) ↔ History.Replayable es) ∧
      ∀ u, ((new id).applyInOrder es).result = .ok u → u.Means id es := by
  -- The induction is from the end: the user before the last event is what the others mean, and
  -- that decides whether the last one can be applied.
  induction es using List.reverseRecOn with
  | nil =>
    refine ⟨⟨fun _ => History.replayable_nil, fun _ => ⟨new id, rfl⟩⟩, fun u hu => ?_⟩
    cases hu
    exact means_new id
  | append_singleton es e ih =>
    obtain ⟨hiff, hmeans⟩ := ih
    simp only [result_applyInOrder_append, History.replayable_concat_iff, ← hiff]
    refine ⟨⟨fun ⟨v, hv⟩ => ?_, fun ⟨⟨u, hu⟩, hlast⟩ => ?_⟩, fun v hv => ?_⟩
    · obtain ⟨u, hu, hlast⟩ := eq_ok_of_bind hv
      exact ⟨⟨u, hu⟩, ((hmeans u hu).applyEvent_isOk_iff e).1 ⟨v, hlast⟩⟩
    · obtain ⟨v, hv⟩ := ((hmeans u hu).applyEvent_isOk_iff e).2 hlast
      exact ⟨v, by rw [hu]; exact hv⟩
    · obtain ⟨u, hu, hlast⟩ := eq_ok_of_bind hv
      exact (hmeans u hu).applyEvent hlast

end User

/-- **The meaning of a replay.** Every history has one order. It can be replayed exactly when it is
replayable in that order, and the user to whom it replays is what it means. -/
theorem replay_means (id : String) (history : List Event) :
    ∃ es, History.InOrder history es ∧ (∀ es', History.InOrder history es' → es' = es) ∧
      ((∃ u, User.ofHistory id history = .ok u) ↔ History.Replayable es) ∧
      ∀ u, User.ofHistory id history = .ok u → u.Means id es := by
  refine ⟨History.sorted history, History.inOrder_sorted history, fun es' h => h.eq_sorted, ?_⟩
  exact User.applyInOrder_means id (History.sorted history)

/-- A history out of order, in which someone signs up again after leaving, and refers two people
under the same identity at the same version. -/
def History.rambling : List Event :=
  [.ofChange "u" 5 (.referralCompleted "r") (clock 5),
    .ofChange "u" 2 (.referralCreated ⟨"r", "A", "b@x", .sent⟩) (clock 1),
    .ofChange "u" 2 (.referralCreated ⟨"r", "A", "c@x", .sent⟩) (clock 2),
    .ofChange "u" 9 (.created ⟨"zoe", "z@x", "B", some "C"⟩) (clock 6),
    .ofChange "u" 1 (.created ⟨"ann", "a@x", "A", none⟩) (clock 9),
    .ofChange "u" 3 (.deleted (clock 3)) (clock 4),
    .ofChange "u" 5 (.pointsEarned 4294967295) (clock 7)]

/-- The same history in its order. -/
def History.straightened : List Event :=
  [.ofChange "u" 1 (.created ⟨"ann", "a@x", "A", none⟩) (clock 9),
    .ofChange "u" 2 (.referralCreated ⟨"r", "A", "b@x", .sent⟩) (clock 1),
    .ofChange "u" 2 (.referralCreated ⟨"r", "A", "c@x", .sent⟩) (clock 2),
    .ofChange "u" 3 (.deleted (clock 3)) (clock 4),
    .ofChange "u" 5 (.referralCompleted "r") (clock 5),
    .ofChange "u" 5 (.pointsEarned 4294967295) (clock 7),
    .ofChange "u" 9 (.created ⟨"zoe", "z@x", "B", some "C"⟩) (clock 6)]

/-- Whom it replays to. -/
def User.rambler : User where
  id := "u"
  version := 9
  username := "zoe"
  email := "z@x"
  points := 4294967295
  referralCode := some "B"
  referredByCode := some "C"
  referrals :=
    [⟨"r", "A", "b@x", .completed, clock 1, clock 5⟩,
      ⟨"r", "A", "c@x", .sent, clock 2, clock 2⟩]
  createdAt := some (clock 6)
  updatedAt := some (clock 6)
  deletedAt := some (clock 3)

theorem rambling_means :
    User.ofHistory "u" History.rambling = .ok User.rambler ∧
      History.InOrder History.rambling History.straightened ∧
      History.Replayable History.straightened ∧ User.rambler.Means "u" History.straightened := by
  have horder : History.InOrder History.rambling History.straightened := by
    refine ⟨by decide, fun v => ?_⟩
    simp only [History.rambling, History.straightened, List.filter_cons, List.filter_nil,
      Event.ofChange, decide_eq_true_eq]
    split_ifs <;> first | rfl | omega
  have hreplay : (User.new "u").applyInOrder History.straightened = ⟨User.rambler, none⟩ := by
    decide +kernel
  have hrambler : User.ofHistory "u" History.rambling = .ok User.rambler := by
    rw [User.ofHistory, User.apply, ← horder.eq_sorted, hreplay]
    rfl
  obtain ⟨es, -, hes, hreplayable, hmeans⟩ := replay_means "u" History.rambling
  obtain rfl := hes History.straightened horder
  exact ⟨hrambler, horder, hreplayable.1 ⟨_, hrambler⟩, hmeans _ hrambler⟩

end Loyalty
