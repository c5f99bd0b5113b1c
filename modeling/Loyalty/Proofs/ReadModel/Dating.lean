import Loyalty.Proofs.ReadModel.Image
import Loyalty.Proofs.User.Meaning

/-!
# What a profile is dated by

A user is always dated by the events: the last change is that of the last event, and a referral is
completed at the time of the event that says so. Of the writes to a profile only some keep to this.
A sign-up and a new referral note the time of the event. Leaving notes the time of leaving that the
event tells. Points note the time of writing. The completion of a referral dates the referral by the
time of writing, and the profile not at all.

`Projection.noted` and `Projection.noticed` are the dates that come of this, for the profile and for
its referrals. `History.Timeless` says of a history that the times of writing do not show in what is
drawn of it.

Main statements: how a profile and its referrals are dated, and that nothing but the times of writing
makes a difference.
-/

namespace Loyalty

open Time
open Simulation.Supply (clock)

/-! ## Dates -/

namespace Change

/-- The time that the write of a change notes in the profile, if it notes one. -/
def noted (eventAt now : Timestamp) : Change → Option Timestamp
  | created _ | referralCreated _ => some eventAt
  | deleted deletedAt => some deletedAt
  | referralCompleted _ => none
  | pointsEarned _ => some now

/-- The time by which the write of a change dates referrals. -/
def dated (eventAt now : Timestamp) : Change → Timestamp
  | referralCompleted _ => now
  | _ => eventAt

end Change

namespace Projection

/-- The times that are noted in a profile when events are written at the given times. -/
def noted (es : List Event) (ts : List Timestamp) : List Timestamp :=
  (es.zip ts).filterMap fun x => x.1.decode.toOption.bind fun c => c.noted x.1.eventAt x.2

/-- What is noticed of the referrals when events are written at the given times. -/
def noticed (es : List Event) (ts : List Timestamp) : Facts :=
  (es.zip ts).filterMap fun x =>
    x.1.decode.toOption.map fun c => (c, c.dated x.1.eventAt x.2)

variable {es : List Event} {ts : List Timestamp} {e : Event} {c : Change}

theorem noted_concat (hlength : es.length = ts.length) (hc : e.decode = .ok c) (now : Timestamp) :
    noted (es ++ [e]) (ts ++ [now]) = noted es ts ++ (c.noted e.eventAt now).toList := by
  rw [noted, List.zip_append hlength, List.filterMap_append]
  cases h : c.noted e.eventAt now <;> simp [noted, hc, h, Except.toOption]

theorem noticed_concat (hlength : es.length = ts.length) (hc : e.decode = .ok c) (now : Timestamp) :
    noticed (es ++ [e]) (ts ++ [now]) = noticed es ts ++ [(c, c.dated e.eventAt now)] := by
  rw [noticed, List.zip_append hlength, List.filterMap_append]
  simp [noticed, hc, Except.toOption]

namespace Drawn

variable {id : String} {row : Option Profile}

/-! ## How profiles and referrals are dated -/

/-- A write notes a time in the profile, or leaves the one that was noted before. -/
theorem updatedAt_of_makes {now : Timestamp} {p : Profile}
    (hp : (writeOf e.aggregateId e.version e.eventAt c).Makes now row p) :
    some p.updatedAt = (c.noted e.eventAt now).or (row.map Profile.updatedAt) := by
  cases c with
  | created s =>
    cases hp
    rfl
  | deleted | referralCreated | referralCompleted | pointsEarned =>
    cases hp with | amended _ ha =>
    cases Profile.amend_eq_ok_iff.1 ha
    rfl

/-- A profile is dated by what was noted last. -/
theorem updatedAt_eq (h : Drawn es ts row) : row.map Profile.updatedAt = (noted es ts).getLast? := by
  induction h with
  | nothing => rfl
  | @event es ts row h e wr hwr now p hp ih =>
    obtain ⟨c, hc, rfl⟩ := writeFor_eq_ok_iff.1 hwr
    rw [noted_concat h.length_eq.symm hc, List.getLast?_append, Option.map_some,
      updatedAt_of_makes hp, ih]
    cases c.noted e.eventAt now <;> rfl

/-- The referrals of a profile, none where there is no profile. -/
def referrals (row : Option Profile) : List Referral :=
  (row.map Profile.referrals).getD []

/-- A write does to referrals what the change does, but at another time. -/
theorem refer_of_makes {now : Timestamp} {p : Profile} {fs : Facts}
    (hp : (writeOf e.aggregateId e.version e.eventAt c).Makes now row p)
    (h : User.Refer (referrals row) fs) :
    User.Refer p.referrals (fs ++ [(c, c.dated e.eventAt now)]) := by
  cases c with
  | created s =>
    cases hp
    exact h.concat_other (by simp [Change.type]) (by simp [Change.type]) _
  | referralCreated i =>
    cases hp with | amended _ ha =>
    cases Profile.amend_eq_ok_iff.1 ha
    exact h.concat_created i e.eventAt
  | referralCompleted id =>
    cases hp with | amended _ ha =>
    cases Profile.amend_eq_ok_iff.1 ha with | furthered _ hk =>
    exact h.concat_completed hk now
  | deleted | pointsEarned =>
    cases hp with | amended _ ha =>
    cases Profile.amend_eq_ok_iff.1 ha
    exact h.concat_other (by simp [Change.type]) (by simp [Change.type]) _

/-- The referrals of a profile are what was noticed of them. -/
theorem refer (h : Drawn es ts row) : User.Refer (referrals row) (noticed es ts) := by
  induction h with
  | nothing => exact ⟨rfl, by simp [noticed]⟩
  | @event es ts row h e wr hwr now p hp ih =>
    obtain ⟨c, hc, rfl⟩ := writeFor_eq_ok_iff.1 hwr
    rw [noticed_concat h.length_eq.symm hc]
    exact refer_of_makes hp ih

/-- Where no referral is completed, they are dated by the events. -/
theorem noticed_eq_facts (h : Drawn es ts row) (hes : ∀ e ∈ es, e.type ≠ .userReferralCompleted) :
    noticed es ts = History.facts es := by
  induction h with
  | nothing => rfl
  | @event es ts row h e wr hwr now p hp ih =>
    obtain ⟨c, hc, -⟩ := writeFor_eq_ok_iff.1 hwr
    have htype : c.type ≠ .userReferralCompleted :=
      Event.type_of_decode hc ▸ hes e (by simp)
    have hdated : c.dated e.eventAt now = e.eventAt := by
      cases c with
      | referralCompleted => exact absurd rfl htype
      | created | deleted | referralCreated | pointsEarned => rfl
    rw [noticed_concat h.length_eq.symm hc, History.facts_concat es hc, hdated,
      ih fun x hx => hes x (List.mem_append_left _ hx)]

end Drawn

end Projection

/-! ## Referrals that are determined -/

/-- Where an invitation stands among facts. -/
theorem Facts.exists_split {fs : Facts} {k : Nat} (hk : k < fs.invited.length) :
    ∃ (before : Facts) (i : Invitation) (t : Timestamp) (after : Facts),
      fs = before ++ (.referralCreated i, t) :: after ∧ before.invited.length = k := by
  induction fs using List.reverseRecOn with
  | nil => simp [invited] at hk
  | append_singleton fs x ih =>
    obtain ⟨c, t⟩ := x
    rw [invited_concat, List.length_append] at hk
    by_cases hbefore : k < (invited fs).length
    · obtain ⟨before, i, t', after, rfl, hlength⟩ := ih hbefore
      exact ⟨before, i, t', after ++ [(c, t)], by simp, hlength⟩
    · cases c with
      | referralCreated i =>
        refine ⟨fs, i, t, [], rfl, ?_⟩
        simp only [List.length_singleton] at hk
        omega
      | created | deleted | referralCompleted | pointsEarned => exact absurd hk hbefore

/-- Facts tell of one list of referrals only. -/
theorem User.Refer.unique {rs rs' : List Referral} {fs : Facts} (h : Refer rs fs)
    (h' : Refer rs' fs) : rs = rs' := by
  have hlength : ∀ {rs}, Refer rs fs → rs.length = fs.invited.length := by
    intro rs h
    rw [← h.ids_eq, List.length_map]
  refine List.ext_getElem? fun k => ?_
  by_cases hk : k < fs.invited.length
  · obtain ⟨before, i, t, after, hfs, rfl⟩ := Facts.exists_split hk
    rw [h.standing before i t after hfs, h'.standing before i t after hfs]
  · rw [List.getElem?_eq_none (by rw [hlength h]; omega),
      List.getElem?_eq_none (by rw [hlength h']; omega)]

/-! ## When the times of writing make no difference -/

/-- What is drawn of these events does not show when they were written: no referral is completed, and
the last event gives no points. -/
structure History.Timeless (es : List Event) : Prop where
  /-- no referral is completed -/
  completed : ∀ e ∈ es, e.type ≠ .userReferralCompleted
  /-- the last event gives no points -/
  last : ∀ e, es.getLast? = some e → e.type ≠ .pointsEarned

/-- Profiles that show the same user differ by nothing but dates. -/
theorem Profile.Shows.eq {p q : Profile} {u : User} (hp : p.Shows u) (hq : q.Shows u)
    (hreferrals : p.referrals = q.referrals) (hupdated : p.updatedAt = q.updatedAt) : p = q := by
  have hcode := Option.some.inj (hp.referralCode_eq.trans hq.referralCode_eq.symm)
  have hcreated := Option.some.inj (hp.createdAt_eq.trans hq.createdAt_eq.symm)
  have hid := hp.id_eq.trans hq.id_eq.symm
  have hname := hp.username_eq.trans hq.username_eq.symm
  have hemail := hp.email_eq.trans hq.email_eq.symm
  have hpoints := hp.points_eq.trans hq.points_eq.symm
  have hreferred := hp.referredByCode_eq.trans hq.referredByCode_eq.symm
  have hversion := hp.version_eq.trans hq.version_eq.symm
  have hdeleted := hp.deletedAt_eq.trans hq.deletedAt_eq.symm
  cases p
  cases q
  simp only [mk.injEq]
  exact ⟨hid, hname, hemail, hpoints, hcode, hreferred, hreferrals, hversion, hcreated, hupdated,
    hdeleted⟩

namespace Projection.Drawn

variable {id : String} {es before : List Event} {e : Event} {c : Change} {ts ts' : List Timestamp}
  {row row' : Option Profile} {p q : Profile} {now : Timestamp}

/-- A time is noted for the last event, and it is not that of writing. -/
theorem updatedAt_of_timeless (h : Drawn (es ++ [e]) ts (some p))
    (ht : History.Timeless (es ++ [e])) (hc : e.decode = .ok c) :
    some p.updatedAt = c.noted e.eventAt e.eventAt := by
  obtain ⟨ts', now, row, wr, q, -, hq, -, hwr, hp⟩ := h.of_concat
  obtain rfl := Option.some.inj hq
  obtain ⟨c', hc', rfl⟩ := writeFor_eq_ok_iff.1 hwr
  cases hc.symm.trans hc'
  have hcompleted := ht.completed e (by simp)
  have hpoints := ht.last e (by simp)
  rw [← Event.type_of_decode hc] at hcompleted hpoints
  rw [updatedAt_of_makes hp]
  cases c with
  | referralCompleted => exact absurd rfl hcompleted
  | pointsEarned => exact absurd rfl hpoints
  | created | deleted | referralCreated => rfl

/-- The times of writing make no difference. -/
theorem eq_of_timeless (h : Drawn es ts row) (h' : Drawn es ts' row')
    (hes : History.Projectable id es) (ht : History.Timeless es) : row = row' := by
  rcases h.shows hes with ⟨rfl, rfl⟩ | ⟨p, u, rfl, -, hu, hshows⟩
  · exact h'.of_nil.2.symm
  rcases h'.shows hes with ⟨rfl, -⟩ | ⟨q, v, rfl, -, hv, hshows'⟩
  · cases h.of_nil.2
  cases hu.symm.trans hv
  have hreferrals : p.referrals = q.referrals := by
    have hp := h.refer
    have hq := h'.refer
    rw [h.noticed_eq_facts ht.completed] at hp
    rw [h'.noticed_eq_facts ht.completed] at hq
    exact hp.unique hq
  refine congrArg some (hshows.eq hshows' hreferrals ?_)
  rcases List.eq_nil_or_concat es with rfl | ⟨es, e, rfl⟩
  · cases h.of_nil.2
  rw [List.concat_eq_append] at h h' hes ht
  obtain ⟨-, -, -, u', v', -, happly, -⟩ := hes.of_concat
  obtain ⟨c, -, hc, -⟩ := User.applyEvent_eq_ok_iff.1 happly
  exact Option.some.inj
    ((h.updatedAt_of_timeless ht hc).trans (h'.updatedAt_of_timeless ht hc).symm)

/-! ## When they do -/

/-- A referral that is dated by a time stays so when something else is written at that time. -/
theorem dated_of_makes {wr : Write} (hq : wr.Makes now (some p) q) {k : Nat}
    (hk : p.referrals[k]?.map Referral.updatedAt = some now) :
    q.referrals[k]?.map Referral.updatedAt = some now := by
  obtain ⟨r, hr, hdate⟩ := Option.map_eq_some_iff.1 hk
  cases hq with | amended _ ha =>
  cases Profile.amend_eq_ok_iff.1 ha with
  | left | credited => exact hk
  | referred r' =>
    show (p.referrals ++ [r'])[k]?.map _ = _
    rw [List.getElem?_append_left (List.getElem?_eq_some_iff.1 hr).1]
    exact hk
  | @furthered _ _ i _ =>
    show (p.referrals.modify i _)[k]?.map _ = _
    rw [List.getElem?_modify, hr]
    by_cases hik : i = k <;> simp [hik, hdate]

/-- A referral that is completed is dated by the time of writing. -/
theorem dated_of_completed {u : User} {k : Nat} {referralId : String}
    (h : Drawn (before ++ [e]) ts (some p)) (hbefore : History.Projectable id before)
    (hu : User.ofHistory id before = .ok u) (hc : e.decode = .ok (.referralCompleted referralId))
    (hk : u.referrals.findIdx? (fun r => r.id = referralId) = some k)
    (hnow : ∀ t ∈ ts, t = now) : p.referrals[k]?.map Referral.updatedAt = some now := by
  obtain ⟨ts', t, row, wr, q, rfl, hq, hdrawn, hwr, hp⟩ := h.of_concat
  obtain rfl := Option.some.inj hq
  obtain rfl := hnow t (by simp)
  obtain ⟨c, hc', rfl⟩ := writeFor_eq_ok_iff.1 hwr
  cases hc.symm.trans hc'
  cases hp with | @amended p₀ _ _ _ _ _ ha =>
  rcases hdrawn.shows hbefore with ⟨-, hnone⟩ | ⟨p₁, v, hp₁, -, hv, hshows⟩
  · cases hnone
  obtain rfl := Option.some.inj hp₁
  cases hu.symm.trans hv
  rw [← hshows.findIdx?_eq] at hk
  cases Profile.amend_eq_ok_iff.1 ha with | furthered _ hi =>
  cases hk.symm.trans hi
  show (p₀.referrals.modify k _)[k]?.map _ = _
  rw [List.getElem?_modify_eq, List.getElem?_eq_getElem (List.findIdx?_eq_some_iff_getElem.1 hk).1]
  rfl

/-- Where a referral is completed, there is a place at which a referral is dated by the time of
writing, whenever that is. -/
theorem exists_dated (hes : History.Projectable id es) (he : e ∈ es)
    (htype : e.type = .userReferralCompleted) :
    ∃ k : Nat, ∀ now ts p, Drawn es ts (some p) → (∀ t ∈ ts, t = now) →
      p.referrals[k]?.map Referral.updatedAt = some now := by
  obtain ⟨before, after, rfl⟩ := List.append_of_mem he
  rw [List.append_cons] at hes ⊢
  obtain ⟨-, -, -, u, v, hu, happly, -⟩ := hes.of_append.of_concat
  obtain ⟨c, w, hc, hw, -⟩ := User.applyEvent_eq_ok_iff.1 happly
  cases c with
  | created | deleted | referralCreated | pointsEarned =>
    cases (Event.type_of_decode hc).trans htype
  | referralCompleted referralId =>
  rw [User.change] at hw
  split at hw
  · cases hw
  next k hk =>
  refine ⟨k, fun now ts p h hnow => ?_⟩
  -- What comes after the completion is written at the same time.
  induction after using List.reverseRecOn generalizing ts p with
  | nil =>
    rw [List.append_nil] at h
    exact dated_of_completed h hes.of_append.init hu hc hk hnow
  | append_singleton after x ih =>
    rw [← List.append_assoc] at h hes
    obtain ⟨ts', t, row, wr, q, rfl, hq, hdrawn, hwr, hp⟩ := h.of_concat
    obtain rfl := Option.some.inj hq
    obtain rfl := hnow t (by simp)
    rcases hdrawn.shows hes.init with ⟨hnil, -⟩ | ⟨p₀, -, rfl, -⟩
    · simp at hnil
    exact dated_of_makes hp
      (ih hes.init (by simp) ts' p₀ hdrawn fun t' ht' => hnow t' (List.mem_append_left _ ht'))

/-- Where points are given last, the profile is dated by the time of writing. -/
theorem dated_of_pointsEarned (h : Drawn es ts (some p)) (he : es.getLast? = some e)
    (htype : e.type = .pointsEarned) (hnow : ∀ t ∈ ts, t = now) : p.updatedAt = now := by
  obtain ⟨before, rfl⟩ := List.getLast?_eq_some_iff.1 he
  obtain ⟨ts', t, row, wr, q, rfl, hq, -, hwr, hp⟩ := h.of_concat
  obtain rfl := Option.some.inj hq
  obtain rfl := hnow t (by simp)
  obtain ⟨c, hc, rfl⟩ := writeFor_eq_ok_iff.1 hwr
  cases c with
  | pointsEarned n => exact Option.some.inj (updatedAt_of_makes hp)
  | created | deleted | referralCreated | referralCompleted =>
    cases (Event.type_of_decode hc).trans htype

/-- If profiles that are written at different times have the same dates, then the times of writing do
not show. -/
theorem timeless_of_dates (updatedAt : Timestamp) (dates : List Timestamp)
    (hes : History.Projectable id es)
    (h : ∀ now, ∃ ts p, Drawn es ts (some p) ∧ (∀ t ∈ ts, t = now) ∧ p.updatedAt = updatedAt ∧
      p.referrals.map Referral.updatedAt = dates) : History.Timeless es := by
  have hne : clock 0 ≠ clock 1 := by decide
  obtain ⟨ts₀, p₀, h₀, hnow₀, hupdated₀, hdates₀⟩ := h (clock 0)
  obtain ⟨ts₁, p₁, h₁, hnow₁, hupdated₁, hdates₁⟩ := h (clock 1)
  constructor
  · intro e he htype
    obtain ⟨k, hk⟩ := exists_dated hes he htype
    have hk₀ := hk _ _ _ h₀ hnow₀
    have hk₁ := hk _ _ _ h₁ hnow₁
    rw [← List.getElem?_map, hdates₀] at hk₀
    rw [← List.getElem?_map, hdates₁] at hk₁
    exact hne (Option.some.inj (hk₀.symm.trans hk₁))
  · intro e he htype
    refine hne ?_
    rw [← dated_of_pointsEarned h₀ he htype hnow₀, ← dated_of_pointsEarned h₁ he htype hnow₁,
      hupdated₀, hupdated₁]

end Projection.Drawn

end Loyalty
