import Loyalty.Proofs.User.Decision

/-!
# How histories grow

A history has grown in order when it began with a sign-up and every further event was decided on
the user to whom the events before it replay. `History.Grown` says this and nothing else. It says
how the history came about, and two things follow about what it looks like and what can be done
with it.

Main statements: a history that has grown in order is well-formed, down to who signs up, leaves and
completes a referral at which place; and it can be replayed exactly when the sum of all its points
is an amount of points.
-/

namespace Loyalty.History

/-- A history that began with a sign-up, and of which every further event was decided on what the
events before it replay to. -/
inductive Grown (id : String) : List Event → Prop where
  /-- nothing has happened -/
  | nil : Grown id []
  /-- the user signed up -/
  | signUp {s : SignUp} (hs : (Change.created s).checked = .ok (.created s))
    (now : Time.Timestamp) : Grown id [Event.ofChange id 1 (.created s) now]
  /-- a change that the user admitted -/
  | more {es : List Event} (h : Grown id es) (hne : es ≠ []) {u : User}
    (hu : User.ofHistory id es = .ok u) {c : Change} (hc : u.Admits c) (now : Time.Timestamp) :
    Grown id (es ++ [Event.ofChange id (es.length + 1) c now])

/-- What every stored history of a user looks like. -/
structure WellFormed (id : String) (es : List Event) : Prop where
  /-- all events are of the user -/
  aggregateId_eq : ∀ e ∈ es, e.aggregateId = id
  /-- the versions count up from 1 -/
  gapless : es.map Event.version = List.range' 1 es.length
  /-- the first event is a sign-up, and no other is -/
  created_iff_first : ∀ before e after, es = before ++ e :: after →
    (e.type = .userCreated ↔ before = [])
  /-- nothing comes after a deletion -/
  deleted_last : ∀ before e after, es = before ++ e :: after → e.type = .userDeleted → after = []
  /-- a referral that is completed was created before -/
  completed_known : ∀ before e after, es = before ++ e :: after →
    e.type = .userReferralCompleted →
      ∃ referralId, e.decode = .ok (.referralCompleted referralId) ∧
        ∃ e' ∈ before, ∃ i, e'.decode = .ok (.referralCreated i) ∧ i.referralId = referralId

theorem Grown.gapless {id : String} {es : List Event} (h : Grown id es) : Gapless es := by
  induction h with
  | nil => exact gapless_nil
  | signUp hs now => rfl
  | more _ _ _ _ now ih => exact ih.append rfl

/-- How the last event of a history came about. -/
theorem Grown.of_concat {id : String} {es : List Event} {e : Event} (h : Grown id (es ++ [e])) :
    (es = [] ∧ ∃ s now, (Change.created s).checked = .ok (.created s) ∧
        e = Event.ofChange id 1 (.created s) now) ∨
      (es ≠ [] ∧ Grown id es ∧ ∃ u c now, User.ofHistory id es = .ok u ∧ u.Admits c ∧
        e = Event.ofChange id (es.length + 1) c now) := by
  generalize hall : es ++ [e] = all at h
  cases h with
  | nil => exact absurd hall (by simp)
  | @signUp s hs now =>
    obtain ⟨rfl, hlast⟩ := List.append_inj' (show es ++ [e] = [] ++ [_] from hall) rfl
    exact .inl ⟨rfl, s, now, hs, (List.cons.inj hlast).1⟩
  | @more es' h hne u hu c hc now =>
    obtain ⟨rfl, hlast⟩ := List.append_inj' hall rfl
    exact .inr ⟨hne, h, u, c, now, hu, hc, (List.cons.inj hlast).1⟩

/-- What a history has grown from has grown in order. -/
theorem Grown.of_append {id : String} {es fs : List Event} (h : Grown id (es ++ fs)) :
    Grown id es := by
  induction fs using List.reverseRecOn with
  | nil => rwa [List.append_nil] at h
  | append_singleton fs e ih =>
    rw [← List.append_assoc] at h
    rcases h.of_concat with ⟨hnil, -⟩ | ⟨-, hbefore, -⟩
    · rw [(List.append_eq_nil_iff.1 hnil).1]
      exact .nil
    · exact ih hbefore

/-- As long as there was more to come the history could be replayed. -/
theorem Grown.replays_of_append {id : String} {es fs : List Event} {e : Event}
    (h : Grown id (es ++ e :: fs)) : ∃ u, User.ofHistory id es = .ok u := by
  rw [List.append_cons] at h
  rcases h.of_append.of_concat with ⟨rfl, -⟩ | ⟨-, -, u, c, now, hu, -⟩
  · exact ⟨_, User.ofHistory_nil id⟩
  · exact ⟨u, hu⟩

/-- A sign-up alone. -/
theorem wellFormed_signUp (id : String) (s : SignUp) (now : Time.Timestamp) :
    WellFormed id [Event.ofChange id 1 (.created s) now] := by
  have hplace : ∀ {before e after}, [Event.ofChange id 1 (.created s) now] = before ++ e :: after →
      after = [] ∧ before = [] ∧ e = Event.ofChange id 1 (.created s) now := by
    intro before e after hes
    rcases @split_concat _ [] _ _ _ _ hes with hlast | ⟨after', -, hnil⟩
    · exact hlast
    · simp at hnil
  refine ⟨by simp [Event.ofChange], rfl, ?_, ?_, ?_⟩
  · intro before e after hes
    obtain ⟨-, rfl, rfl⟩ := hplace hes
    exact ⟨fun _ => rfl, fun _ => rfl⟩
  · intro before e after hes htype
    exact (hplace hes).1
  · intro before e after hes htype
    obtain ⟨-, -, rfl⟩ := hplace hes
    cases htype

/-- One more change, which the user admitted to whom the history replays. In each case the event in
question is the new one, or it stands in the history before. -/
theorem WellFormed.more {id : String} {es : List Event} (h : WellFormed id es) (hne : es ≠ [])
    {u : User} (hu : u.Reflects id es) {c : Change} (hc : u.Admits c) (now : Time.Timestamp) :
    WellFormed id (es ++ [Event.ofChange id (es.length + 1) c now]) := by
  have hgapless : Gapless es := h.gapless
  refine ⟨?_, hgapless.append rfl, ?_, ?_, ?_⟩
  · intro e he
    rcases List.mem_append.1 he with he | he
    · exact h.aggregateId_eq e he
    · obtain rfl := List.mem_singleton.1 he
      rfl
  · intro before e after hes
    rcases split_concat hes with ⟨-, rfl, rfl⟩ | ⟨after', -, hes'⟩
    · exact ⟨fun htype => absurd htype hc.not_created, fun hnil => absurd hnil hne⟩
    · exact h.created_iff_first before e after' hes'
  · intro before e after hes htype
    rcases split_concat hes with ⟨rfl, -, -⟩ | ⟨after', -, hes'⟩
    · rfl
    · -- A user whose history holds a deletion has left, and admits nothing.
      have hmem : e ∈ es := by simp [hes']
      have hleft : u.isDeleted = true := hu.isDeleted_iff.2 ⟨e, hmem, htype⟩
      rw [hc.active] at hleft
      cases hleft
  · intro before e after hes htype
    rcases split_concat hes with ⟨-, rfl, rfl⟩ | ⟨after', -, hes'⟩
    · cases c with
      | referralCompleted referralId =>
        -- The user knows the referral, and what the user knows was created.
        refine ⟨referralId, Event.decode_ofChange hc.checked _ _ _, ?_⟩
        obtain ⟨r, hr, rfl⟩ := hc.known referralId rfl
        exact hu.referrals r hr
      | created | deleted | referralCreated | pointsEarned => cases htype
    · exact h.completed_known before e after' hes' htype

/-- A history that has grown in order is well-formed. -/
theorem Grown.wellFormed {id : String} {es : List Event} (h : Grown id es) :
    WellFormed id es := by
  induction h with
  | nil => exact ⟨by simp, rfl, by simp, by simp, by simp⟩
  | signUp hs now => exact wellFormed_signUp id _ now
  | more h hne hu hc now ih =>
    exact ih.more hne (User.reflects_of_ofHistory h.gapless hu) hc now

/-- A history that has grown in order can be replayed exactly when the sum of its points is an
amount of points. -/
theorem Grown.replays_iff {id : String} {es : List Event} (h : Grown id es) :
    (∃ u, User.ofHistory id es = .ok u) ↔ points es < Text.word32 := by
  cases h with
  | nil => exact ⟨fun _ => by decide, fun _ => ⟨_, User.ofHistory_nil id⟩⟩
  | @signUp s hs now =>
    have hdecode : (Event.ofChange id 1 (.created s) now).decode = .ok (.created s) :=
      Event.decode_ofChange hs id 1 now
    have hpoints : points [Event.ofChange id 1 (.created s) now] = 0 := by
      rw [points, List.map_singleton, Event.points_eq hdecode]
      rfl
    have hgapless : Gapless ([] ++ [Event.ofChange id 1 (.created s) now]) := rfl
    have hfirst := User.ofHistory_append_of_ok hgapless (User.ofHistory_nil id)
    obtain ⟨u, hu⟩ : ∃ u, (User.new id).applyEvent (Event.ofChange id 1 (.created s) now) = .ok u :=
      User.applyEvent_ofChange hs rfl
    refine ⟨fun _ => by rw [hpoints]; decide, fun _ => ⟨u, ?_⟩⟩
    rw [hu, List.nil_append] at hfirst
    exact hfirst
  | @more es h hne u hu c hc now =>
    have hreflects : u.Reflects id es := User.reflects_of_ofHistory h.gapless hu
    have hgapless : Gapless (es ++ [Event.ofChange id (es.length + 1) c now]) :=
      h.gapless.append rfl
    rw [User.ofHistory_append_of_ok hgapless hu, points_append, ← hreflects.points_eq,
      Event.points_eq (Event.decode_ofChange hc.checked _ _ _), Change.points_carried]
    exact User.applyEvent_admitted_iff hc

end Loyalty.History
