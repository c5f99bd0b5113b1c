import Loyalty.Proofs.ReadModel.Profile

/-!
# What a history is projected to

A profile is drawn event by event, and each event is written at some time. `Projection.Drawn` says
what is made of a history that was written at given times, without saying who wrote it, how, or what
went wrong on the way.

The histories in question are those that begin with their only sign-up and can be replayed. Nothing
gets in the way of such a history: whatever was drawn of its first events, the next can be written,
at any time.

Main statements: at whatever times a history is written, one thing is drawn of it and no other, and
this shows the user to whom the history replays.
-/

namespace Loyalty

open Time

/-! ## Histories that can be projected -/

/-- A history that begins with its only sign-up and can be replayed. -/
structure History.Projectable (id : String) (es : List Event) : Prop where
  /-- all events are of the user -/
  aggregateId_eq : ∀ e ∈ es, e.aggregateId = id
  /-- the versions count up from 1 -/
  gapless : Gapless es
  /-- the first event is a sign-up, and no other is -/
  created_iff_first : ∀ e ∈ es, e.type = .userCreated ↔ e.version = 1
  /-- the history can be replayed -/
  replays : ∃ u, User.ofHistory id es = .ok u

namespace History.Projectable

variable {id : String} {es fs : List Event} {e : Event}

/-- Without its last event it still can be projected. -/
theorem init (h : Projectable id (es ++ [e])) : Projectable id es := by
  obtain ⟨v, hv⟩ := h.replays
  rw [User.ofHistory_append h.gapless] at hv
  obtain ⟨u, hu, -⟩ := eq_ok_of_bind hv
  exact ⟨fun e' he' => h.aggregateId_eq e' (List.mem_append_left _ he'), h.gapless.of_append,
    fun e' he' => h.created_iff_first e' (List.mem_append_left _ he'), u, hu⟩

theorem of_append (h : Projectable id (es ++ fs)) : Projectable id es := by
  induction fs using List.reverseRecOn with
  | nil => rwa [List.append_nil] at h
  | append_singleton fs e ih =>
    rw [← List.append_assoc] at h
    exact ih h.init

theorem take (h : Projectable id es) (k : Nat) : Projectable id (es.take k) := by
  rw [← List.take_append_drop k es] at h
  exact h.of_append

/-- The last event is applied to the user to whom the others replay. -/
theorem of_concat (h : Projectable id (es ++ [e])) :
    e.aggregateId = id ∧ e.version = es.length + 1 ∧ (e.type = .userCreated ↔ es = []) ∧
      ∃ u v, User.ofHistory id es = .ok u ∧ u.applyEvent e = .ok v ∧
        User.ofHistory id (es ++ [e]) = .ok v := by
  have hmem : e ∈ es ++ [e] := by simp
  have hversion : e.version = es.length + 1 := h.gapless.version_eq List.getElem?_concat_length
  obtain ⟨v, hv⟩ := h.replays
  have happly := hv
  rw [User.ofHistory_append h.gapless] at happly
  obtain ⟨u, hu, happly⟩ := eq_ok_of_bind happly
  refine ⟨h.aggregateId_eq e hmem, hversion, ?_, u, v, hu, happly, hv⟩
  rw [h.created_iff_first e hmem, hversion, Nat.add_eq_right, List.length_eq_zero_iff]

end History.Projectable

namespace Projection

/-! ## What is drawn -/

/-- What is made of a history whose events were written one by one, each at its time. -/
inductive Drawn : List Event → List Timestamp → Option Profile → Prop where
  /-- of nothing comes nothing -/
  | nothing : Drawn [] [] none
  /-- one event more was written -/
  | event {es : List Event} {ts : List Timestamp} {row : Option Profile} (h : Drawn es ts row)
    {e : Event} {wr : Write} (hwr : writeFor e = .ok wr) {now : Timestamp} {p : Profile}
    (hp : wr.Makes now row p) : Drawn (es ++ [e]) (ts ++ [now]) (some p)

namespace Drawn

variable {id : String} {es : List Event} {e : Event} {ts : List Timestamp} {row : Option Profile}

theorem of_nil (h : Drawn [] ts row) : ts = [] ∧ row = none := by
  generalize hes : ([] : List Event) = es at h
  cases h with
  | nothing => exact ⟨rfl, rfl⟩
  | event => simp at hes

theorem of_concat (h : Drawn (es ++ [e]) ts row) :
    ∃ ts' now row' wr p, ts = ts' ++ [now] ∧ row = some p ∧ Drawn es ts' row' ∧
      writeFor e = .ok wr ∧ wr.Makes now row' p := by
  generalize hes : es ++ [e] = all at h
  cases h with
  | nothing => simp at hes
  | event h hwr hp =>
    obtain ⟨rfl, hlast⟩ := List.append_inj' hes rfl
    obtain rfl := (List.cons.inj hlast).1
    exact ⟨_, _, _, _, _, rfl, rfl, h, hwr, hp⟩

theorem length_eq (h : Drawn es ts row) : ts.length = es.length := by
  induction h with
  | nothing => rfl
  | event _ _ _ ih => simp [ih]

/-- The times of writing decide what is drawn. -/
theorem unique (h : Drawn es ts row) {row' : Option Profile} (h' : Drawn es ts row') :
    row' = row := by
  induction h generalizing row' with
  | nothing => exact h'.of_nil.2
  | @event es ts row _ e wr hwr now p hp ih =>
    obtain ⟨ts', now', row'', wr', p', hts, rfl, hbefore, hwr', hp'⟩ := h'.of_concat
    obtain ⟨rfl, hnow⟩ := List.append_inj' hts rfl
    obtain rfl := (List.cons.inj hnow).1
    obtain rfl := ih hbefore
    cases hwr.symm.trans hwr'
    cases hp with
    | created =>
      cases hp'
      rfl
    | amended _ hq =>
      cases hp' with
      | amended _ hq' =>
        cases hq.symm.trans hq'
        rfl

/-- What is drawn shows the user to whom the history replays. -/
theorem shows (h : Drawn es ts row) (hes : History.Projectable id es) :
    (es = [] ∧ row = none) ∨
      ∃ p u, row = some p ∧ p.version = es.length ∧ User.ofHistory id es = .ok u ∧ p.Shows u := by
  induction h with
  | nothing => exact .inl ⟨rfl, rfl⟩
  | @event es ts row h e wr hwr now p hp ih =>
    obtain ⟨rfl, hversion, -, u, v, hu, happly, hv⟩ := hes.of_concat
    refine .inr ⟨p, v, rfl, ?_, hv, ?_⟩
    · rw [version_of_makes hwr hp, hversion, List.length_append, List.length_singleton]
    rcases ih hes.init with ⟨rfl, rfl⟩ | ⟨q, u', rfl, -, hu', hshows⟩
    · obtain ⟨v', hv', hshows⟩ := Profile.shows_of_created hwr hp
      rw [User.ofHistory_nil] at hu
      cases hu
      cases happly.symm.trans hv'
      exact hshows
    · cases hu.symm.trans hu'
      obtain ⟨v', hv', hshows'⟩ := hshows.of_makes hwr hp
      cases happly.symm.trans hv'
      exact hshows'

theorem version_eq (h : Drawn es ts row) (hes : History.Projectable id es) :
    (row.map Profile.version).getD 0 = es.length := by
  rcases h.shows hes with ⟨rfl, rfl⟩ | ⟨p, u, rfl, hversion, -⟩
  · rfl
  · exact hversion

/-- The next event can be written, whatever was drawn of those before it. -/
theorem exists_makes (h : Drawn es ts row) (hes : History.Projectable id (es ++ [e]))
    (now : Timestamp) : ∃ wr p, writeFor e = .ok wr ∧ wr.Makes now row p := by
  obtain ⟨rfl, hversion, hcreated, u, v, hu, happly, -⟩ := hes.of_concat
  rcases h.shows hes.init with ⟨rfl, rfl⟩ | ⟨p, u', rfl, hp, hu', hshows⟩
  · -- The first event is a sign-up, and there is no profile yet.
    obtain ⟨c, w, hc, -⟩ := User.applyEvent_eq_ok_iff.1 happly
    have htype : c.type = .userCreated := (Event.type_of_decode hc).trans (hcreated.2 rfl)
    cases c with
    | created s => exact ⟨_, _, writeFor_eq_ok_iff.2 ⟨_, hc, rfl⟩, .created _⟩
    | deleted | referralCreated | referralCompleted | pointsEarned => cases htype
  · cases hu.symm.trans hu'
    refine hshows.makes happly (fun htype => ?_) (by rw [hversion, hp]) now
    obtain rfl := hcreated.1 htype
    cases h.of_nil.2

end Drawn

end Projection

end Loyalty
