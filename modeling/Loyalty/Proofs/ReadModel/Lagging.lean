import Loyalty.Proofs.ReadModel.Grounds

/-!
# A profile that has fallen behind

The projection catches up on a user once. When it has done so and then misses an event, because all
attempts to deliver it have failed, the events that come later do not follow on the profile, and the
one that does is not delivered again. What would have to be written is neither among the events that
are saved from then on nor loaded by anybody, so nobody has grounds to write it.

Main statement: a profile that has fallen behind in this way stays as it is for ever, whatever is
dispatched, however it is interleaved, and whether operations fail or not.
-/

namespace Loyalty

open History Simulation Projection

namespace Simulation.World

/-- The version of the profile of a user, 0 when there is none. -/
def shownVersion (w : World) (id : String) : Nat :=
  ((w.readModel.find? id).map Profile.version).getD 0

/-- The projection has caught up on the user before, and the profile lacks events. -/
structure Lags (w : World) (id : String) : Prop where
  /-- the projection will not catch up again -/
  synced : (0, id) ∈ w.synced
  /-- events are missing -/
  behind : w.shownVersion id < w.store.lastVersion id

instance (w : World) (id : String) : Decidable (w.Lags id) :=
  decidable_of_iff ((0, id) ∈ w.synced ∧ w.shownVersion id < w.store.lastVersion id)
    ⟨fun h => ⟨h.1, h.2⟩, fun h => ⟨h.synced, h.behind⟩⟩

end Simulation.World

/-! ## What is heard while a profile lags -/

/-- While the profile of a user lags, an exchange gives no grounds to write to it. -/
structure Exchange.Harmless (w : World) (id : String) (x : Exchange) : Prop where
  /-- events that are saved come later than those that are missing -/
  saved : ∀ e ∈ x.saved, e.aggregateId = id → w.store.lastVersion id < e.version
  /-- nobody is told to catch up on the user -/
  synced : x ≠ ⟨.isSynced 0 id, false⟩
  /-- nobody loads the events of one user for those of another -/
  loaded : ∀ {other version missing}, x = ⟨.loadAfter other version, .ok missing⟩ →
    ∀ e ∈ missing, e.aggregateId = other
  /-- nobody is shown a profile where there is none -/
  shown : x.ShowsProfile id → w.readModel.find? id ≠ none

/-- So nothing is written to it. -/
theorem Simulation.World.Lags.not_makes {w : World} {id : String} (hw : w.Lags id)
    {heard : List Exchange} (hheard : ∀ x ∈ heard, x.Harmless w id) {wr : Write}
    (h : Grounds heard (.write wr)) (hid : wr.userId = id) {now : Time.Timestamp} {p : Profile} :
    ¬ wr.Makes now (w.readModel.find? id) p := by
  intro hp
  obtain ⟨e, hwr, hgrounds⟩ := h
  have hevent : e.aggregateId = id := (userId_of_writeFor hwr).symm.trans hid
  rcases hgrounds with ⟨he, hfirst⟩ | ⟨other, current, missing, hsynced, hload, he, -⟩
  · obtain ⟨x, hx, he⟩ := List.mem_flatMap.1 he
    have hlate : w.store.lastVersion id < e.version := (hheard x hx).saved e he hevent
    have hversion : p.version = e.version := version_of_makes hwr hp
    have hbehind := hw.behind
    cases hrow : w.readModel.find? id with
    | none =>
      -- The first event would do, but there has been one already.
      rcases hfirst with hone | ⟨y, hy, hshows⟩
      · omega
      · exact (hheard y hy).shown (hevent ▸ hshows) hrow
    | some q =>
      rw [hrow] at hp
      have hnext := version_succ_of_makes hp
      rw [World.shownVersion, hrow, Option.map_some, Option.getD_some] at hbehind
      omega
  · obtain rfl : id = other := hevent.symm.trans ((hheard _ hload).loaded rfl e he)
    exact (hheard _ hsynced).synced rfl

/-! ## Runs -/

/-- A pool in which nothing has changed for a user whose profile lags in `w`, but for events that
were saved. -/
structure Standstill (w : World) (id : String) (P : Pool World) : Prop where
  /-- no event got lost -/
  held : ∃ es, P.state.store = .holding es ∧ (∀ id, Gapless (ofUser id es)) ∧
    w.store.lastVersion id ≤ (ofUser id es).length
  /-- the projection does not catch up again -/
  synced : (0, id) ∈ P.state.synced
  /-- the profile is as it was -/
  find?_eq : P.state.readModel.find? id = w.readModel.find? id
  /-- nothing was heard that would give grounds to write to it -/
  harmless : ∀ x ∈ P.log.heard, x.Harmless w id

variable {w : World} {id : String} {P Q : Pool World}

/-- What becomes of the read model does not touch the profile. -/
theorem Standstill.becomes (h : Standstill w id P) (hw : w.Lags id) {x : Exchange} {m : ReadModel}
    (hbecomes : P.state.readModel.Becomes x m) (hgrounds : Grounds P.log.heard x.request) :
    m.find? id = w.readModel.find? id ∧ (x.ShowsProfile id → w.readModel.find? id ≠ none) := by
  cases hbecomes with
  | same _ hshows =>
    refine ⟨h.find?_eq, fun hid => ?_⟩
    obtain ⟨p, hp⟩ := hshows id hid
    rw [← h.find?_eq, hp]
    simp
  | @wrote wr _ _ hwrite =>
    obtain ⟨p, hp, hfind⟩ := ReadModel.makes_of_write hwrite
    have hne : wr.userId ≠ id := by
      intro hid
      rw [hid, h.find?_eq] at hp
      exact hw.not_makes h.harmless hgrounds hid hp
    exact ⟨by rw [hfind, if_neg (Ne.symm hne), h.find?_eq], fun hid => absurd hid hne⟩

/-- What was saved comes later than what is missing. -/
theorem Standstill.saved_late (h : Standstill w id P) {x : Exchange} (hx : x.IsTrueOf P.state.store) :
    ∀ e ∈ x.saved, e.aggregateId = id → w.store.lastVersion id < e.version := by
  intro e he hid
  obtain ⟨es, hstore, hes, hle⟩ := h.held
  rcases x.saved_eq with hnone | ⟨fs, rfl⟩
  · rw [hnone] at he
    cases he
  · obtain ⟨s', hs'⟩ := hx
    rw [hstore] at hs'
    have hgapless := (EventStore.gapless_of_save hes hs').2 id
    rw [ofUser_append] at hgapless
    obtain ⟨i, hi⟩ := List.mem_iff_getElem?.1
      (show e ∈ ofUser id fs from List.mem_filter.2 ⟨he, decide_eq_true hid⟩)
    have hplace : (ofUser id es ++ ofUser id fs)[(ofUser id es).length + i]? = some e := by
      rw [List.getElem?_append_right (Nat.le_add_right _ _), Nat.add_sub_cancel_left, hi]
    have := hgapless.version_eq hplace
    omega

/-- An answer is given while the pool stands still. -/
theorem Standstill.harmless_answer (h : Standstill w id P) (hw : w.Lags id) (r : Request)
    (hgrounds : Grounds P.log.heard r) : Exchange.Harmless w id ⟨r, (P.state.answer r).1⟩ := by
  have htrue := (World.tells_answer P.state r).isTrue
  refine ⟨h.saved_late htrue, fun hx => ?_, fun {other version missing} hx e he => ?_,
    (h.becomes hw (World.becomes_answer P.state r) hgrounds).2⟩
  · obtain ⟨rfl, hanswer⟩ := Exchange.mk.inj hx
    have hcontains : P.state.synced.contains (0, id) = false := eq_of_heq hanswer
    rw [List.contains_iff_mem.2 h.synced] at hcontains
    cases hcontains
  · obtain ⟨es, hstore, hes, -⟩ := h.held
    rw [hx, hstore] at htrue
    have hload : (EventStore.holding es).loadAfter other version = .ok missing := htrue
    rw [EventStore.loadAfter_holding (hes other)] at hload
    cases hload
    exact of_decide_eq_true (List.mem_filter.1 (List.mem_of_mem_drop he)).2

/-- The store keeps what it has. -/
theorem Standstill.held_answer (h : Standstill w id P) (r : Request) :
    ∃ es, (P.state.answer r).2.store = .holding es ∧ (∀ id, Gapless (ofUser id es)) ∧
      w.store.lastVersion id ≤ (ofUser id es).length := by
  obtain ⟨es, hstore, hes, hle⟩ := h.held
  have htells := World.tells_answer P.state r
  rw [hstore] at htells
  rcases Exchange.saved_eq ⟨r, (P.state.answer r).1⟩ with hnone | ⟨fs, hsave⟩
  · refine ⟨es, ?_, hes, hle⟩
    rw [htells.store_eq, hnone, List.map_nil, EventStore.adding_nil]
  · have htrue := htells.isTrue
    rw [hsave] at htrue
    obtain ⟨s', hs'⟩ := htrue
    refine ⟨es ++ fs, ?_, (EventStore.gapless_of_save hes hs').2, ?_⟩
    · rw [htells.store_eq, hsave, EventStore.holding_append]
      rfl
    · rw [ofUser_append, List.length_append]
      omega

/-- Whoever makes a move for which there are grounds, the pool stands still. -/
theorem Standstill.moved (h : Standstill w id P) (hw : w.Lags id)
    (hmoved : Pool.Moved World.surroundings P Q) (hgrounded : Q.log.Grounded Grounds) :
    Standstill w id Q := by
  cases hmoved with
  | silent hstate hlog | passed _ hstate hlog =>
    exact ⟨hstate ▸ h.held, hstate ▸ h.synced, hstate ▸ h.find?_eq, hlog ▸ h.harmless⟩
  | answered π r hstate hlog =>
    rw [hlog] at hgrounded
    have hgrounds : Grounds P.log.heard r := hgrounded.of_concat.2
    refine ⟨hstate ▸ h.held_answer r, hstate ▸ World.mem_synced_answer h.synced r,
      hstate ▸ (h.becomes hw (World.becomes_answer P.state r) hgrounds).1, fun x hx => ?_⟩
    rw [hlog, Log.heard, List.map_append] at hx
    rcases List.mem_append.1 hx with hx | hx
    · exact h.harmless x hx
    · obtain rfl := List.mem_singleton.1 hx
      exact h.harmless_answer hw r hgrounds

/-- **A profile that has fallen behind stays as it is**, and stays behind, whatever happens. -/
theorem Simulation.World.Lags.stays (hw : w.Lags id) {es : List Event}
    (hstore : w.store = .holding es) (hes : ∀ id, Gapless (ofUser id es)) (policy : RetryPolicy)
    (moves : List (Move Command)) :
    let P := (Pool.empty w).run World.surroundings (Wiring.standard policy).dispatch moves
    P.state.readModel.find? id = w.readModel.find? id ∧ P.state.Lags id := by
  have hstill : Standstill w id
      ((Pool.empty w).run World.surroundings (Wiring.standard policy).dispatch moves) := by
    induction moves using List.reverseRecOn with
    | nil =>
      refine ⟨⟨es, hstore, hes, ?_⟩, hw.synced, rfl, fun x hx => absurd hx List.not_mem_nil⟩
      exact Nat.le_of_eq (by rw [hstore, EventStore.lastVersion_holding (hes id)])
    | append_singleton moves move ih =>
      refine ih.moved hw ?_ (heedful_run policy w (moves ++ [move])).grounded
      rw [Pool.run, Pool.run, List.foldl_append]
      exact Pool.moved_step _ _ _ move
  obtain ⟨es', hstore', hes', hle⟩ := hstill.held
  refine ⟨hstill.find?_eq, hstill.synced, ?_⟩
  rw [hstore', EventStore.lastVersion_holding (hes' id), World.shownVersion, hstill.find?_eq]
  exact Nat.lt_of_lt_of_le hw.behind hle

end Loyalty
