import Loyalty.Proofs.ReadModel.Lagging
import Loyalty.Proofs.Stream.Report

/-!
# Recovery

Operations of the store and of the read model have failed for a while, and now none is going to fail
any more. Profiles may lack events that were saved in the meantime. The next event of a user that is
saved is delivered to the projection, and with it the others would have to be taken in.

That is what happens when the projection still has to catch up on the user, and there is nothing else
to take in when the profile lacks no event. In all other cases the delivery of the event fails, and
so does every delivery after it: the projection catches up on a user only once.

Main statement: the profile of a user recovers with the next event exactly if it does not lag.
-/

namespace Loyalty

open Function (update)
open History Simulation Execution

namespace Simulation.World

variable {w w' : World} {saved : List Event} {shown : String → List Event} (policy : RetryPolicy)

/-! ## Commands that sign nobody up -/

/-- After a command was carried out, up to the publication, the read model shows what it showed
before. -/
theorem Showing.after_persist (h : Showing saved shown w) {c : Command}
    {x : Except Failure (List Event)} (hrun : attempt (persist c) w = (x, w')) (later : List Event)
    (hstore : w'.store = .holding (saved ++ later))
    (hgrown : ∀ id, Grown id (ofUser id (saved ++ later))) : Showing (saved ++ later) shown w' := by
  obtain ⟨hfaultFree, hmodel, -⟩ := untouched_persist h.faultFree hrun
  refine ⟨hfaultFree, hstore, hgrown, fun id => ?_, fun id => hmodel ▸ h.current id⟩
  rw [ofUser_append]
  exact (h.part id).trans (List.prefix_append _ _)

theorem Showing.after_refusal (h : Showing saved shown w) {c : Command}
    {x : Except Failure (List Event)} (hrun : attempt (persist c) w = (x, w'))
    (hstore : w'.store = .holding saved) : Showing saved shown w' := by
  have hw' := h.after_persist hrun [] (by rw [List.append_nil, hstore])
    (by rw [List.append_nil]; exact h.grown)
  rwa [List.append_nil] at hw'

/-- How the dispatch of a command has ended that signs nobody up. -/
inductive Dispatched (saved : List Event) (shown : String → List Event) (w : World) (c : Command) :
    Outcome × World → Prop where
  /-- the decision was saved and delivered to the projection -/
  | stored {m : Commit} {w₁ : World} {o : Outcome} {w' : World} (hc : m.command = c)
    (hm : m.On (ofUser c.aggregateId saved)) (hbasis : m.GoesBy w)
    (hw₁ : Showing (saved ++ [m.event]) shown w₁) (hsynced : w₁.synced = w.synced)
    (hdelivered : Delivered 0 (saved ++ [m.event]) shown m.event
      (ofUser m.event.aggregateId saved) w₁ (o, w')) :
    Dispatched saved shown w c (o.mapError (.dispatch c.kind c.aggregateId), w')
  /-- there was nothing that could be saved -/
  | refused {f : Failure} {w' : World} (hw' : Showing saved shown w') (hsynced : w'.synced = w.synced)
    (hnone : ∀ m : Commit, m.command = c → m.GoesBy w → ¬ m.On (ofUser c.aggregateId saved)) :
    Dispatched saved shown w c (.error f, w')

theorem Showing.dispatch (h : Showing saved shown w) (d : Command → Activity) {c : Command}
    (hc : c.kind ≠ .createUser) :
    Dispatched saved shown w c (perform (((Wiring.standard policy).dispatcherOver
      ((Wiring.standard policy).busOver d)).dispatch c) w) := by
  cases hblank : Text.isBlank c.aggregateId with
  | true =>
    rw [perform_dispatch_of_blank policy _ hblank]
    refine .refused h rfl fun m hmc _ hm => ?_
    subst hmc
    cases hblank.symm.trans (notBlank_of_on hm)
  | false =>
    rw [perform_dispatch policy _ hblank]
    rcases attempt_persist_settled h.faultFree h.store_eq h.grown c with
      ⟨m, w₁, hrun, rfl, hm, hbasis, hstore, hgrown, -⟩ | ⟨f, w₁, hrun, hstore, hnone⟩
    · rw [hrun]
      have hw₁ : Showing (saved ++ [m.event]) shown w₁ := h.after_persist hrun [m.event] hstore hgrown
      have htype : m.event.type ≠ .userCreated := Basis.not_created_of_decide hc hm.decided
      have hid : Text.isBlank m.event.aggregateId = false := by
        rw [hm.aggregateId_eq, hblank]
      simp only [perform]
      rw [Wiring.publish_of_not_created policy d hid htype, Activity.run_andThen_idle]
      exact .stored rfl hm hbasis hw₁ (untouched_persist h.faultFree hrun).2.2
        (hw₁.delivered 0 (ofUser_concat_self saved m.event) (h.part _) _)
    · rw [hrun]
      exact .refused (h.after_refusal hrun hstore) (untouched_persist h.faultFree hrun).2.2 hnone

/-! ## What a user can rely on -/

/-- In a world without faults, the projection is ready for the next event of a user, and has taken in
all events if there are more than so many of them, unless the history cannot be replayed. -/
structure Recovers (id : String) (n : Nat) (saved : List Event) (shown : String → List Event)
    (w : World) : Prop extends Showing saved shown w where
  /-- there are no fewer events -/
  le_length : n ≤ (ofUser id saved).length
  /-- the projection is ready for the next -/
  ready : ∀ u, User.ofHistory id (ofUser id saved) = .ok u → Ready 0 w shown id (ofUser id saved)
  /-- if there are more events it has taken them in -/
  upToDate : ∀ u, User.ofHistory id (ofUser id saved) = .ok u → n < (ofUser id saved).length →
    shown id = ofUser id saved

variable {id : String} {n : Nat}

/-- Whatever happens that does not concern the user. -/
theorem Recovers.of_other (h : Recovers id n saved shown w) {saved' : List Event}
    {shown' : String → List Event} (hw' : Showing saved' shown' w')
    (hsaved : ofUser id saved' = ofUser id saved) (hshown : shown' id = shown id)
    (hsynced : (0, id) ∈ w'.synced ↔ (0, id) ∈ w.synced) : Recovers id n saved' shown' w' where
  toShowing := hw'
  le_length := hsaved ▸ h.le_length
  ready u hu := by
    rw [hsaved] at hu ⊢
    exact (h.ready u hu).imp (fun hnot => hnot ∘ hsynced.1) hshown.trans
  upToDate u hu hn := by
    rw [hsaved] at hu hn ⊢
    exact hshown.trans (h.upToDate u hu hn)

/-- An event of any user has been saved, and it has been delivered. -/
theorem Recovers.delivered (h : Recovers id n saved shown w) {e : Event} {w₁ : World}
    (hw₁ : Showing (saved ++ [e]) shown w₁) (hsynced : w₁.synced = w.synced) {o : Outcome}
    (hdelivered : Delivered 0 (saved ++ [e]) shown e (ofUser e.aggregateId saved) w₁ (o, w')) :
    ∃ shown', Recovers id n (saved ++ [e]) shown' w' := by
  by_cases hid : id = e.aggregateId
  · subst hid
    have hlength : n ≤ (ofUser e.aggregateId (saved ++ [e])).length := by
      have := h.le_length
      rw [ofUser_concat_self, List.length_append]
      omega
    cases hdelivered with
    | upToDate _ hw' =>
      exact ⟨_, hw', hlength, fun _ _ => .inr (Function.update_self ..),
        fun _ _ _ => Function.update_self ..⟩
    | behind hready hw' =>
      -- The history could be replayed before, so the projection was ready.
      obtain ⟨u, hu⟩ : ∃ u, User.ofHistory e.aggregateId (ofUser e.aggregateId saved) = .ok u := by
        have hgrown := hw₁.grown e.aggregateId
        rw [ofUser_concat_self] at hgrown
        exact hgrown.replays_of_append
      have hbefore := h.ready u hu
      rw [Ready, ← hsynced] at hbefore
      exact absurd hbefore hready
  · have hsaved : ofUser id (saved ++ [e]) = ofUser id saved := ofUser_concat_of_ne saved hid
    cases hdelivered with
    | upToDate _ hw' hothers =>
      refine ⟨_, h.of_other hw' hsaved (Function.update_of_ne hid ..) ?_⟩
      rw [hothers (0, id) hid, hsynced]
    | behind _ hw' hsame => exact ⟨_, h.of_other hw' hsaved rfl (by rw [hsame, hsynced])⟩

/-- In a world without faults a user can rely on recovering. -/
def Recovering (id : String) (n : Nat) (w : World) : Prop :=
  ∃ saved shown, Recovers id n saved shown w

theorem Recovering.answer (h : Recovering id n w) {r : Request} (hsave : r.IsNoSave)
    (hproject : r.IsNoProjection) : Recovering id n (w.answer r).2 := by
  obtain ⟨saved, shown, h⟩ := h
  have hsynced : (w.answer r).2.synced = w.synced := by
    rw [synced_answer]
    cases r <;> first | rfl | exact hproject.elim
  exact ⟨saved, shown, h.of_other (h.toShowing.answer hsave hproject.isNoWrite) rfl rfl
    (by rw [hsynced])⟩

/-- A command that signs nobody up takes nothing of this away. -/
theorem keeps_recovering (d : Command → Activity) {c : Command} (hc : c.kind ≠ .createUser) :
    (((Wiring.standard policy).dispatcherOver
      ((Wiring.standard policy).busOver d)).dispatch c).Keeps surroundings (Recovering id n) := by
  rintro w ⟨saved, shown, h⟩
  have hdispatched := h.toShowing.dispatch policy d hc
  rw [perform] at hdispatched
  generalize Activity.run surroundings _ w = r at hdispatched
  cases hdispatched with
  | stored _ _ _ hw₁ hsynced hdelivered => exact ⟨_, h.delivered hw₁ hsynced hdelivered⟩
  | refused hw' hsynced => exact ⟨saved, shown, h.of_other hw' rfl rfl (by rw [hsynced])⟩

/-- Neither does a sign-up, with all the rewards for it. -/
theorem Recovering.signUp (h : Recovering id n w) {c : Command} (hc : c.kind = .createUser) :
    Recovering id n (perform ((Wiring.standard policy).dispatch c) w).2 := by
  obtain ⟨saved, shown, h⟩ := h
  show Recovering id n (perform (((Wiring.standard policy).dispatcherOver
    ((Wiring.standard policy).busOver (Wiring.standard policy).dispatchReward)).dispatch c) w).2
  cases hblank : Text.isBlank c.aggregateId with
  | true =>
    rw [perform_dispatch_of_blank policy _ hblank]
    exact ⟨saved, shown, h⟩
  | false =>
    rw [perform_dispatch policy _ hblank]
    rcases attempt_persist_settled h.faultFree h.store_eq h.grown c with
      ⟨m, w₁, hrun, rfl, hm, -, hstore, hgrown, -⟩ | ⟨f, w₁, hrun, hstore, -⟩
    · rw [hrun]
      have hw₁ : Showing (saved ++ [m.event]) shown w₁ := h.after_persist hrun [m.event] hstore hgrown
      have hsynced := (untouched_persist h.faultFree hrun).2.2
      have hhistory := ofUser_concat_self saved m.event
      have hnew : ofUser m.event.aggregateId saved = [] := hm.aggregateId_eq ▸ hm.signUp hc
      have hshown : shown m.event.aggregateId = [] :=
        List.prefix_nil.1 (hnew ▸ h.part m.event.aggregateId)
      obtain ⟨htype, v, hv⟩ := ofHistory_of_on_createUser hc hm
      have hid : Text.isBlank m.event.aggregateId = false := by
        rw [hm.aggregateId_eq, hblank]
      obtain ⟨w₂, hprompt, -⟩ := hw₁.prompt_deliver 0 hhistory hv
        (.inr (hshown.trans hnew.symm))
        ((Wiring.standard policy).busOver (Wiring.standard policy).dispatchReward)
      have hdelivered := hw₁.delivered 0 hhistory (h.part _)
        ((Wiring.standard policy).busOver (Wiring.standard policy).dispatchReward)
      rw [hprompt.run_eq] at hdelivered
      simp only [perform]
      rw [Wiring.publish_of_created policy _ hid htype, Activity.run_andThen_idle,
        hprompt.run_fork, Activity.run_bind]
      refine keeps_deliver_reward (fun _ hsave hr w hw => hw.answer hsave hr)
        (fun c' hc' => keeps_recovering policy ((Wiring.standard policy).dispatchWithin 0) hc') ?_ ?_
        _ _ _ ⟨_, h.delivered hw₁ hsynced hdelivered⟩
      · rintro nanos w ⟨saved, shown, hw⟩
        exact ⟨saved, shown, hw.of_other (hw.toShowing.pass nanos) rfl rfl Iff.rfl⟩
      · rintro other w ⟨saved, shown, hw⟩
        refine ⟨saved, shown, hw.of_other (hw.toShowing.answer True.intro True.intro) rfl rfl ?_⟩
        show (0, id) ∈ (1, other) :: w.synced ↔ _
        simp
    · rw [hrun]
      refine ⟨saved, shown, h.of_other (h.after_refusal hrun hstore) rfl rfl ?_⟩
      rw [(untouched_persist h.faultFree hrun).2.2]

theorem Recovering.dispatch (h : Recovering id n w) (c : Command) :
    Recovering id n (perform ((Wiring.standard policy).dispatch c) w).2 := by
  by_cases hc : c.kind = .createUser
  · exact h.signUp policy hc
  · exact keeps_recovering policy (Wiring.standard policy).dispatchReward hc w h

/-! ## Profiles that lack events -/

theorem lastVersion_eq (h : Showing saved shown w) (id : String) :
    w.store.lastVersion id = (ofUser id saved).length := by
  rw [h.store_eq, EventStore.lastVersion_holding (h.grown id).gapless]

/-- A profile lags when the projection is not ready for the next event. -/
theorem Showing.lags_iff (h : Showing saved shown w)
    (hversion : w.shownVersion id = (shown id).length) :
    w.Lags id ↔ ¬ Ready 0 w shown id (ofUser id saved) := by
  have hlength : ¬ shown id = ofUser id saved ↔ (shown id).length < (ofUser id saved).length := by
    refine ⟨fun hne => Nat.lt_of_le_of_ne (h.part id).length_le fun heq => ?_, fun hlt heq => ?_⟩
    · exact hne ((h.part id).eq_of_length heq)
    · rw [heq] at hlt
      exact Nat.lt_irrefl _ hlt
  rw [Ready, not_or, not_not, hlength, ← hversion, ← lastVersion_eq h]
  exact ⟨fun h => ⟨h.synced, h.behind⟩, fun h => ⟨h.1, h.2⟩⟩

end Simulation.World

/-! ## What can be reached -/

/-- A profile that is the replay of a prefix shows so many events as it has versions. -/
theorem Projection.Projected.current {es : List Event} {wrs : List Write} {id : String}
    {row : Option Profile} (h : Projected id es wrs row) :
    (row.map Profile.version).getD 0 ≤ es.length ∧
      Profile.Current id (es.take ((row.map Profile.version).getD 0)) row := by
  cases h with
  | absent => exact ⟨Nat.zero_le _, .nobody List.take_zero⟩
  | @present p u _ hpos hle _ hu hshows =>
    refine ⟨hle, .shown (fun hnil => ?_) hu hshows⟩
    have hlength : min p.version es.length = 0 := by
      rw [← List.length_take]
      exact congrArg List.length hnil
    omega

namespace Runtime

/-- A state that was reached from an empty store and an empty read model, and in which no operation
is going to fail any more. -/
def calmed (policy : RetryPolicy) (w : World) (moves : List (Move Command)) : World :=
  (reached policy { w with readModel := .empty } moves).state.untroubled

/-- So many events of a user the read model shows. -/
theorem showing_calmed (policy : RetryPolicy) (w : World) (moves : List (Move Command)) :
    ∃ shown, World.Showing (reached policy { w with readModel := .empty } moves).log.saved shown
        (calmed policy w moves) ∧
      ∀ id, (calmed policy w moves).shownVersion id = (shown id).length := by
  rw [calmed]
  generalize hP : reached policy { w with readModel := .empty } moves = P
  have hinStep : Projection.InStep P := hP ▸ inStep_reached policy rfl moves
  have hstore : P.state.store = .holding P.log.saved := hP ▸ (store_reached policy _ moves).1
  have hgrown : ∀ id, Grown id (ofUser id P.log.saved) := hP ▸ grown_reached policy _ moves
  refine ⟨fun id => (ofUser id P.log.saved).take (P.state.shownVersion id),
    ⟨fun _ => rfl, hstore, hgrown, fun id => List.take_prefix _ _,
      fun id => (hinStep.projected id).current.2⟩, fun id => ?_⟩
  rw [List.length_take]
  exact (Nat.min_eq_left (hinStep.projected id).current.1).symm

/-- The store after one more dispatch. -/
theorem store_calmed (policy : RetryPolicy) (w : World) (moves : List (Move Command)) (c : Command) :
    ∃ saved later, (calmed policy w moves).store = .holding saved ∧
      (World.perform ((Wiring.standard policy).dispatch c) (calmed policy w moves)).2.store =
        .holding (saved ++ later) ∧ ∀ id, Gapless (ofUser id (saved ++ later)) := by
  let P := reached policy { w with readModel := .empty } moves
  have hfaithful : P.Faithful := (Pool.faithful_empty rfl).run _ moves
  have hcalmed : Pool.Faithful { P with state := calmed policy w moves } :=
    ⟨hfaithful.store_eq, hfaithful.truthful⟩
  obtain ⟨more, hmore⟩ := perform_run policy { P with state := calmed policy w moves } c
  have hafter := hcalmed.run (Wiring.standard policy).dispatch more
  obtain ⟨later, hlater⟩ := Pool.log_run World.surroundings (Wiring.standard policy).dispatch
    { P with state := calmed policy w moves } more
  have hsaved : (Pool.run World.surroundings (Wiring.standard policy).dispatch
      { P with state := calmed policy w moves } more).log.saved = P.log.saved ++ Log.saved later := by
    rw [← hlater, Log.saved_append]
  have hgapless := hafter.truthful.gapless
  have hstore := hafter.store_eq
  rw [hsaved] at hgapless hstore
  rw [hmore] at hstore
  exact ⟨P.log.saved, Log.saved later, hfaithful.store_eq, hstore, hgapless⟩

variable (policy : RetryPolicy)

/-- A user whose profile does not lag recovers with the next event. -/
theorem recovers_of_not_lags {w : World} {saved : List Event} {shown : String → List Event}
    (hw : World.Showing saved shown w) {id : String} (hversion : w.shownVersion id = (shown id).length)
    (hlags : ¬ w.Lags id) (c : Command) {w' : World}
    (hw' : (World.perform ((Wiring.standard policy).dispatch c) w).2 = w')
    (hgrew : w.store.lastVersion id < w'.store.lastVersion id)
    (hloads : ∃ u, (World.attempt (Repository.load id) w').1 = .ok u) :
    w'.shownVersion id = w'.store.lastVersion id := by
  have hready := not_not.1 (mt (hw.lags_iff hversion).2 hlags)
  have hbefore : World.Recovers id (w.store.lastVersion id) saved shown w :=
    ⟨hw, Nat.le_of_eq (World.lastVersion_eq hw id), fun _ _ => hready, fun _ _ hlt => by
      rw [World.lastVersion_eq hw id] at hlt
      exact absurd hlt (Nat.lt_irrefl _)⟩
  obtain ⟨saved', shown', hafter⟩ :=
    World.Recovering.dispatch policy (n := w.store.lastVersion id) ⟨_, _, hbefore⟩ c
  rw [hw'] at hafter
  obtain ⟨u, hu⟩ := hloads
  rw [World.attempt_load (hafter.faultFree _) hafter.store_eq (hafter.grown id).gapless] at hu
  rw [World.lastVersion_eq hafter.toShowing id] at hgrew ⊢
  split at hu
  · cases hu
  · exact hafter.version_eq_of_replays hu (hafter.upToDate u hu hgrew)

/-- How the dispatch of a command ends that signs nobody up, once its event has been saved. -/
theorem outcome_of_dispatch {w : World} {saved : List Event} {shown : String → List Event}
    (hw : World.Showing saved shown w) {id : String} (hversion : w.shownVersion id = (shown id).length)
    {c : Command} (hc : c.kind ≠ .createUser) {o : Outcome} {w' : World}
    (hrun : World.perform ((Wiring.standard policy).dispatch c) w = (o, w'))
    (hgrew : w.store.lastVersion id < w'.store.lastVersion id)
    (hloads : ∃ u, (World.attempt (Repository.load id) w').1 = .ok u) :
    (¬ w.Lags id → o = .ok ()) ∧ (w.Lags id → ∃ t, o = .error (.dispatch c.kind id
      (.publish "user-projector" t id
        (.outOfOrder id (w.shownVersion id) (w'.store.lastVersion id))))) := by
  have hdispatched := hw.dispatch policy (Wiring.standard policy).dispatchReward hc
  have hdispatch : World.perform (((Wiring.standard policy).dispatcherOver
      ((Wiring.standard policy).busOver (Wiring.standard policy).dispatchReward)).dispatch c) w =
      (o, w') := hrun
  rw [hdispatch] at hdispatched
  rw [hw.lags_iff hversion, hversion]
  rw [World.lastVersion_eq hw] at hgrew
  cases hdispatched with
  | refused hw' =>
    rw [World.lastVersion_eq hw'] at hgrew
    exact absurd hgrew (Nat.lt_irrefl _)
  | @stored m w₁ o w' hmc hm _ hw₁ hsynced hdelivered =>
    have hid : m.event.aggregateId = c.aggregateId := hmc ▸ hm.aggregateId_eq
    generalize m.event = e at hid hw₁ hdelivered
    have hconcerned : ∀ {shown'}, World.Showing (saved ++ [e]) shown' w' → id = e.aggregateId := by
      intro shown' hw'
      by_contra hne
      rw [World.lastVersion_eq hw', ofUser_concat_of_ne saved hne] at hgrew
      exact Nat.lt_irrefl _ hgrew
    cases hdelivered with
    | upToDate hready hw' _ ho =>
      obtain rfl := hconcerned hw'
      obtain ⟨u, hu⟩ := hloads
      rw [World.attempt_load (hw'.faultFree _) hw'.store_eq (hw'.grown _).gapless] at hu
      rw [World.Ready, hsynced] at hready
      split at hu
      · cases hu
      · rw [ho u hu]
        exact ⟨fun _ => rfl, fun hlags => absurd hready hlags⟩
    | behind hready hw' =>
      obtain rfl := hconcerned hw'
      rw [World.Ready, hsynced] at hready
      refine ⟨fun hlags => absurd hready hlags, fun _ => ⟨e.type, ?_⟩⟩
      have hhistory := ofUser_concat_self saved e
      have hgapless := (hw'.grown e.aggregateId).gapless
      have hlast : w'.store.lastVersion e.aggregateId = e.version := by
        rw [World.lastVersion_eq hw']
        rw [hhistory] at hgapless ⊢
        rw [hgapless.version_eq List.getElem?_concat_length, List.length_append,
          List.length_singleton]
      rw [hlast, hid]
      rfl

/-- **Recovery.** Operations have failed in whatever way, and now none is going to fail any more. A
command is dispatched by which an event of a user is saved, and the user can be loaded. If the profile
of the user does not lag, it shows all events then, and unless the command is a sign-up the dispatch
succeeds. If the profile lags, the dispatch fails because the event comes too early, and whatever is
dispatched from then on the profile stays as it is. -/
theorem readModel_recovers_iff (policy : RetryPolicy) (w : World) (moves : List (Move Command))
    (c : Command) (id : String) :
    let before := calmed policy w moves
    let dispatched := World.perform ((Wiring.standard policy).dispatch c) before
    let after := dispatched.2
    after.store.stream id ≠ before.store.stream id →
    (∃ u, (World.attempt (Repository.load id) after).1 = .ok u) →
      (after.shownVersion id = after.store.lastVersion id ↔ ¬ before.Lags id) ∧
      (c.kind ≠ .createUser →
        (¬ before.Lags id → dispatched.1 = .ok ()) ∧
        (before.Lags id → ∃ t, dispatched.1 = .error (.dispatch c.kind id
          (.publish "user-projector" t id
            (.outOfOrder id (before.shownVersion id) (after.store.lastVersion id)))))) ∧
      (before.Lags id → ∀ faults (further : List (Move Command)),
        let later := ((Pool.empty { after with faults := faults }).run World.surroundings
          (Wiring.standard policy).dispatch further).state
        later.readModel.find? id = before.readModel.find? id ∧ later.Lags id) := by
  intro before dispatched after hstream hloads
  obtain ⟨shown, hbefore, hversion⟩ := showing_calmed policy w moves
  have hgrew : before.store.lastVersion id < after.store.lastVersion id := by
    obtain ⟨es, later, hes, hlater, hgapless⟩ := store_calmed policy w moves c
    have hlonger : ofUser id later ≠ [] := by
      intro hnil
      refine hstream ?_
      show EventStore.stream _ id = EventStore.stream (calmed policy w moves).store id
      rw [hlater, hes, EventStore.stream_holding_append_eq_iff, hnil]
    show EventStore.lastVersion (calmed policy w moves).store id < EventStore.lastVersion _ id
    have hall := hgapless id
    rw [hlater, hes, EventStore.lastVersion_holding hall]
    rw [ofUser_append] at hall ⊢
    rw [EventStore.lastVersion_holding hall.of_append, List.length_append]
    exact Nat.lt_add_of_pos_right (List.length_pos_iff.2 hlonger)
  -- Whatever happens after the command may as well be part of what happens after `before`.
  have hstays : before.Lags id →
      after.readModel.find? id = before.readModel.find? id ∧ after.Lags id := by
    intro hlags
    obtain ⟨more, hmore⟩ := perform_run policy (.empty before) c
    have := hlags.stays hbefore.store_eq (fun id => (hbefore.grown id).gapless) policy more
    simp only at this
    rwa [hmore] at this
  refine ⟨⟨fun hshown hlags => ?_, fun hlags => ?_⟩, fun hc => ?_, fun hlags faults further => ?_⟩
  · exact Nat.ne_of_lt (hstays hlags).2.behind hshown
  · exact recovers_of_not_lags policy hbefore (hversion id) hlags c rfl hgrew hloads
  · exact outcome_of_dispatch policy hbefore (hversion id) hc rfl hgrew hloads
  · obtain ⟨hsame, hstill⟩ := hstays hlags
    obtain ⟨es, later, -, hstore, hgapless⟩ := store_calmed policy w moves c
    have := World.Lags.stays (w := { after with faults := faults }) ⟨hstill.synced, hstill.behind⟩
      hstore hgapless policy further
    exact ⟨this.1.trans hsame, this.2⟩

/-! ## A projection that was given up on -/

/-- A world in which the read model does not take in the first points that are given. -/
def withoutPoints : World :=
  { faults := fun op => if op = .earnPoints then [some (.readModel "row locked")] else [] }

/-- A user is given points. -/
def gain (points : Points) : Command :=
  .earnPoints ⟨"kim", points⟩

/-- Somebody signs up with a code that nobody hands out, and is then given points. The sign-up is
projected, and the points are not. -/
def givenUp : List (Move Command) :=
  [.start (.createUser ⟨"kim", "kim", "kim@example.org", some "NOBODY00"⟩)] ++
    List.replicate 10 (.go 0 []) ++ List.replicate 10 (.go 0 [0]) ++ List.replicate 20 (.go 0 [1]) ++
    [.start (gain 5)] ++ List.replicate 20 (.go 1 [])

/-- More points are given and saved, and the user can be loaded with them. -/
theorem loads_after_givenUp :
    let after := (World.perform ((Wiring.standard onceOnly).dispatch (gain 7))
      (calmed onceOnly withoutPoints givenUp)).2
    after.store.stream "kim" ≠ (calmed onceOnly withoutPoints givenUp).store.stream "kim" ∧
      ∃ u, (World.attempt (Repository.load "kim") after).1 = .ok u := by
  intro after
  obtain ⟨hgrew, hloads⟩ : after.store.stream "kim" ≠
        (calmed onceOnly withoutPoints givenUp).store.stream "kim" ∧
      (World.attempt (Repository.load "kim") after).1.isOk = true := by
    decide +kernel
  refine ⟨hgrew, ?_⟩
  cases h : (World.attempt (Repository.load "kim") after).1 with
  | ok u => exact ⟨u, rfl⟩
  | error f =>
    rw [h] at hloads
    cases hloads

/-- The points that are given then do not get into the profile either, and none ever will. -/
theorem givenUp_not_recovered :
    let before := calmed onceOnly withoutPoints givenUp
    let dispatched := World.perform ((Wiring.standard onceOnly).dispatch (gain 7)) before
    let after := dispatched.2
    before.Lags "kim" ∧ before.shownVersion "kim" = 1 ∧
      after.store.stream "kim" ≠ before.store.stream "kim" ∧
      (∃ u, (World.attempt (Repository.load "kim") after).1 = .ok u) ∧
      (after.shownVersion "kim" = after.store.lastVersion "kim" ↔ ¬ before.Lags "kim") ∧
      ((gain 7).kind ≠ .createUser →
        (¬ before.Lags "kim" → dispatched.1 = .ok ()) ∧
        (before.Lags "kim" → ∃ t, dispatched.1 = .error (.dispatch (gain 7).kind "kim"
          (.publish "user-projector" t "kim"
            (.outOfOrder "kim" (before.shownVersion "kim") (after.store.lastVersion "kim")))))) ∧
      (before.Lags "kim" → ∀ faults (further : List (Move Command)),
        let later := ((Pool.empty { after with faults := faults }).run World.surroundings
          (Wiring.standard onceOnly).dispatch further).state
        later.readModel.find? "kim" = before.readModel.find? "kim" ∧ later.Lags "kim") := by
  obtain ⟨hlags, hversion⟩ : (calmed onceOnly withoutPoints givenUp).Lags "kim" ∧
      (calmed onceOnly withoutPoints givenUp).shownVersion "kim" = 1 := by
    decide +kernel
  obtain ⟨hgrew, hloads⟩ := loads_after_givenUp
  exact ⟨hlags, hversion, hgrew, hloads,
    readModel_recovers_iff onceOnly withoutPoints givenUp (gain 7) "kim" hgrew hloads⟩

end Runtime

end Loyalty
