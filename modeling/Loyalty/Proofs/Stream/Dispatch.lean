import Loyalty.Proofs.Process.Nesting
import Loyalty.Proofs.Stream.Runtime
import Loyalty.Proofs.Stream.Undisturbed

/-!
# Commands that are dispatched one after the other

Without faults, and one command at a time. The event of a command is saved, and it is delivered. The
projection comes first: also for a sign-up, where the rewards are told side by side with it, since
what the projection has to do for a sign-up takes no pause. The rewards give commands of their own,
each of which leaves everything as it should be before the next begins, and so does a reward that
fails and is tried again.

Main statement: after every command the read model shows all histories as they are.
-/

namespace Loyalty

open History Simulation Execution

/-! ## Publication -/

namespace Wiring

variable (policy : RetryPolicy) (d : Command → Activity) {e : Event}

/-- A sign-up is published. -/
theorem publish_of_created (hid : Text.isBlank e.aggregateId = false) (htype : e.type = .userCreated) :
    ((standard policy).busOver d).publish [e] =
      (Activity.fork (((standard policy).busOver d).deliver e ⟨0, Projection.handler⟩)
        (((standard policy).busOver d).deliver e ⟨1, Reward.handler d⟩) .done).andThen .idle := by
  simp only [Bus.publish, Bus.publishOne, hid, htype]
  rfl

/-- Any other event is published. -/
theorem publish_of_not_created (hid : Text.isBlank e.aggregateId = false)
    (htype : e.type ≠ .userCreated) :
    ((standard policy).busOver d).publish [e] =
      (((standard policy).busOver d).deliver e ⟨0, Projection.handler⟩).andThen .idle := by
  have hsubscriptions : ((standard policy).busOver d).subscriptions e.type =
      [⟨0, Projection.handler⟩] := by
    generalize e.type = t at htype ⊢
    cases t with
    | userCreated => exact absurd rfl htype
    | userDeleted | userReferralCreated | userReferralCompleted | pointsEarned => rfl
  simp only [Bus.publish, Bus.publishOne, hid, hsubscriptions]
  rfl

end Wiring

namespace Simulation.World

variable {w : World} {es : List Event} (policy : RetryPolicy)

/-! ## One command -/

/-- A command is carried out, and what it brings about is published. -/
theorem perform_dispatch (bus : Bus) {c : Command} (hid : Text.isBlank c.aggregateId = false)
    (w : World) :
    perform (((Wiring.standard policy).dispatcherOver bus).dispatch c) w =
      match attempt (Execution.persist c) w with
      | (.ok events, w') =>
        ((perform (bus.publish events) w').1.mapError (.dispatch c.kind c.aggregateId),
          (perform (bus.publish events) w').2)
      | (.error f, w') => (.error (.dispatch c.kind c.aggregateId f), w') := by
  rw [Wiring.dispatch_over, hid, if_neg Bool.false_ne_true, perform, Activity.run_mapFailure,
    Execution.handle, Activity.attempt, Activity.run_ofCalls, attempt]
  obtain ⟨x, w'⟩ := Calls.run surroundings (Execution.persist c).run w
  cases x with
  | ok events => rfl
  | error f => rfl

/-- A command about somebody without an identity is refused. -/
theorem perform_dispatch_of_blank (bus : Bus) {c : Command}
    (hid : Text.isBlank c.aggregateId = true) (w : World) :
    perform (((Wiring.standard policy).dispatcherOver bus).dispatch c) w =
      (.error .blankId, w) := by
  rw [Wiring.dispatch_over, if_pos hid]
  rfl

/-- No event is committed of somebody without an identity. -/
theorem notBlank_of_on {m : Commit} (hm : m.On es) :
    Text.isBlank m.command.aggregateId = false := by
  rw [← hm.aggregateId_eq]
  exact (Repository.batchFault?_eq_none_iff.1 hm.sound).1

/-- How the dispatch of a command ends that signs nobody up. -/
inductive Settled (w : World) (es : List Event) (c : Command) : Outcome × World → Prop where
  /-- the decision was saved and is projected; the dispatch fails only if the history cannot be
  replayed any more -/
  | stored {m : Commit} {o : Outcome} {w' : World} (hc : m.command = c)
    (hm : m.On (ofUser c.aggregateId es)) (hbasis : m.GoesBy w)
    (hw' : At (es ++ [m.event]) (es ++ [m.event]) w')
    (ho : ∀ v, User.ofHistory c.aggregateId (ofUser c.aggregateId (es ++ [m.event])) = .ok v →
      o = .ok ()) : Settled w es c (o, w')
  /-- there was nothing that could be saved -/
  | refused {f : Failure} {w' : World} (hw' : At es es w')
    (hnone : ∀ m : Commit, m.command = c → m.GoesBy w → ¬ m.On (ofUser c.aggregateId es)) :
    Settled w es c (.error f, w')

/-- A command is dispatched that signs nobody up. -/
theorem At.dispatch (h : At es es w) (d : Command → Activity) {c : Command}
    (hc : c.kind ≠ .createUser) :
    Settled w es c (perform (((Wiring.standard policy).dispatcherOver
      ((Wiring.standard policy).busOver d)).dispatch c) w) := by
  cases hblank : Text.isBlank c.aggregateId with
  | true =>
    rw [perform_dispatch_of_blank policy _ hblank]
    refine .refused h fun m hmc _ hm => ?_
    subst hmc
    cases hblank.symm.trans (notBlank_of_on hm)
  | false =>
    rw [perform_dispatch policy _ hblank]
    have hpersist := h.persist c
    generalize attempt (Execution.persist c) w = r at hpersist ⊢
    cases hpersist with
    | refused hw' hnone => exact .refused hw' hnone
    | @stored m w' hmc hm hbasis hw' _ =>
      subst hmc
      have htype : m.event.type ≠ .userCreated := Basis.not_created_of_decide hc hm.decided
      have hid : Text.isBlank m.event.aggregateId = false := by
        rw [hm.aggregateId_eq, hblank]
      simp only [perform]
      rw [Wiring.publish_of_not_created policy d hid htype, Activity.run_andThen_idle]
      refine .stored rfl hm hbasis (hw'.delivered _ 0) fun v hv => ?_
      rw [← hm.aggregateId_eq] at hv
      obtain ⟨w'', hprompt, -⟩ :=
        hw'.prompt_deliver hv ((Wiring.standard policy).busOver d) 0
      rw [hprompt.run_eq]
      rfl

/-- How the dispatch of a sign-up ends. -/
inductive SignedUp (w : World) (es : List Event) (c : Command) (reward : Event → Activity) :
    Outcome × World → Prop where
  /-- the sign-up was saved and projected, and then the rewards were told of it -/
  | stored {m : Commit} {w₁ : World} (hc : m.command = c) (hm : m.On (ofUser c.aggregateId es))
    (hbasis : m.GoesBy w) (honward : w.Onward w₁) (hcodes : w.codes < w₁.codes)
    (hw₁ : At (es ++ [m.event]) (es ++ [m.event]) w₁) :
    SignedUp w es c reward ((perform (reward m.event) w₁).1.mapError
      (.dispatch c.kind c.aggregateId), (perform (reward m.event) w₁).2)
  /-- there was nothing that could be saved -/
  | refused {f : Failure} {w' : World} (hw' : At es es w')
    (hnone : ∀ m : Commit, m.command = c → m.GoesBy w → ¬ m.On (ofUser c.aggregateId es)) :
    SignedUp w es c reward (.error f, w')

/-- A sign-up can always be replayed. -/
theorem ofHistory_of_on_createUser {m : Commit} (hkind : m.command.kind = .createUser)
    (hm : m.On (ofUser m.command.aggregateId es)) :
    m.event.type = .userCreated ∧
      ∃ v, User.ofHistory m.event.aggregateId
        (ofUser m.event.aggregateId (es ++ [m.event])) = .ok v := by
  rw [ofUser_concat_self, hm.aggregateId_eq, hm.signUp hkind, List.nil_append]
  obtain ⟨c, b, e⟩ := m
  obtain ⟨c, rfl⟩ := Command.exists_eq_createUser hkind
  obtain ⟨s, hs, he⟩ := Command.decide_createUser (Basis.decide_eq_ok hm.decided)
  have hevent : e = Event.ofChange c.userId 1 (.created s) b.now := (List.cons.inj he).1
  subst hevent
  refine ⟨rfl, (Grown.signUp hs b.now).replays_iff.2 ?_⟩
  rw [History.points, List.map_singleton, Event.points_eq (Event.decode_ofChange hs _ _ _)]
  exact (by decide : 0 < Text.word32)

/-- Somebody signs up. -/
theorem At.signUp (h : At es es w) (d : Command → Activity) {c : Command}
    (hc : c.kind = .createUser) :
    SignedUp w es c
      (fun e => ((Wiring.standard policy).busOver d).deliver e ⟨1, Reward.handler d⟩)
      (perform (((Wiring.standard policy).dispatcherOver
        ((Wiring.standard policy).busOver d)).dispatch c) w) := by
  cases hblank : Text.isBlank c.aggregateId with
  | true =>
    rw [perform_dispatch_of_blank policy _ hblank]
    refine .refused h fun m hmc _ hm => ?_
    subst hmc
    cases hblank.symm.trans (notBlank_of_on hm)
  | false =>
    rw [perform_dispatch policy _ hblank]
    have hpersist := h.persist c
    obtain ⟨_, -, hpersisted⟩ := Calls.hears_run surroundings (Execution.persist c).run w
    have honward : w.Onward (attempt (Execution.persist c) w).2 := onward_of_hears hpersisted
    generalize attempt (Execution.persist c) w = r at hpersist honward ⊢
    cases hpersist with
    | refused hw' hnone => exact .refused hw' hnone
    | @stored m w' hmc hm hbasis hw' hcodes =>
      subst hmc
      obtain ⟨htype, v, hv⟩ := ofHistory_of_on_createUser hc hm
      have hid : Text.isBlank m.event.aggregateId = false := by
        rw [hm.aggregateId_eq, hblank]
      obtain ⟨w₁, hprompt, hw₁⟩ := hw'.prompt_deliver hv ((Wiring.standard policy).busOver d) 0
      simp only [perform]
      rw [Wiring.publish_of_created policy d hid htype, Activity.run_andThen_idle,
        hprompt.run_fork, Activity.run_bind]
      obtain ⟨heard, hhears⟩ := hprompt.hears
      have hprojected : w'.Onward w₁ := onward_of_hears hhears
      exact .stored rfl hm hbasis (honward.trans hprojected)
        (Nat.lt_of_lt_of_le (hcodes hc) hprojected.codes_le) hw₁

/-! ## Rewards -/

section

variable {I : World → Prop}
  (hanswer : ∀ r : Request, r.IsNoSave → r.IsNoProjection → ∀ w, I w → I (w.answer r).2)
  {d : Command → Activity} (hd : ∀ c : Command, c.kind ≠ .createUser → (d c).Keeps surroundings I)

include hanswer hd

/-- What the commands of the rewards keep, the rewards keep, too. -/
theorem keeps_reward (e : Event) : (Reward.handle d e).Keeps surroundings I := by
  have hcarryOut : ∀ cs : List Command, (∀ c ∈ cs, c.kind ≠ .createUser) →
      (Reward.carryOut d cs).Keeps surroundings I := by
    intro cs hcs
    induction cs with
    | nil => exact Activity.keeps_done _
    | cons c cs ih =>
      exact (hd c (hcs c List.mem_cons_self)).andThen
        (ih fun c' hc' => hcs c' (List.mem_cons_of_mem c hc'))
  rw [Reward.handle]
  split
  · exact Activity.keeps_done _
  · rw [Reward.rewardSignUp]
    split
    · exact hcarryOut _ fun c hc => Reward.kind_of_mem_planWithoutCode hc
    · refine Activity.keeps_call (hanswer _ True.intro True.intro) fun x => ?_
      cases x with
      | ok referrer => exact hcarryOut _ fun c hc => Reward.kind_of_mem_planWithCode hc
      | error f => exact Activity.keeps_done _
  · exact Activity.keeps_done _

/-- So does telling the rewards of an event, however often that is repeated. It may be noted that the
rewards have caught up on the user. -/
theorem keeps_deliver_reward (hpass : ∀ n w, I w → I (w.pass n))
    (hmarked : ∀ id w, I w → I (w.answer (.markSynced 1 id)).2) (b : Bus) (e : Event) :
    (b.deliver e ⟨1, Reward.handler d⟩).Keeps surroundings I :=
  Activity.Keeps.deliver (keeps_reward hanswer hd e) (Activity.keeps_done _) hpass
    (hanswer (.isSynced 1 e.aggregateId) True.intro True.intro) (hmarked _)
    (hanswer .stopwatch True.intro True.intro) b

end

/-! ## All commands -/

/-- The read model shows all histories as they are. -/
def InStep (w : World) : Prop :=
  ∃ es, At es es w

theorem InStep.answer (h : w.InStep) {r : Request} (hsave : r.IsNoSave) (hwrite : r.IsNoWrite) :
    (w.answer r).2.InStep := by
  obtain ⟨es, hes⟩ := h
  exact ⟨es, hes.answer hsave hwrite⟩

/-- A command that signs nobody up leaves the read model as it should be. -/
theorem keeps_dispatch (d : Command → Activity) {c : Command} (hc : c.kind ≠ .createUser) :
    (((Wiring.standard policy).dispatcherOver
      ((Wiring.standard policy).busOver d)).dispatch c).Keeps surroundings InStep := by
  rintro w ⟨es, hes⟩
  have hsettled := hes.dispatch policy d hc
  rw [perform] at hsettled
  generalize Activity.run surroundings _ w = r at hsettled
  cases hsettled with
  | stored _ _ _ hw' => exact ⟨_, hw'⟩
  | refused hw' => exact ⟨_, hw'⟩

/-- Every command leaves the read model as it should be. -/
theorem InStep.dispatch (h : w.InStep) (c : Command) :
    (perform ((Wiring.standard policy).dispatch c) w).2.InStep := by
  obtain ⟨es, hes⟩ := h
  by_cases hc : c.kind = .createUser
  · have hsigned := hes.signUp policy (Wiring.standard policy).dispatchReward hc
    change (perform (((Wiring.standard policy).dispatcherOver
      ((Wiring.standard policy).busOver (Wiring.standard policy).dispatchReward)).dispatch c)
      w).2.InStep
    generalize perform _ w = r at hsigned ⊢
    cases hsigned with
    | refused hw' => exact ⟨_, hw'⟩
    | stored _ _ _ _ _ hw₁ =>
      refine keeps_deliver_reward (fun _ hsave hr w hw => hw.answer hsave hr.isNoWrite)
        (fun c' hc' => keeps_dispatch policy ((Wiring.standard policy).dispatchWithin 0) hc') ?_
        (fun _ w hw => hw.answer True.intro True.intro) _ _ _ ⟨_, hw₁⟩
      exact fun _ w ⟨es, hes⟩ => ⟨es, hes.faultFree, hes.store_eq, hes.grown, hes.current⟩
  · exact keeps_dispatch policy (Wiring.standard policy).dispatchReward hc w ⟨es, hes⟩

end Simulation.World

/-! ## Any number of commands -/

namespace Runtime

/-- A world in which nothing has happened yet, and without faults. -/
def untouched (w : World) : World :=
  { w with store := .empty, readModel := .empty, faults := fun _ => [] }

theorem inStep_untouched (w : World) : (untouched w).InStep :=
  ⟨[], fun _ => rfl, rfl, fun _ => .nil, fun _ => .nobody rfl⟩

/-- After any number of commands the read model shows all histories as they are. -/
theorem inStep_performed (policy : RetryPolicy) (cs : List Command) {w : World} (hw : w.InStep) :
    (performed policy cs w).InStep := by
  induction cs generalizing w with
  | nil => exact hw
  | cons c cs ih => exact ih (hw.dispatch policy c)

/-- **The read model is never behind.** Any number of commands were dispatched one after the other,
whatever their outcomes were. Every stream that can be replayed has a profile, which shows the user to
whom it replays and has the last version of the stream; and where there is no stream there is no
profile. -/
theorem readModel_current (policy : RetryPolicy) (w : World) (cs : List Command) (id : String) :
    let after := performed policy cs (untouched w)
    ∃ es, after.store.stream id = es.map Event.toRecord ∧
      (es = [] → after.readModel.find? id = none) ∧
      ∀ u, es ≠ [] → User.ofHistory id es = .ok u →
        ∃ p, after.readModel.find? id = some p ∧ p.Shows u ∧
          p.version = after.store.lastVersion id := by
  intro after
  obtain ⟨es, hes⟩ := inStep_performed policy cs (inStep_untouched w)
  have hgapless := (hes.grown id).gapless
  have hcurrent := hes.current id
  have hlast : after.store.lastVersion id = (ofUser id es).length := by
    rw [hes.store_eq, EventStore.lastVersion_holding hgapless]
  refine ⟨ofUser id es, by rw [hes.store_eq, EventStore.stream_holding], fun hnil => ?_,
    fun u hne hu => ?_⟩
  · rw [hnil] at hcurrent
    exact hcurrent.eq_none
  · obtain ⟨p, hp, hshows⟩ := hcurrent.shows hne hu
    refine ⟨p, hp, hshows, ?_⟩
    rw [hlast, hshows.version_eq, (User.reflects_of_ofHistory hgapless hu).version_eq]

end Runtime

end Loyalty
