import Loyalty.Process.Wiring
import Loyalty.Proofs.Process.Composition
import Loyalty.Proofs.Process.Execution

/-!
# Families of activities

The program puts its activities together in a few ways: one after the other, again after a pause,
side by side, around a command that is carried out. To a *family* of activities belongs whatever is
put together from its members. So what a family asks for has to be looked at once for each of the
few ways, and then it is known of all that the program does.

There need not be crowds in a family. The program makes one only where a kind of event has more
than thirty subscriptions.

Events are saved in one place only: where a command is carried out, between the decision and the
publication. So those activities in which nothing is saved but decisions are a family. A *frame* is
a family as far as nothing is saved. All that the program does around the carrying out of commands
belongs to it, and what matters for the rest is which commands are carried out: the rewards sign
nobody up. Where other requests than those to save are left out, all that can be said is that the
activities are `Closed`.

Main statement: a command that is dispatched in the whole program belongs to every family.
-/

namespace Loyalty

namespace Activity

/-- Some activities from which others are put together, as far as no requests are made but those
allowed. -/
structure Closed (allowed : Request → Prop) (P : Activity → Prop) : Prop where
  /-- the end belongs to them -/
  done : ∀ o, P (.done o)
  /-- a request that is allowed -/
  call : ∀ {r : Request} {k : r.Answer → Activity}, allowed r → (∀ x, P (k x)) → P (.call r k)
  /-- a pause -/
  pause : ∀ (n : Nat) {a : Activity}, P a → P (.pause n a)
  /-- two sides -/
  fork : ∀ {a b : Activity} {k : Outcome → Activity}, P a → P b → (∀ o, P (k o)) →
    P (.fork a b k)
  /-- one activity after the other -/
  bind : ∀ {a : Activity} {g : Outcome → Activity}, P a → (∀ o, P (g o)) → P (a.bind g)

/-- A family of activities, as far as nothing is saved. -/
structure Frame (P : Activity → Prop) : Prop where
  /-- the end belongs to it -/
  done : ∀ o, P (.done o)
  /-- a request by which nothing is saved -/
  call : ∀ {r : Request} {k : r.Answer → Activity}, r.IsNoSave → (∀ x, P (k x)) → P (.call r k)
  /-- a pause -/
  pause : ∀ (n : Nat) {a : Activity}, P a → P (.pause n a)
  /-- two sides -/
  fork : ∀ {a b : Activity} {k : Outcome → Activity}, P a → P b → (∀ o, P (k o)) →
    P (.fork a b k)
  /-- one activity after the other -/
  bind : ∀ {a : Activity} {g : Outcome → Activity}, P a → (∀ o, P (g o)) → P (a.bind g)

/-- A family of activities. -/
structure Family (P : Activity → Prop) : Prop extends Frame P where
  /-- deciding on a command, and storing the events -/
  persist : ∀ (c : Command) {g : Except Failure (List Event) → Activity}, (∀ x, P (g x)) →
    P (ofCalls (Execution.persist c).run g)

namespace Closed

variable {allowed : Request → Prop} {P : Activity → Prop} (hP : Closed allowed P)

include hP

theorem andThen {a b : Activity} (ha : P a) (hb : P b) : P (a.andThen b) := by
  refine hP.bind ha fun o => ?_
  cases o with
  | ok u => exact hb
  | error f => exact hP.done _

theorem mapFailure {a : Activity} (ha : P a) (describe : Failure → Failure) :
    P (a.mapFailure describe) := by
  refine hP.bind ha fun o => ?_
  cases o with
  | ok u => exact hP.done _
  | error f => exact hP.done _

theorem inOrder {as : List Activity} (h : ∀ a ∈ as, P a) : P (inOrder as) := by
  induction as with
  | nil => exact hP.done _
  | cons a as ih =>
    cases as with
    | nil => exact h a List.mem_cons_self
    | cons b as =>
      have htail : P (Activity.inOrder (b :: as)) := ih fun c hc => h c (List.mem_cons_of_mem a hc)
      exact hP.fork (h a List.mem_cons_self) htail hP.done

/-- A process, and what follows it. -/
theorem ofCalls {β : Type} {m : Calls β} (hm : m.Only allowed) {g : β → Activity}
    (hg : ∀ x, P (g x)) : P (ofCalls m g) := by
  induction m with
  | done a => exact hg a
  | call r k ih => exact hP.call hm.1 fun x => ih x (hm.2 x)

theorem attempt {β : Type} {m : Attempt β} (hm : m.run.Only allowed) {g : β → Activity}
    (hg : ∀ x, P (g x)) : P (attempt m g) := by
  refine hP.ofCalls hm fun x => ?_
  cases x with
  | ok a => exact hg a
  | error f => exact hP.done _

end Closed

namespace Frame

variable {P : Activity → Prop} (hP : Frame P)

include hP

theorem closed : Closed Request.IsNoSave P :=
  ⟨hP.done, hP.call, hP.pause, hP.fork, hP.bind⟩

/-- Those who are few enough to go on in order. -/
theorem all {as : List Activity} (hfew : as.length ≤ mostInOrder) (h : ∀ a ∈ as, P a) :
    P (all as) := by
  rw [Activity.all, if_pos hfew]
  exact hP.closed.inOrder h

end Frame

end Activity

open Activity (Closed Frame Family)

/-! ## The projection -/

/-- What the projection asks for. -/
def Request.IsProjection : Request → Prop
  | .user _ | .loadAfter .. | .write _ => True
  | _ => False

theorem Request.IsProjection.isNoSave {r : Request} (hr : r.IsProjection) : r.IsNoSave := by
  cases r <;> trivial

namespace Projection

theorem only_projectedVersion (id : String) :
    (projectedVersion id).run.Only Request.IsProjection := by
  refine Attempt.only_orAbsent 0 (Attempt.only_bind ?_ fun p => ?_)
  · exact ⟨True.intro, fun _ => True.intro⟩
  · exact True.intro

theorem only_project (e : Event) : (project e).run.Only Request.IsProjection := by
  refine Attempt.only_bind ?_ fun change => ?_
  · exact True.intro
  · exact ⟨True.intro, fun _ => True.intro⟩

theorem only_handle (e : Event) : (handle e).run.Only Request.IsProjection := by
  refine Attempt.only_bind (only_projectedVersion _) fun current => ?_
  split
  · exact True.intro
  split
  · exact only_project e
  · exact True.intro

theorem only_projectAll (es : List Event) : (projectAll es).run.Only Request.IsProjection := by
  induction es with
  | nil => exact True.intro
  | cons e es ih => exact Attempt.only_bind (only_project e) fun _ => ih

theorem only_sync (id : String) : (sync id).run.Only Request.IsProjection := by
  refine Attempt.only_bind (only_projectedVersion _) fun current => ?_
  refine Attempt.only_bind ?_ fun missing => only_projectAll _
  exact ⟨True.intro, fun _ => True.intro⟩

end Projection

/-! ## Repetition -/

namespace RetryPolicy

variable (p : RetryPolicy) {P : Activity → Prop} (hdone : ∀ o, P (.done o))
  (hwatch : ∀ {k : Nat → Activity}, (∀ t, P (k t)) → P (.call .stopwatch k))
  (hpause : ∀ (n : Nat) {a : Activity}, P a → P (.pause n a))
  (hbind : ∀ {a : Activity} {g : Outcome → Activity}, P a → (∀ o, P (g o)) → P (a.bind g))
  {a : Activity} (ha : P a)

include hdone hwatch hpause hbind ha

theorem repeating_of_closed (start retries pause : Nat) : P (p.repeating a start retries pause) := by
  -- The pauses differ from one repetition to the next, so any pause must do.
  induction retries generalizing pause with
  | zero => exact ha
  | succ retries ih =>
    refine hbind ha fun o => ?_
    cases o with
    | ok u => exact hdone _
    | error f =>
      refine hwatch fun t => ?_
      split
      · exact hpause _ (ih _)
      · exact hdone _

/-- Repeating an attempt is put together of attempts, pauses and looks at the stopwatch. -/
theorem retrying_of_closed : P (p.retrying a) :=
  hwatch fun start => p.repeating_of_closed hdone hwatch hpause hbind ha start _ _

/-- So is what comes after the first attempt. -/
theorem exists_rest : ∃ rest : Nat → Outcome → Activity, (∀ start o, P (rest start o)) ∧
    p.retrying a = .call .stopwatch fun start => a.bind (rest start) := by
  rw [retrying]
  cases p.maxRetry with
  | zero => exact ⟨fun _ => .done, fun _ => hdone, by simp only [repeating, Activity.bind_done]⟩
  | succ retries =>
    refine ⟨_, fun start o => ?_, rfl⟩
    cases o with
    | ok u => exact hdone _
    | error f =>
      refine hwatch fun t => ?_
      split
      · exact hpause _ (p.repeating_of_closed hdone hwatch hpause hbind ha start _ _)
      · exact hdone _

end RetryPolicy

/-! ## Handlers -/

/-- A subscription is that of the handler that was registered with its number. -/
theorem Bus.registered {b : Bus} {t : EventType} {s : Subscription} (hs : s ∈ b.subscriptions t) :
    b.handlers[s.number]? = some s.handler := by
  obtain ⟨⟨h, number⟩, hmem, hs⟩ := List.mem_flatMap.1 hs
  obtain ⟨x, -, rfl⟩ := List.mem_map.1 hs
  exact List.mem_zipIdx_iff_getElem?.1 hmem

/-- An event handler all of whose activities belong to a family. -/
structure EventHandler.Within (P : Activity → Prop) (h : EventHandler) : Prop where
  /-- when it is told of an event -/
  handle : ∀ e, P (h.handle e)
  /-- when it catches up -/
  sync : ∀ id, P (h.sync id)

namespace Activity

namespace Closed

variable {allowed : Request → Prop} {P : Activity → Prop} (hP : Closed allowed P)

include hP

theorem projection (h : ∀ r : Request, r.IsProjection → allowed r) :
    Projection.handler.Within P where
  handle e := hP.ofCalls ((Projection.only_handle e).mono h) hP.done
  sync id := hP.ofCalls ((Projection.only_sync id).mono h) hP.done

theorem carryOut {dispatch : Command → Activity} {cs : List Command}
    (h : ∀ c ∈ cs, P (dispatch c)) : P (Reward.carryOut dispatch cs) := by
  induction cs with
  | nil => exact hP.done _
  | cons c cs ih =>
    have hrest : P (Reward.carryOut dispatch cs) := ih fun c' hc' => h c' (List.mem_cons_of_mem c hc')
    exact hP.andThen (h c List.mem_cons_self) hrest

theorem reward (h : ∀ code, allowed (.userByReferralCode code)) {dispatch : Command → Activity}
    (hd : ∀ c : Command, c.kind ≠ .createUser → P (dispatch c)) :
    (Reward.handler dispatch).Within P where
  handle e := by
    show P (Reward.handle dispatch e)
    rw [Reward.handle]
    split
    · exact hP.done _
    · rw [Reward.rewardSignUp]
      split
      · exact hP.carryOut fun c hc => hd c (Reward.kind_of_mem_planWithoutCode hc)
      · next code _ =>
        have hlookup : (Attempt.userByReferralCode code).run.Only allowed :=
          ⟨h code, fun _ => True.intro⟩
        refine hP.attempt hlookup fun referrer => ?_
        exact hP.carryOut fun c hc => hd c (Reward.kind_of_mem_planWithCode hc)
    · exact hP.done _
  sync _ := hP.done _

/-! ## Delivery -/

theorem retrying (h : allowed .stopwatch) (p : RetryPolicy) {a : Activity} (ha : P a) :
    P (p.retrying a) :=
  p.retrying_of_closed hP.done (hP.call h) hP.pause hP.bind ha

theorem deliver (h : allowed .stopwatch) {b : Bus} {e : Event} {s : Subscription}
    (hs : P (s.attempt e)) : P (b.deliver e s) :=
  hP.mapFailure (hP.retrying h b.policy hs) _

theorem publishOne {b : Bus} {e : Event}
    (hall : ∀ {as : List Activity}, as.length = (b.subscriptions e.type).length →
      (∀ a ∈ as, P a) → P (all as))
    (h : ∀ s ∈ b.subscriptions e.type, P (b.deliver e s)) : P (b.publishOne e) := by
  rw [Bus.publishOne]
  split
  · exact hP.done _
  split
  · exact hP.done _
  · refine hall (List.length_map _) fun a ha => ?_
    obtain ⟨s, hs, rfl⟩ := List.mem_map.1 ha
    exact h s hs

theorem publish {b : Bus} {es : List Event} (h : ∀ e ∈ es, P (b.publishOne e)) :
    P (b.publish es) := by
  induction es with
  | nil => exact hP.done _
  | cons e es ih =>
    obtain ⟨he, hes⟩ := List.forall_mem_cons.1 h
    exact hP.andThen he (ih hes)

theorem dispatch {d : Dispatcher} {c : Command} (hd : ∀ h ∈ d.handlers, P (h.handle c)) :
    P (d.dispatch c) := by
  rw [Dispatcher.dispatch]
  split
  · exact hP.done _
  split
  · exact hP.done _
  · next h hh =>
    have hmem : h ∈ d.handlers := List.mem_reverse.1 (List.mem_of_find?_eq_some hh)
    exact hP.mapFailure (hd h hmem) _

end Closed

namespace Frame

variable {P : Activity → Prop} (hP : Frame P)

include hP

theorem projection : Projection.handler.Within P :=
  hP.closed.projection fun _ => Request.IsProjection.isNoSave

theorem retrying (p : RetryPolicy) {a : Activity} (ha : P a) : P (p.retrying a) :=
  hP.closed.retrying True.intro p ha

theorem exists_rest (p : RetryPolicy) {a : Activity} (ha : P a) :
    ∃ rest : Nat → Outcome → Activity, (∀ start o, P (rest start o)) ∧
      p.retrying a = .call .stopwatch fun start => a.bind (rest start) :=
  p.exists_rest hP.done (hP.call (r := .stopwatch) True.intro) hP.pause hP.bind ha

variable {b : Bus} (hb : ∀ h ∈ b.handlers, h.Within P)

include hb

omit hP in
theorem handler_within {t : EventType} {s : Subscription} (hs : s ∈ b.subscriptions t) :
    s.handler.Within P :=
  hb s.handler (List.mem_of_getElem? (Bus.registered hs))

/-- One attempt to deliver an event. -/
theorem delivery (e : Event) {s : Subscription} (hs : s ∈ b.subscriptions e.type) :
    P (s.attempt e) := by
  have hhandler : s.handler.Within P := handler_within hb hs
  refine hP.call True.intro fun synced => ?_
  split
  · exact hhandler.handle e
  · exact hP.closed.andThen (hhandler.sync _) (hP.call True.intro fun _ => hhandler.handle e)

theorem deliver (e : Event) {s : Subscription} (hs : s ∈ b.subscriptions e.type) :
    P (b.deliver e s) :=
  hP.closed.deliver True.intro (hP.delivery hb e hs)

variable (hfew : ∀ t, (b.subscriptions t).length ≤ mostInOrder)

include hfew

theorem publishOne (e : Event) : P (b.publishOne e) :=
  hP.closed.publishOne (fun hlength => hP.all (hlength ▸ hfew e.type)) fun _ hs =>
    hP.deliver hb e hs

theorem publish (es : List Event) : P (b.publish es) :=
  hP.closed.publish fun e _ => hP.publishOne hb hfew e

end Frame

end Activity

/-! ## The whole program -/

namespace Activity

variable {P : Activity → Prop}

/-- Carrying out a command, when what is done for the publication belongs to the family. -/
theorem Family.handle (hP : Family P) {publish : List Event → Activity}
    (hp : ∀ es, P (publish es)) (c : Command) :
    P (Execution.handle publish c) := by
  refine hP.persist c fun x => ?_
  cases x with
  | ok es => exact hp es
  | error f => exact hP.done _

end Activity

/-- Two listen, and each is told of an event once. -/
theorem Wiring.few_subscriptions (policy : RetryPolicy) (dispatch : Command → Activity)
    (t : EventType) :
    (((standard policy).busOver dispatch).subscriptions t).length ≤ Activity.mostInOrder := by
  cases t <;> exact Nat.le_of_ble_eq_true rfl

namespace Activity

variable {P : Activity → Prop} (policy : RetryPolicy)

theorem Closed.within_standard {allowed : Request → Prop} (hP : Closed allowed P)
    (hprojection : ∀ r : Request, r.IsProjection → allowed r)
    (hcode : ∀ code, allowed (.userByReferralCode code)) {dispatch : Command → Activity}
    (hd : ∀ c : Command, c.kind ≠ .createUser → P (dispatch c)) {h : EventHandler}
    (hh : h ∈ ((Wiring.standard policy).busOver dispatch).handlers) : h.Within P := by
  obtain ⟨listener, hmem, rfl⟩ := List.mem_map.1 hh
  have hlistener : listener = .projection ∨ listener = .reward := by
    simpa [Wiring.standard] using hmem
  rcases hlistener with rfl | rfl
  · exact hP.projection hprojection
  · exact hP.reward hcode hd

theorem Closed.dispatch_standard {allowed : Request → Prop} (hP : Closed allowed P) {bus : Bus}
    {c : Command} (hc : P (Execution.handle bus.publish c)) :
    P (((Wiring.standard policy).dispatcherOver bus).dispatch c) := by
  refine hP.dispatch fun h hh => ?_
  obtain ⟨executor, hmem, rfl⟩ := List.mem_map.1 hh
  obtain rfl : executor = .service := by simpa [Wiring.standard] using hmem
  exact hc

theorem Frame.within_standard (hP : Frame P) {dispatch : Command → Activity}
    (hd : ∀ c : Command, c.kind ≠ .createUser → P (dispatch c)) {h : EventHandler}
    (hh : h ∈ ((Wiring.standard policy).busOver dispatch).handlers) : h.Within P :=
  hP.closed.within_standard policy (fun _ => Request.IsProjection.isNoSave) (fun _ => True.intro)
    hd hh

theorem Frame.publish_standard (hP : Frame P) {dispatch : Command → Activity}
    (hd : ∀ c : Command, c.kind ≠ .createUser → P (dispatch c)) (es : List Event) :
    P (((Wiring.standard policy).busOver dispatch).publish es) :=
  hP.publish (fun _ hh => hP.within_standard policy hd hh)
    (Wiring.few_subscriptions policy dispatch) es

variable (hP : Family P)

include hP

theorem Family.dispatchWithin (levels : Nat) (c : Command) :
    P ((Wiring.standard policy).dispatchWithin levels c) := by
  -- At the innermost level nobody takes commands; each further level dispatches to the one within.
  induction levels generalizing c with
  | zero => exact hP.closed.dispatch fun h hh => absurd hh List.not_mem_nil
  | succ levels ih =>
    exact hP.closed.dispatch_standard policy (hP.handle (hP.publish_standard policy fun c _ => ih c) c)

/-- Publishing events in the whole program belongs to every family. -/
theorem Family.wiring_publish (es : List Event) : P ((Wiring.standard policy).publish es) :=
  hP.publish_standard policy (fun c _ => hP.dispatchWithin policy 1 c) es

/-- **All that the program does.** Dispatching a command in the whole program belongs to every
family. -/
theorem Family.wiring_dispatch (c : Command) : P ((Wiring.standard policy).dispatch c) :=
  hP.closed.dispatch_standard policy (hP.handle (hP.wiring_publish policy) c)

end Activity

/-- An activity in which nothing is saved but the decisions on commands. -/
abbrev SavesDecisions : Activity → Prop :=
  Activity.Composed (fun c => (Execution.persist c).run) Request.IsNoSave

theorem family_savesDecisions : Family SavesDecisions where
  done := .done
  call hr hk := .call hr hk
  pause := .pause
  fork ha hb hk := .fork ha hb hk
  bind ha hg := Activity.Composed.bind ha hg
  persist c _ hg := .part c hg

end Loyalty
