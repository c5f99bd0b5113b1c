import Loyalty.Proofs.Delivery.Seclusion
import Loyalty.Proofs.Process.Crowding
import Loyalty.Proofs.Process.Prompt

/-!
# Publishing

A batch of events is delivered event by event, and each event to all who want to be told of it, side
by side. `Bus.Delivered` says what comes of one event, and `Bus.Delivers` how a bus delivers.

Main statement: a bus whose handlers keep to themselves delivers events in order, and what the
handlers of an event do makes no difference to each other. There is a proviso for a handler to which
an event is delivered more than once, and an example shows that it is needed.
-/

namespace Loyalty

open Simulation
open Companion (beginning)
open World (Alike AlikeNow)

namespace Bus

variable (b : Bus)

/-- The deliveries of an event, in the order of the subscriptions. -/
def deliveries (e : Event) : List (Subscription × Activity) :=
  (b.subscriptions e.type).map fun s => (s, b.deliver e s)

/-- The subscriptions of the handlers of a name to a kind of event. -/
def subscriptionsOf (name : String) (t : EventType) : List Subscription :=
  (b.subscriptions t).filter fun s => s.handler.name = name

/-- The bus on which nobody is told of anything but the handlers of this name. -/
def only (name : String) : Bus where
  policy := b.policy
  handlers := b.handlers.map fun h => if h.name = name then h else { h with types := [] }

/-- An event is delivered through all subscriptions, in the state `w`, with these results, and `r` is
the outcome and the state afterwards. -/
structure Delivered (e : Event) (w : World) (results : List (Subscription × Outcome))
    (r : Outcome × World) : Prop where
  /-- there is a result for each subscription, in the order of registration -/
  everywhere : results.map Prod.fst = b.subscriptions e.type
  /-- the deliveries go on side by side, and all of them come to an end; if there are many, those
  that wake up at once have their turns as they fell asleep -/
  together : Together World.surroundings (Activity.mostInOrder < b.handlerCount e.type) 0
    (beginning (b.deliveries e)) w results r.2
  /-- the failure is that of the first delivery that failed -/
  outcome_eq : r.1 = .ofResults results

/-- How a bus delivers events. -/
structure Delivers : Prop where
  /-- everybody is told of a kind as often as he names it, in the order of registration -/
  registered : ∀ t, (b.subscriptions t).map Subscription.handler =
    b.handlers.flatMap fun h => List.replicate (h.types.count t) h
  /-- a batch goes on only where what comes before succeeded -/
  batch : ∀ xs ys w, World.perform (b.publish (xs ++ ys)) w =
    match World.perform (b.publish xs) w with
    | (.ok (), w') => World.perform (b.publish ys) w'
    | (.error f, w') => (.error f, w')
  /-- an event of nobody is not delivered -/
  blank : ∀ e w, Text.isBlank e.aggregateId →
    World.perform (b.publish [e]) w = (.error .blankId, w)
  /-- nor is one that nobody wants to be told of -/
  unheard : ∀ e w, ¬ Text.isBlank e.aggregateId → b.subscriptions e.type = [] →
    World.perform (b.publish [e]) w = (.error (.noEventHandlers e.type), w)
  /-- any other is -/
  delivered : ∀ e w, ¬ Text.isBlank e.aggregateId → b.subscriptions e.type ≠ [] →
    ∃ results, b.Delivered e w results (World.perform (b.publish [e]) w)
  /-- a handler is called as it would be, and comes to the outcomes to which it would come, if nobody
  else were told of the event; if there is more than one delivery to it, there are to be many in all
  in both cases or in neither, since it depends on that whose turn it is when these wake up at once -/
  alone : ∀ e w results, ¬ Text.isBlank e.aggregateId →
    b.Delivered e w results (World.perform (b.publish [e]) w) →
    ∀ name, b.subscriptionsOf name e.type ≠ [] →
      (b.subscriptionsOf name e.type).length ≤ 1 ∨
        (Activity.mostInOrder < b.handlerCount e.type ↔
          Activity.mostInOrder < (b.subscriptionsOf name e.type).length) →
      let r := World.perform ((b.only name).publish [e]) w
      (b.only name).Delivered e w (results.filter fun x => x.1.handler.name = name) r ∧
        Alike name (b.subscriptionsOf name e.type) (World.perform (b.publish [e]) w).2 r.2
  /-- nor does it matter who else is told of the event, what they do and how long they take, with the
  same proviso -/
  undisturbed : ∀ (other : Bus) e w results results' r r',
    (∀ h ∈ other.handlers, h.Secluded) → other.policy = b.policy →
    b.Delivered e w results r → other.Delivered e w results' r' →
    ∀ name, other.subscriptionsOf name e.type = b.subscriptionsOf name e.type →
      (b.subscriptionsOf name e.type).length ≤ 1 ∨
        (Activity.mostInOrder < b.handlerCount e.type ↔
          Activity.mostInOrder < other.handlerCount e.type) →
      (results.filter fun x => x.1.handler.name = name) =
          results'.filter (fun x => x.1.handler.name = name) ∧
        Alike name (b.subscriptionsOf name e.type) r.2 r'.2

variable {b}

/-! ## Subscriptions -/

/-- Everybody is told of a kind of event as often as he has named it, in the order of
registration. -/
theorem handler_subscriptions (t : EventType) :
    (b.subscriptions t).map Subscription.handler =
      b.handlers.flatMap fun h => List.replicate (h.types.count t) h := by
  have hone (x : EventHandler × Nat) :
      ((x.1.types.filter fun y => y = t).map fun _ => Subscription.mk x.2 x.1).map
        Subscription.handler = List.replicate (x.1.types.count t) x.1 := by
    rw [List.map_map, List.count_eq_length_filter]
    exact List.map_const'
  calc (b.subscriptions t).map Subscription.handler
    _ = b.handlers.zipIdx.flatMap fun x => List.replicate (x.1.types.count t) x.1 := by
      rw [subscriptions, List.map_flatMap]
      exact congrArg (fun f => b.handlers.zipIdx.flatMap f) (funext hone)
    _ = (b.handlers.zipIdx.map Prod.fst).flatMap fun h => List.replicate (h.types.count t) h := by
      rw [List.flatMap_map]
    _ = b.handlers.flatMap fun h => List.replicate (h.types.count t) h := by
      rw [List.zipIdx_map_fst]

theorem subscriptions_only (name : String) (t : EventType) :
    (b.only name).subscriptions t = b.subscriptionsOf name t := by
  rw [subscriptionsOf, subscriptions, subscriptions, only, List.zipIdx_map, List.flatMap_map,
    List.filter_flatMap]
  refine congrArg (fun f => b.handlers.zipIdx.flatMap f) (funext fun x => ?_)
  have hnamed : ∀ s ∈ (x.1.types.filter fun y => y = t).map fun _ => Subscription.mk x.2 x.1,
      s.handler.name = x.1.name := by
    intro s hs
    obtain ⟨y, -, rfl⟩ := List.mem_map.1 hs
    rfl
  by_cases hname : x.1.name = name
  · rw [List.filter_eq_self.2 fun s hs => decide_eq_true ((hnamed s hs).trans hname)]
    simp [hname]
  · rw [List.filter_eq_nil_iff.2 fun s hs h => hname ((hnamed s hs).symm.trans (of_decide_eq_true h))]
    simp [hname]

theorem subscriptionsOf_only (name : String) (t : EventType) :
    (b.only name).subscriptionsOf name t = b.subscriptionsOf name t := by
  rw [subscriptionsOf, subscriptions_only, subscriptionsOf, List.filter_filter]
  simp

/-- Subscriptions with the same number are of the same handler. -/
theorem handler_eq {t : EventType} {s s' : Subscription} (hs : s ∈ b.subscriptions t)
    (hs' : s' ∈ b.subscriptions t) (h : s.number = s'.number) : s.handler = s'.handler :=
  Option.some.inj ((registered hs).symm.trans (h ▸ registered hs'))

/-! ## Batches -/

theorem publish_append (xs ys : List Event) (w : World) :
    World.perform (b.publish (xs ++ ys)) w =
      match World.perform (b.publish xs) w with
      | (.ok (), w') => World.perform (b.publish ys) w'
      | (.error f, w') => (.error f, w') := by
  induction xs generalizing w with
  | nil => rfl
  | cons x xs ih =>
    rw [World.perform, List.cons_append, publish, World.perform, publish, Activity.andThen,
      Activity.andThen, Activity.run_bind, Activity.run_bind]
    obtain ⟨o, w'⟩ := (b.publishOne x).run World.surroundings w
    cases o with
    | ok u => exact ih w'
    | error f => rfl

theorem publish_singleton (e : Event) (w : World) :
    World.perform (b.publish [e]) w = World.perform (b.publishOne e) w :=
  Activity.run_andThen_idle World.surroundings (b.publishOne e) w

theorem publishOne_eq {e : Event} (hid : ¬ Text.isBlank e.aggregateId)
    (hsome : b.subscriptions e.type ≠ []) :
    b.publishOne e = .all ((b.deliveries e).map Prod.snd) := by
  have hmap : (b.deliveries e).map Prod.snd = (b.subscriptions e.type).map (b.deliver e) := by
    rw [deliveries, List.map_map]
    rfl
  rw [publishOne, if_neg hid, hmap]
  cases h : b.subscriptions e.type with
  | nil => exact absurd h hsome
  | cons s ss => rfl

/-! ## One event -/

/-- What is asked for while an event of this kind is delivered through a subscription. -/
def Allows (b : Bus) (t : EventType) (s : Subscription) (r : Request) : Prop :=
  s ∈ b.subscriptions t ∧ s.Uses r

section Secluded

variable (hb : ∀ h ∈ b.handlers, h.Secluded)

include hb

theorem secluded_only (name : String) : ∀ h ∈ (b.only name).handlers, h.Secluded := by
  refine List.forall_mem_map.2 fun h hh => ?_
  split
  · exact hb h hh
  · exact ⟨(hb h hh).handle, (hb h hh).sync⟩

theorem solo_deliveries (e : Event) : ∀ x ∈ b.deliveries e, x.2.Solo (b.Allows e.type x.1) := by
  refine List.forall_mem_map.2 fun s hs => ?_
  have hhandler : s.handler.Secluded := hb _ (List.mem_of_getElem? (registered hs))
  exact (Activity.Solo.deliver b e hhandler).mono fun r hr => ⟨hs, hr⟩

/-- The deliveries of an event go on side by side and come to an end. -/
theorem delivered_publish {e : Event} (hid : ¬ Text.isBlank e.aggregateId)
    (hsome : b.subscriptions e.type ≠ []) (w : World) :
    ∃ results, b.Delivered e w results (World.perform (b.publish [e]) w) := by
  have hsolo := solo_deliveries hb e
  have hlength : ((b.deliveries e).map Prod.snd).length = b.handlerCount e.type := by
    rw [deliveries, List.length_map, List.length_map, handlerCount]
  have harranges : (b.publishOne e).course.Arranges
      (Activity.mostInOrder < b.handlerCount e.type) 0 (beginning (b.deliveries e)) := by
    rw [publishOne_eq hid hsome, Activity.all]
    split
    · next hfew =>
      rw [decide_eq_false (Nat.not_lt.2 (hlength ▸ hfew))]
      exact Activity.arranges_inOrder hsolo
    · next hmany =>
      rw [decide_eq_true (Nat.not_le.1 (hlength ▸ hmany))]
      exact Activity.arranges_crowd hsolo
  obtain ⟨results, htogether, ho⟩ := harranges.together World.surroundings w
  rw [publish_singleton]
  refine ⟨results, ?_, htogether, ho⟩
  rw [htogether.who_eq, beginning, deliveries, List.map_map, List.map_map]
  exact List.map_id _

/-- Deliveries to other handlers make no difference. -/
theorem Delivered.apart {e : Event} {w : World} {results : List (Subscription × Outcome)}
    {r : Outcome × World} (h : b.Delivered e w results r) (name : String) :
    ∃ v, Together World.surroundings (Activity.mostInOrder < b.handlerCount e.type) 0
        (beginning ((b.subscriptionsOf name e.type).map fun s => (s, b.deliver e s))) w
        (results.filter fun x => x.1.handler.name = name) v ∧
      AlikeNow name (b.subscriptionsOf name e.type) r.2 v := by
  have hbeginning : (beginning (b.deliveries e)).filter (fun m => m.who.handler.name = name) =
      beginning ((b.subscriptionsOf name e.type).map fun s => (s, b.deliver e s)) := by
    rw [beginning, beginning, deliveries, subscriptionsOf, List.map_map, List.map_map,
      List.filter_map]
    rfl
  have hsolo : ∀ m ∈ beginning (b.deliveries e), m.course.Solo (b.Allows e.type m.who) :=
    List.forall_mem_map.2 fun x hx => (solo_deliveries hb e x hx).course
  rw [← hbeginning]
  refine h.together.apart (fun s => s.handler.name = name) ?_ ?_ (fun n u v huv => huv.pass n)
    hsolo (AlikeNow.refl name _ w)
  · intro s r u v hs hr huv
    exact huv.answer_own (List.mem_filter.2 ⟨hr.1, hs⟩) (of_decide_eq_true hs) hr.2
  · intro s r u v hs hr huv
    have hname := of_decide_eq_false hs
    refine huv.answer_other (fun s' hs' hnumber => hname ?_) hname hr.2
    obtain ⟨hmem, hname'⟩ := List.mem_filter.1 hs'
    exact handler_eq hmem hr.1 hnumber ▸ of_decide_eq_true hname'

/-- Whoever else is told of an event, the deliveries to the handlers of a name go on in the same
way. -/
theorem Delivered.undisturbed {other : Bus} (hother : ∀ h ∈ other.handlers, h.Secluded)
    (hpolicy : other.policy = b.policy) {e : Event} {w : World}
    {results results' : List (Subscription × Outcome)} {r r' : Outcome × World}
    (h : b.Delivered e w results r) (h' : other.Delivered e w results' r') {name : String}
    (hsame : other.subscriptionsOf name e.type = b.subscriptionsOf name e.type)
    (hrule : (b.subscriptionsOf name e.type).length ≤ 1 ∨
      (Activity.mostInOrder < b.handlerCount e.type ↔
        Activity.mostInOrder < other.handlerCount e.type)) :
    (results.filter fun x => x.1.handler.name = name) =
        results'.filter (fun x => x.1.handler.name = name) ∧
      Alike name (b.subscriptionsOf name e.type) r.2 r'.2 := by
  obtain ⟨v, htogether, halike⟩ := Delivered.apart hb h name
  obtain ⟨v', htogether', halike'⟩ := Delivered.apart hother h' name
  have hdeliver : other.deliver e = b.deliver e := by
    funext s
    rw [deliver, deliver, hpolicy]
  rw [hsame] at halike'
  rw [hsame, hdeliver] at htogether'
  have hsolo : ∀ x ∈ (b.subscriptionsOf name e.type).map (fun s => (s, b.deliver e s)),
      x.2.Solo (b.Allows e.type x.1) :=
    List.forall_mem_map.2 fun s hs =>
      solo_deliveries hb e (s, b.deliver e s) (List.mem_map_of_mem (List.mem_filter.1 hs).1)
  obtain ⟨hresults, u, n, n', rfl, rfl⟩ := Together.unique (fun _ => rfl)
    (fun n k w => congrArg (fun t => { w with time := t }) (Nat.add_assoc w.time n k)) hsolo
    (by rw [List.length_map]; exact hrule.imp id decide_eq_decide.2) htogether htogether'
  exact ⟨hresults, halike.toAlike.trans ((World.alike_pass name _ n u).trans
    ((World.alike_pass name _ n' u).symm.trans halike'.toAlike.symm))⟩

/-- The deliveries to the handlers of a name go on as they would if nobody else were told of the
event. -/
theorem Delivered.alone {e : Event} (hid : ¬ Text.isBlank e.aggregateId) {w : World}
    {results : List (Subscription × Outcome)} {r : Outcome × World}
    (h : b.Delivered e w results r) {name : String}
    (hsome : b.subscriptionsOf name e.type ≠ [])
    (hrule : (b.subscriptionsOf name e.type).length ≤ 1 ∨
      (Activity.mostInOrder < b.handlerCount e.type ↔
        Activity.mostInOrder < (b.subscriptionsOf name e.type).length)) :
    (b.only name).Delivered e w (results.filter fun x => x.1.handler.name = name)
        (World.perform ((b.only name).publish [e]) w) ∧
      Alike name (b.subscriptionsOf name e.type) r.2
        (World.perform ((b.only name).publish [e]) w).2 := by
  have honly := secluded_only hb name
  obtain ⟨results', hdelivered⟩ :=
    delivered_publish honly hid ((subscriptions_only name e.type).symm ▸ hsome) w
  have hcount : (b.only name).handlerCount e.type = (b.subscriptionsOf name e.type).length := by
    rw [handlerCount, subscriptions_only]
  obtain ⟨hresults, halike⟩ := Delivered.undisturbed hb honly rfl h hdelivered
    (subscriptionsOf_only name e.type) (hcount.symm ▸ hrule)
  have hall : results'.filter (fun x => x.1.handler.name = name) = results' := by
    refine List.filter_eq_self.2 fun x hx => ?_
    have hmem : x.1 ∈ (b.only name).subscriptions e.type :=
      hdelivered.everywhere ▸ List.mem_map_of_mem hx
    rw [subscriptions_only] at hmem
    exact (List.mem_filter.1 hmem).2
  rw [hresults, hall]
  exact ⟨hdelivered, halike⟩

end Secluded

/-- **Delivery.** A bus whose handlers keep to themselves delivers events in order, and what the
handlers of an event do makes no difference to each other. -/
theorem delivers {b : Bus} (hb : ∀ h ∈ b.handlers, h.Secluded) : b.Delivers where
  registered := handler_subscriptions
  batch := publish_append
  blank e w hid := by
    rw [publish_singleton, publishOne, if_pos hid]
    rfl
  unheard e w hid hnobody := by
    rw [publish_singleton, publishOne, if_neg hid, hnobody]
    rfl
  delivered e w hid hsome := delivered_publish hb hid hsome w
  alone e w results hid h name hsome hrule := h.alone hb hid hsome hrule
  undisturbed other e w results results' r r' hother hpolicy h h' name hsame hrule :=
    h.undisturbed hb hother hpolicy h' hsame hrule

/-- A bus with two handlers, of which the second names a kind twice and takes its time. -/
def unequal : Bus where
  policy := .standard
  handlers := [scriptedHandler "faltering" [.pointsEarned] 0 false,
    scriptedHandler "slow" [.pointsEarned, .userCreated, .pointsEarned] 40000000 true]

theorem unequal_delivers : (∀ h ∈ unequal.handlers, h.Secluded) ∧ unequal.Delivers := by
  have hsecluded : ∀ h ∈ unequal.handlers, h.Secluded := by
    refine List.forall_mem_cons.2 ⟨?_, List.forall_mem_singleton.2 ?_⟩
    · exact secluded_scriptedHandler _ _ _ _
    · exact secluded_scriptedHandler _ _ _ _
  exact ⟨hsecluded, delivers hsecluded⟩

/-- The first handler gives up, and nobody is told of the second event, but the other one has taken
the first event twice. -/
example :
    let w : World := { scripts := fun name =>
      if name = "faltering" then { always := some (.readModel "row locked") } else {} }
    let e (version : Nat) : Event := .ofChange "kim" version (.pointsEarned 5) (w.supply.time version)
    (World.perform (unequal.publish [e 1, e 2]) w).2.callsTo "slow" =
      [(.handle (e 1), 40000000, true), (.handle (e 1), 40000000, true)] := by
  decide +kernel

/-! ## A crowd -/

/-- A bus with a handler that is registered twice and takes its time, and another one that names the
kind so often that the deliveries form a crowd. -/
def crowded : Bus where
  policy := (RetryPolicy.standard.withInitialInterval (.ofMillis 125 (by decide))).withMaxRetry 2
  handlers := [scriptedHandler "busy" [.pointsEarned] 250000000 false,
    scriptedHandler "busy" [.pointsEarned] 250000000 false,
    scriptedHandler "idle" (List.replicate 29 .pointsEarned) 0 true]

/-- A world in which this handler refuses at first. -/
def reluctant : World where
  scripts name :=
    let notNow : Option Failure := some (.handler "busy" "not now")
    if name = "busy" then { handle := [notNow, notNow], sync := [none, notNow, notNow] } else {}

/-- An event of which all are told. -/
def told : Event :=
  .ofChange "kim" 1 (.pointsEarned 5) (reluctant.supply.time 0)

theorem run_crowded :
    (World.perform (crowded.publish [told]) reluctant).1 =
      .error (.publish "busy" .pointsEarned "kim" (.handler "busy" "not now")) ∧
    ((World.perform (crowded.publish [told]) reluctant).2.callsTo "busy").length = 7 := by
  have hid : ¬ Text.isBlank told.aggregateId := by decide +kernel
  have hsome : crowded.subscriptions told.type ≠ [] := by decide +kernel
  let members := (crowded.deliveries told).map Prod.snd
  have hmany : ¬ members.length ≤ Activity.mostInOrder := by decide +kernel
  have hrun : ((Crowd.ofList (List.ofFn fun i => (members.get i).course)).runWithin
      World.surroundings 1000 reluctant).map (fun r => (r.1, (r.2.callsTo "busy").length)) =
        some (.error (.publish "busy" .pointsEarned "kim" (.handler "busy" "not now")), 7) := by
    decide +kernel
  obtain ⟨r, hr, heq⟩ := Option.map_eq_some_iff.1 hrun
  have hperform : World.perform (crowded.publish [told]) reluctant = r := by
    rw [publish_singleton, publishOne_eq hid hsome, Activity.all, if_neg hmany]
    exact Crowd.run_of_runWithin hr
  rw [hperform]
  exact Prod.mk.inj heq

/-- With many deliveries in all, two deliveries to one handler need not go as they would if nobody
else were told of the event. Here both wake up at once after a while. The second has been asleep for
longer and has its turn first, so it is the second that is refused once more, and it has no further
attempt. If nobody else is told, the first has its turn first. It is refused, and tries again. -/
theorem crowded_not_alone :
    (∀ h ∈ crowded.handlers, h.Secluded) ∧
    (World.perform (crowded.publish [told]) reluctant).1 =
      .error (.publish "busy" .pointsEarned "kim" (.handler "busy" "not now")) ∧
    (World.perform ((crowded.only "busy").publish [told]) reluctant).1 = .ok () ∧
    ((World.perform (crowded.publish [told]) reluctant).2.callsTo "busy").length = 7 ∧
    ((World.perform ((crowded.only "busy").publish [told]) reluctant).2.callsTo "busy").length =
      8 := by
  have hsecluded : ∀ h ∈ crowded.handlers, h.Secluded := by
    refine List.forall_mem_cons.2 ⟨?_, List.forall_mem_cons.2
      ⟨?_, List.forall_mem_singleton.2 ?_⟩⟩
    · exact secluded_scriptedHandler _ _ _ _
    · exact secluded_scriptedHandler _ _ _ _
    · exact secluded_scriptedHandler _ _ _ _
  obtain ⟨hfailed, hcalls⟩ := run_crowded
  exact ⟨hsecluded, hfailed, by decide +kernel, hcalls, by decide +kernel⟩

end Bus

end Loyalty
