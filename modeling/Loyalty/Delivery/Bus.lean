import Loyalty.Delivery.Handler
import Loyalty.Delivery.Policy

/-!
# The event bus

Published events are delivered one after the other, each to all who want to be told of its kind.
Those are told side by side; the next event has to wait for all of them. When one of them cannot be
made to accept the event, the events after it are not delivered.

Before the first event of an aggregate a handler is asked to catch up on the aggregate. Having done
so once is remembered for each registration.

A delivery that fails is repeated as the retry policy says.
-/

namespace Loyalty

/-- A registration of a handler. A handler that is registered twice has two subscriptions, which
know nothing of each other. -/
structure Subscription where
  /-- the place in the order of registrations, from 0 -/
  number : Nat
  /-- the handler -/
  handler : EventHandler

namespace Subscription

/-- One attempt to deliver an event: the handler catches up first where it has not yet done so. -/
def attempt (s : Subscription) (e : Event) : Activity :=
  .call (.isSynced s.number e.aggregateId) fun synced =>
    if synced then s.handler.handle e
    else
      (s.handler.sync e.aggregateId).andThen
        (.call (.markSynced s.number e.aggregateId) fun _ => s.handler.handle e)

end Subscription

namespace RetryPolicy

/-- Repeats an attempt that fails, at most so many times, with a given pause before the next
attempt. `start` is what the stopwatch showed before the first. -/
def repeating (p : RetryPolicy) (attempt : Activity) (start : Nat) : Nat → Nat → Activity
  | 0, _ => attempt
  | retries + 1, pause =>
    attempt.bind fun
      | .ok () => .idle
      | .error f =>
        .call .stopwatch fun t =>
          if p.considers f (t - start) then
            .pause pause (repeating p attempt start retries (p.nextPause pause))
          else .fail f

/-- Makes an attempt and repeats it as the policy says. -/
def retrying (p : RetryPolicy) (attempt : Activity) : Activity :=
  .call .stopwatch fun start =>
    p.repeating attempt start p.maxRetry p.initialInterval.nanos

end RetryPolicy

/-- An event bus. -/
structure Bus where
  /-- how deliveries are repeated -/
  policy : RetryPolicy
  /-- the registered handlers, in the order of registration -/
  handlers : List EventHandler

namespace Bus

/-- The subscriptions to a kind of event, one for each time that a registered handler names it. -/
def subscriptions (b : Bus) (t : EventType) : List Subscription :=
  b.handlers.zipIdx.flatMap fun (h, number) =>
    (h.types.filter fun x => x = t).map fun _ => ⟨number, h⟩

/-- How many subscriptions there are to a kind of event. -/
def handlerCount (b : Bus) (t : EventType) : Nat :=
  (b.subscriptions t).length

/-- Delivers an event through one subscription. -/
def deliver (b : Bus) (e : Event) (s : Subscription) : Activity :=
  (b.policy.retrying (s.attempt e)).mapFailure (.publish s.handler.name e.type e.aggregateId)

/-- Delivers an event through all subscriptions. -/
def publishOne (b : Bus) (e : Event) : Activity :=
  if Text.isBlank e.aggregateId then .fail .blankId
  else
    match b.subscriptions e.type with
    | [] => .fail (.noEventHandlers e.type)
    | ss => .all (ss.map (b.deliver e))

/-- Delivers events in order, up to the first that cannot be delivered. -/
def publish (b : Bus) : List Event → Activity
  | [] => .idle
  | e :: es => (b.publishOne e).andThen (b.publish es)

end Bus

end Loyalty
