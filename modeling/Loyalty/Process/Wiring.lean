import Loyalty.Delivery.Bus
import Loyalty.Delivery.Dispatcher
import Loyalty.Process.Execution
import Loyalty.Process.Reward
import Loyalty.ReadModel.Projection

/-!
# Wiring

Carrying out a command publishes events, and the reward for a sign-up gives commands: dispatcher
and bus need each other. A `Wiring` says who is registered where, and the two are built from it
together.

That dispatching ends is not left to chance. Rewards are given for sign-ups alone, and no command
among the rewards signs anybody up, so within the dispatch of a command others are dispatched, but
within those no further ones. A dispatcher is therefore built for a number of levels, of which the
innermost carries out nothing, and two levels are enough.
-/

namespace Loyalty

/-- Who is registered to be told of events. -/
inductive Listener where
  /-- the projection into the read model -/
  | projection
  /-- the rewards for signing up -/
  | reward
  /-- some other handler -/
  | other (h : EventHandler)

/-- Who is registered to carry out commands. -/
inductive Executor where
  /-- the handler of all commands -/
  | service
  /-- some other handler -/
  | other (h : CommandHandler)

/-- Who is registered where. -/
structure Wiring where
  /-- how deliveries are repeated -/
  policy : RetryPolicy
  /-- who is told of events, in the order of registration -/
  listeners : List Listener
  /-- who carries out commands, in the order of registration -/
  executors : List Executor

namespace Listener

/-- The handler of a listener, which may give commands. -/
def handler (dispatch : Command → Activity) : Listener → EventHandler
  | projection => Projection.handler
  | reward => Reward.handler dispatch
  | other h => h

end Listener

namespace Executor

/-- The handler of an executor, which may publish events. -/
def handler (publish : List Event → Activity) : Executor → CommandHandler
  | service => Execution.handler publish
  | other h => h

end Executor

namespace Wiring

/-- Nobody is registered. -/
def bare (policy : RetryPolicy) : Wiring := ⟨policy, [], []⟩

/-- The whole program: the projection is told of events before the rewards are. -/
def standard (policy : RetryPolicy) : Wiring :=
  ⟨policy, [.projection, .reward], [.service]⟩

/-- The bus of a wiring, given how its listeners dispatch. -/
def busOver (w : Wiring) (dispatch : Command → Activity) : Bus where
  policy := w.policy
  handlers := w.listeners.map (Listener.handler dispatch)

/-- The dispatcher of a wiring, given the bus on which its executors publish. -/
def dispatcherOver (w : Wiring) (bus : Bus) : Dispatcher where
  handlers := w.executors.map (Executor.handler bus.publish)

/-- Has a command carried out, with so many levels of dispatching one within the other. -/
def dispatchWithin (w : Wiring) : Nat → Command → Activity
  | 0 => Dispatcher.dispatch ⟨[]⟩
  | levels + 1 => (w.dispatcherOver (w.busOver (w.dispatchWithin levels))).dispatch

/-- How the reward for a sign-up has its commands carried out. -/
def dispatchReward (w : Wiring) : Command → Activity :=
  w.dispatchWithin 1

/-- The bus of a wiring. -/
def bus (w : Wiring) : Bus :=
  w.busOver w.dispatchReward

/-- The dispatcher of a wiring. -/
def dispatcher (w : Wiring) : Dispatcher :=
  w.dispatcherOver w.bus

/-- Has a command carried out. -/
def dispatch (w : Wiring) (c : Command) : Activity :=
  w.dispatcher.dispatch c

/-- Publishes events. -/
def publish (w : Wiring) (es : List Event) : Activity :=
  w.bus.publish es

end Wiring

end Loyalty
