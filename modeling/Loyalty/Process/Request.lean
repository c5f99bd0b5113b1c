import Loyalty.ReadModel
import Loyalty.Event.Stored

/-!
# Requests

Everything that the processes of this program need from elsewhere they ask for: the event store
and the read model, the clock, new codes and identities, and handlers that are not part of the
program. A `Request` says what is asked for, and `Request.Answer` what comes back. A request to a
store or to a handler may fail; the others cannot.

Which aggregates a subscription to events has caught up on is asked for as well, since this
memory outlives the process that fills it.
-/

namespace Loyalty

open Time

/-- How something ended that has no result of its own. -/
abbrev Outcome : Type := Except Failure Unit

/-- What is passed to a handler outside the program. -/
inductive Errand where
  /-- an event is delivered -/
  | handle (event : Event)
  /-- the handler is to catch up on an aggregate -/
  | sync (aggregateId : String)
  /-- a command is to be carried out -/
  | carryOut (command : Command)
  deriving DecidableEq

/-- What a process asks for. -/
inductive Request where
  /-- save a batch of events -/
  | save (events : List Event)
  /-- all events of an aggregate -/
  | load (aggregateId : String)
  /-- the events of an aggregate beyond a version -/
  | loadAfter (aggregateId : String) (version : Nat)
  /-- write to the read model -/
  | write (w : Write)
  /-- the profile of a user -/
  | user (userId : String)
  /-- the profile of the user with this code -/
  | userByReferralCode (code : String)
  /-- what time it is -/
  | now
  /-- how far a clock that is never set has come, in nanoseconds -/
  | stopwatch
  /-- a new code for a user to hand out -/
  | freshCode
  /-- a new identity for a referral -/
  | freshId
  /-- whether a subscription has caught up on an aggregate -/
  | isSynced (subscription : Nat) (aggregateId : String)
  /-- note that a subscription has caught up on an aggregate -/
  | markSynced (subscription : Nat) (aggregateId : String)
  /-- let the handler with this name do something -/
  | outside (handler : String) (errand : Errand)
  deriving DecidableEq

/-- What comes back. -/
abbrev Request.Answer : Request → Type
  | save _ => Outcome
  | load _ => Except Failure (List Event)
  | loadAfter .. => Except Failure (List Event)
  | write _ => Outcome
  | user _ => Except Failure Profile
  | userByReferralCode _ => Except Failure Profile
  | now => Timestamp
  | stopwatch => Nat
  | freshCode => String
  | freshId => String
  | isSynced .. => Bool
  | markSynced .. => Unit
  | outside .. => Outcome

/-- Those who answer requests: what they answer in a given state and what their state is then, and
how their state changes while time goes by. -/
structure Surroundings (σ : Type) where
  /-- the answer to a request -/
  answer : (r : Request) → σ → r.Answer × σ
  /-- so many nanoseconds go by -/
  pass : Nat → σ → σ

end Loyalty
