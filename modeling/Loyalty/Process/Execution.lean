import Loyalty.Delivery.Handler
import Loyalty.User.Decision
import Loyalty.User.Repository

/-!
# Carrying out commands

A command is carried out in four steps: the user is loaded (a user who signs up has nothing to
load), the rule for the command decides, the events are stored, and they are published. When
publishing fails the events stay stored all the same.
-/

namespace Loyalty.Execution

/-- The events that a command brings about at the given time. -/
def decision (now : Time.Timestamp) (c : Command) : Attempt (List Event) := do
  let decided ← match c with
    | .createUser c => do
      let code ← Attempt.freshCode
      pure (c.decide code now)
    | .deleteUser c => do
      let u ← Repository.load c.userId
      pure (DeleteUser.decide u now)
    | .createReferral c => do
      let u ← Repository.load c.userId
      let id ← Attempt.freshId
      pure (c.decide u id now)
    | .completeReferral c => do
      let u ← Repository.load c.userId
      let id ← Attempt.freshId
      pure (c.decide u id now)
    | .earnPoints c => do
      let u ← Repository.load c.userId
      pure (c.decide u now)
  Attempt.ofExcept (decided.mapError Failure.ofRejection)

/-- Decides on a command and stores the events. -/
def persist (c : Command) : Attempt (List Event) := do
  let now ← Attempt.now
  let events ← decision now c
  let _ ← Repository.apply events
  pure events

/-- Carries out a command. -/
def handle (publish : List Event → Activity) (c : Command) : Activity :=
  .attempt (persist c) publish

/-- The handler of all commands. -/
def handler (publish : List Event → Activity) : CommandHandler where
  kinds := CommandKind.all
  handle := handle publish

end Loyalty.Execution
