import Loyalty.Process.Schedule
import Loyalty.Process.Wiring
import Loyalty.Simulation.World

/-!
# Running in the simulated world

Activities and attempts as things that happen to a world, and the handlers that follow a script.
-/

namespace Loyalty.Simulation

/-- A handler whose answers are in the script of the world. It takes its time before it answers to
an event. A handler that is `indifferent` has nothing to catch up on, and does not even note that
it was asked. -/
def scriptedHandler (name : String) (types : List EventType) (delay : Nat) (indifferent : Bool) :
    EventHandler where
  name := name
  types := types
  handle e := .pause delay (.call (.outside name (.handle e)) .done)
  sync id := if indifferent then .idle else .call (.outside name (.sync id)) .done

/-- A handler of commands whose answers are in the script of the world. -/
def scriptedCommandHandler (name : String) (kinds : List CommandKind) : CommandHandler where
  kinds := kinds
  handle c := .call (.outside name (.carryOut c)) .done

namespace World

/-- Lets an activity happen. -/
def perform (a : Activity) (w : World) : Outcome × World :=
  a.run surroundings w

/-- Lets an attempt happen. -/
def attempt {α : Type} (m : Attempt α) (w : World) : Except Failure α × World :=
  Calls.run surroundings m.run w

/-! ## Side by side -/

/-- Answers the next request of a process. -/
def advance {α : Type} (p : Calls α) (w : World) : Calls α × World :=
  match p with
  | .done a => (.done a, w)
  | .call r k => (k (w.answer r).1, (w.answer r).2)

/-- Answers one request of every process, in their order. -/
def advanceAll {α : Type} : List (Calls α) → World → List (Calls α) × World
  | [], w => ([], w)
  | p :: ps, w =>
    let (p, w) := advance p w
    let (ps, w) := advanceAll ps w
    (p :: ps, w)

/-- Runs processes to their end, one after the other. -/
def finishAll {α : Type} : List (Calls α) → World → List α × World
  | [], w => ([], w)
  | p :: ps, w =>
    let (a, w) := p.run surroundings w
    let (as, w) := finishAll ps w
    (a :: as, w)

/-- Several batches are stored side by side, and at every request the others come first: all look
up the version they have to follow before any of them saves. Storing takes these two requests, so
after two rounds all are done. -/
def race (batches : List (List Event)) (w : World) :
    List (Except Failure Repository.Applied) × World :=
  let (ps, w) := advanceAll (batches.map fun es => (Repository.apply es).run) w
  let (ps, w) := advanceAll ps w
  finishAll ps w

end World

end Loyalty.Simulation
