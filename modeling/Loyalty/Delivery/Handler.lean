import Loyalty.Process.Activity

/-!
# Handlers

Those who are told of events, and those who carry out commands. A handler says beforehand what
kinds it takes; a kind may be named more than once.
-/

namespace Loyalty

/-- Someone who is told of events. -/
structure EventHandler where
  /-- the name, used in failures -/
  name : String
  /-- the kinds of events of which it wants to be told -/
  types : List EventType
  /-- reacts to an event -/
  handle : Event → Activity
  /-- catches up on an aggregate, before the first event of it comes -/
  sync : String → Activity

/-- Someone who carries out commands. -/
structure CommandHandler where
  /-- the kinds of commands that it carries out -/
  kinds : List CommandKind
  /-- carries out a command -/
  handle : Command → Activity

end Loyalty
