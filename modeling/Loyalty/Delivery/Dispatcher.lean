import Loyalty.Delivery.Handler

/-!
# The command dispatcher

A command goes to the handler that was registered last for its kind, and only to that one.

Registrations can also be kept in a table: a handler that is registered is entered for each kind that
it names, in the place of whoever was entered there before.
-/

namespace Loyalty

/-- The registered command handlers, in the order of registration. -/
structure Dispatcher where
  /-- the handlers -/
  handlers : List CommandHandler

namespace Dispatcher

/-- Who carries out commands of a kind. -/
def handlerFor (d : Dispatcher) (k : CommandKind) : Option CommandHandler :=
  d.handlers.reverse.find? fun h => h.kinds.contains k

/-- Has a command carried out. -/
def dispatch (d : Dispatcher) (c : Command) : Activity :=
  if Text.isBlank c.aggregateId then .fail .blankId
  else
    match d.handlerFor c.kind with
    | none => .fail (.noCommandHandler c.kind)
    | some h => (h.handle c).mapFailure (.dispatch c.kind c.aggregateId)

end Dispatcher

/-- Who carries out commands, by their kinds. -/
structure HandlerTable where
  /-- who is entered for a kind, if anybody is -/
  handlerFor : CommandKind → Option CommandHandler

namespace HandlerTable

/-- Nobody is entered. -/
def empty : HandlerTable := ⟨fun _ => none⟩

/-- Enters a handler for a kind. -/
def enter (t : HandlerTable) (k : CommandKind) (h : CommandHandler) : HandlerTable :=
  ⟨fun k' => if k' = k then some h else t.handlerFor k'⟩

/-- Enters a handler for each kind that it names. -/
def register (t : HandlerTable) (h : CommandHandler) : HandlerTable :=
  h.kinds.foldl (fun t k => t.enter k h) t

/-- The table after handlers were registered one after the other. -/
def ofRegistrations (hs : List CommandHandler) : HandlerTable :=
  hs.foldl register empty

end HandlerTable

end Loyalty
