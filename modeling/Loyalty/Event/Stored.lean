import Loyalty.Failure

/-!
# Events, and the records that a store keeps of them

An `Event` is a fact in the history of one aggregate: what it says is kept as JSON text. Within a
history the versions count from 1 without gaps, and their order is the order of the facts.

A store keeps an event as an `EventRecord`, in which the kind is a name like any other text. Going
from records back to events is where a name that stands for no kind is found out.

Versions are natural numbers here. A version that is read from JSON fits in 64 bits.
-/

namespace Loyalty

open Time Text

/-- A fact about one aggregate. -/
structure Event where
  /-- whom the fact is about -/
  aggregateId : String
  /-- what kind of fact it is -/
  type : EventType
  /-- the place of the fact in the history, from 1 -/
  version : Nat
  /-- when it came about -/
  eventAt : Timestamp
  /-- what it says, as JSON text -/
  payload : Option String
  deriving DecidableEq

/-- An event as a store keeps it. -/
structure EventRecord where
  /-- whom the event is about -/
  aggregateId : String
  /-- the name of its kind -/
  eventType : String
  /-- its place in the history -/
  version : Nat
  /-- when it came about -/
  eventAt : Timestamp
  /-- what it says, as JSON text -/
  payload : Option String
  deriving DecidableEq

namespace Event

/-- The event that says `change`. -/
def ofChange (aggregateId : String) (version : Nat) (change : Change) (eventAt : Timestamp) :
    Event where
  aggregateId := aggregateId
  type := change.type
  version := version
  eventAt := eventAt
  payload := some change.encode

/-- What an event says. -/
def decode (e : Event) : Except Failure Change :=
  match Change.decode e.type e.payload with
  | .ok change => .ok change
  | .error fault => .error (.invalidPayload e.aggregateId e.type fault.message)

/-- The record of an event. -/
def toRecord (e : Event) : EventRecord where
  aggregateId := e.aggregateId
  eventType := e.type.name
  version := e.version
  eventAt := e.eventAt
  payload := e.payload

/-- The fields of an event, in order. -/
def fieldNames : List String :=
  ["aggregateId", "eventType", "version", "eventAt", "payload"]

/-- The JSON value of an event. -/
def toJson (e : Event) : Json :=
  .record [("aggregateId", .text e.aggregateId), ("eventType", e.type.toJson),
    ("version", .nat e.version), ("eventAt", Rfc3339.toJson e.eventAt),
    ("payload", .option .text e.payload)]

/-- Reads the JSON value of an event. -/
def ofJson? (j : Json) : Option Event := do
  let fs ← Json.fields? fieldNames 0 j
  some {
    aggregateId := ← fs.required "aggregateId" Json.toString?
    type := ← fs.required "eventType" EventType.ofJson?
    version := ← fs.required "version" (Json.toNat? word64)
    eventAt := ← fs.required "eventAt" Rfc3339.ofJson?
    payload := ← fs.optional "payload" Json.toString? }

end Event

namespace EventRecord

/-- The event that a record is of. -/
def toEvent (r : EventRecord) : Except Failure Event := do
  let type ← EventType.parse r.eventType
  .ok ⟨r.aggregateId, type, r.version, r.eventAt, r.payload⟩

/-- The JSON value of a record. -/
def toJson (r : EventRecord) : Json :=
  .record [("aggregateId", .text r.aggregateId), ("eventType", .text r.eventType),
    ("version", .nat r.version), ("eventAt", Rfc3339.toJson r.eventAt),
    ("payload", .option .text r.payload)]

/-- Reads the JSON value of a record. -/
def ofJson? (j : Json) : Option EventRecord := do
  let fs ← Json.fields? Event.fieldNames 0 j
  some {
    aggregateId := ← fs.required "aggregateId" Json.toString?
    eventType := ← fs.required "eventType" Json.toString?
    version := ← fs.required "version" (Json.toNat? word64)
    eventAt := ← fs.required "eventAt" Rfc3339.ofJson?
    payload := ← fs.optional "payload" Json.toString? }

/-- The events of a list of records, or what is wrong with the first record that has none. -/
def toEvents (rs : List EventRecord) : Except Failure (List Event) :=
  rs.mapM toEvent

end EventRecord

/-- The record of an event is a record of that event and no other. -/
@[simp] theorem Event.toEvent_toRecord (e : Event) : e.toRecord.toEvent = .ok e := by
  obtain ⟨id, type, version, eventAt, payload⟩ := e
  have h : EventType.ofName? type.name = some type := EventType.ofName?_eq_some_iff.2 rfl
  simp [EventRecord.toEvent, Event.toRecord, EventType.parse, h]
  rfl

end Loyalty
