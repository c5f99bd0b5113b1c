import Loyalty.Command
import Loyalty.Event.Change
import Loyalty.Text.Quoted

/-!
# What can go wrong

A `Rejection` is the answer of a business rule that refuses a command. A `Failure` is anything
that can go wrong between a command coming in and its events being delivered.

Two failures are *wrappers*: they add the context of a dispatch or of a delivery around another
failure. What a failure means for a caller is decided by its `root`, the failure under all the
wrappers: whether something was not there, whether the same request may succeed later, whether the
request itself is wrong.
-/

namespace Loyalty

/-- Why a business rule refuses a command. -/
inductive Rejection where
  /-- a required field is blank, or a number is not in its range -/
  | invalid (message : String)
  /-- the user has left -/
  | alreadyDeleted (userId : String)
  /-- the user has no code to refer others with -/
  | noReferralCode (userId : String)
  /-- the code used at sign-up is not that of the user -/
  | codeMismatch (expected : Option String) (actual : String)
  /-- the event that would follow has an invalid content -/
  | payload (fault : PayloadFault)
  deriving DecidableEq, Repr

namespace Rejection

/-- The rejection in words. -/
def message : Rejection → String
  | invalid text => text
  | alreadyDeleted id => "user " ++ id ++ " is already deleted"
  | noReferralCode id => "user " ++ id ++ " does not have a referral code"
  | codeMismatch expected actual =>
    "referred-by code " ++ actual ++ " does not match referral code " ++
      Text.quotedOption expected
  | payload fault => "invalid event payload: " ++ fault.message

end Rejection

/-- Something that went wrong. -/
inductive Failure where
  /-- a required field of a request is missing or blank -/
  | validation (text : String)
  /-- a business rule refused a command -/
  | rejected (rejection : Rejection)
  /-- events do not continue the history of an aggregate -/
  | conflict (aggregateId : String) (expected actual : Nat)
  /-- nothing is known of this name -/
  | notFound (name : String)
  /-- the identity of an aggregate is blank -/
  | blankId
  /-- nobody handles this kind of command -/
  | noCommandHandler (kind : CommandKind)
  /-- nobody handles this kind of event -/
  | noEventHandlers (type : EventType)
  /-- no kind of event has this name -/
  | unknownEventType (name : String)
  /-- the content of an event is missing, malformed or impossible -/
  | invalidPayload (aggregateId : String) (type : EventType) (reason : String)
  /-- the read model was given an event that does not follow its version -/
  | outOfOrder (aggregateId : String) (current received : Nat)
  /-- no action that earns points has this name -/
  | unknownPointsAction (name : String)
  /-- a setting cannot be read -/
  | configuration (text : String)
  /-- the event store failed -/
  | store (text : String)
  /-- the read model failed -/
  | readModel (text : String)
  /-- an event handler failed in its own way -/
  | handler (name : String) (reason : String)
  /-- the handler of a command failed -/
  | dispatch (kind : CommandKind) (aggregateId : String) (source : Failure)
  /-- a handler could not be made to accept an event -/
  | publish (handler : String) (type : EventType) (aggregateId : String) (source : Failure)
  deriving DecidableEq, Repr

namespace Failure

/-- The failure in words. -/
def message : Failure → String
  | validation text => "Validation error: " ++ text
  | rejected r => "Command rejected: " ++ r.message
  | conflict id expected actual =>
    "Concurrency conflict on aggregate " ++ id ++ ": expected version " ++ toString expected ++
      ", got " ++ toString actual
  | notFound name => "Aggregate not found: " ++ name
  | blankId => "Aggregate id must not be blank"
  | noCommandHandler kind => "No command handler registered for " ++ kind.name
  | noEventHandlers type => "No event handlers registered for " ++ type.name
  | unknownEventType name => "Unknown event type: " ++ name
  | invalidPayload id type reason =>
    "Invalid payload for " ++ type.name ++ " on aggregate " ++ id ++ ": " ++ reason
  | outOfOrder id current received =>
    "Event out of order for aggregate " ++ id ++ ": read model at version " ++ toString current ++
      ", got " ++ toString received
  | unknownPointsAction name => "Points action not supported: " ++ name
  | configuration text => "Configuration error: " ++ text
  | store text => "Event store error: " ++ text
  | readModel text => "Read model error: " ++ text
  | handler name reason => "Handler " ++ name ++ " failed: " ++ reason
  | dispatch kind id source =>
    "Dispatching " ++ kind.name ++ " for aggregate " ++ id ++ " failed: " ++ source.message
  | publish name type id source =>
    "Publishing " ++ type.name ++ " for aggregate " ++ id ++ " to " ++ name ++ " failed: " ++
      source.message

/-! ## Under the wrappers -/

/-- The failure directly under a wrapper. -/
def source? : Failure → Option Failure
  | dispatch _ _ source => some source
  | publish _ _ _ source => some source
  | _ => none

/-- The failure under all wrappers. -/
def root : Failure → Failure
  | dispatch _ _ source => source.root
  | publish _ _ _ source => source.root
  | f => f

/-- The number of wrappers. -/
def wrappers : Failure → Nat
  | dispatch _ _ source => source.wrappers + 1
  | publish _ _ _ source => source.wrappers + 1
  | _ => 0

/-! ## What a failure means -/

/-- An aggregate, or what the read model knows of it, is not there. -/
def isNotFound (f : Failure) : Bool :=
  match f.root with
  | notFound _ => true
  | _ => false

/-- The same request may succeed at a later attempt. -/
def isRetryable (f : Failure) : Bool :=
  match f.root with
  | conflict .. | notFound _ | outOfOrder .. | store _ | readModel _ | handler .. => true
  | _ => false

/-- The request itself is wrong, and another attempt cannot help. -/
def isValidation (f : Failure) : Bool :=
  match f.root with
  | validation _ | rejected _ | blankId | invalidPayload .. | unknownEventType _
  | unknownPointsAction _ | configuration _ => true
  | _ => false

/-! ## From the failures of the parts -/

/-- A rejection as a failure. A field that is not valid counts as a wrong request rather than as
the decision of a rule. -/
def ofRejection : Rejection → Failure
  | .invalid text => validation text
  | r => rejected r

/-- A JSON text that cannot be read, as a failure of the store that holds it. -/
def unreadable (detail : String) : Failure :=
  store ("serialization failed: " ++ detail)

end Failure

/-! ## Reading names -/

/-- The kind of event with the given name. -/
def EventType.parse (name : String) : Except Failure EventType :=
  match EventType.ofName? name with
  | some t => .ok t
  | none => .error (.unknownEventType name)

/-- The action with the given name. -/
def PointsAction.parse (name : String) : Except Failure PointsAction :=
  match PointsAction.ofName? name with
  | some a => .ok a
  | none => .error (.unknownPointsAction name)

/-- The state of a referral with the given name. -/
def ReferralStatus.parse (name : String) : Except PayloadFault ReferralStatus :=
  match ReferralStatus.ofName? name with
  | some s => .ok s
  | none => .error (.invalidStatus name)

end Loyalty
