import Loyalty.EventStore.InPlace
import Loyalty.Process.Calls
import Loyalty.Simulation.Supply

/-!
# The simulated world

All that surrounds the processes of the program, as one value: the event store and the read model,
what subscriptions remember, time, and the handlers that are not part of the program. Two things
can be laid down in advance. The operations of the store and of the read model can be made to
fail: for each there is a list of faults, one for each call to come. And the answers of the outside
handlers follow a script.

Time goes by only while all processes pause. What happens is noted in a journal.
-/

namespace Loyalty.Simulation

open Time

/-- The operations that can be made to fail. -/
inductive Operation where
  /-- saving events -/
  | save
  /-- loading all events of an aggregate -/
  | load
  /-- loading the later events of an aggregate -/
  | loadAfter
  /-- taking a new user into the read model -/
  | createUser
  /-- noting in the read model that a user left -/
  | deleteUser
  /-- adding a referral to a profile -/
  | createReferral
  /-- changing the status of a referral in a profile -/
  | updateReferralStatus
  /-- adding points to a profile -/
  | earnPoints
  /-- listing the users -/
  | users
  /-- looking up the profile of a user -/
  | user
  /-- looking up the referrals of a user -/
  | referrals
  /-- looking up the user with a code -/
  | userByReferralCode
  deriving DecidableEq, Repr

namespace Operation

/-- The operation that a write amounts to. -/
def ofWrite : Write → Operation
  | .createUser _ => createUser
  | .amend _ (.delete _) _ => deleteUser
  | .amend _ (.addReferral _) _ => createReferral
  | .amend _ (.setReferralStatus ..) _ => updateReferralStatus
  | .amend _ (.addPoints _) _ => earnPoints

end Operation

/-- The answers that an outside handler is going to give: a list for each sort of errand, in which
`none` stands for success, and what comes after the lists. -/
structure Script where
  /-- when it is given events -/
  handle : List (Option Failure) := []
  /-- when it is asked to catch up -/
  sync : List (Option Failure) := []
  /-- when it is given commands -/
  carryOut : List (Option Failure) := []
  /-- how it fails at every event that comes after its list -/
  always : Option Failure := none
  deriving DecidableEq

namespace Script

/-- The first of a list of answers, or `otherwise` when there is none, and the other answers. -/
def take (otherwise : Option Failure) :
    List (Option Failure) → Option Failure × List (Option Failure)
  | [] => (otherwise, [])
  | a :: as => (a, as)

/-- The next answer to an errand, and the script from there on. -/
def next (s : Script) : Errand → Option Failure × Script
  | .handle _ => ((take s.always s.handle).1, { s with handle := (take s.always s.handle).2 })
  | .sync _ => ((take none s.sync).1, { s with sync := (take none s.sync).2 })
  | .carryOut _ => ((take none s.carryOut).1, { s with carryOut := (take none s.carryOut).2 })

end Script

/-- Something that happened. -/
inductive Entry where
  /-- somebody asked the store to save events -/
  | saving (events : List Event)
  /-- the store saved events -/
  | saved (events : List Event)
  /-- an outside handler was given an errand at a time, and either failed or not -/
  | called (handler : String) (errand : Errand) (time : Nat) (ok : Bool)
  deriving DecidableEq

/-- The simulated world. -/
structure World where
  /-- the event store -/
  store : EventStore := .empty
  /-- the read model -/
  readModel : ReadModel := .empty
  /-- which subscriptions have caught up on which aggregates -/
  synced : List (Nat × String) := []
  /-- the time since the beginning, in nanoseconds -/
  time : Nat := 0
  /-- the stopwatch shows this time; otherwise it stands still -/
  stopwatchRuns : Bool := false
  /-- where times, codes and identities come from -/
  supply : Supply := .standard
  /-- how often the clock was read -/
  readings : Nat := 0
  /-- how many codes were made -/
  codes : Nat := 0
  /-- how many identities were made -/
  ids : Nat := 0
  /-- the faults that are still to come -/
  faults : Operation → List (Option Failure) := fun _ => []
  /-- the scripts of the outside handlers, by their names -/
  scripts : String → Script := fun _ => {}
  /-- what happened, latest first -/
  journal : List Entry := []

namespace World

/-- The world in which something more has happened. -/
def note (w : World) (e : Entry) : World :=
  { w with journal := e :: w.journal }

/-- What happened from the beginning, in order. -/
def history (w : World) : List Entry :=
  w.journal.reverse

/-- Reads the clock. -/
def readClock (w : World) : Timestamp × World :=
  (w.supply.time w.readings, { w with readings := w.readings + 1 })

/-! ## Operations that can be made to fail -/

/-- The next fault of an operation, and the world in which it has been used up. -/
def fault (op : Operation) (w : World) : Option Failure × World :=
  match w.faults op with
  | [] => (none, w)
  | f :: fs => (f, { w with faults := fun o => if o = op then fs else w.faults o })

/-- Performs an operation unless it is to fail. An operation that fails does nothing. -/
def gated {α : Type} (op : Operation) (perform : World → Except Failure α × World)
    (w : World) : Except Failure α × World :=
  match w.fault op with
  | (some f, w) => (.error f, w)
  | (none, w) => perform w

/-- Has the store save events. -/
def saveInStore (events : List Event) (w : World) : Outcome × World :=
  match (EventStore.InPlace.save events).run w.store with
  | .error f store => (.error f, { w with store := store })
  | .ok () store => (.ok (), { w with store := store }.note (.saved events))

/-- What the store does not save leaves it alone. -/
theorem saveInStore_eq (events : List Event) (w : World) :
    w.saveInStore events = match w.store.save events with
      | .error f => (.error f, w)
      | .ok store => (.ok (), { w with store := store }.note (.saved events)) := by
  rw [saveInStore, EventStore.InPlace.run_save]
  cases w.store.save events <;> rfl

/-- Saves events. -/
def save (events : List Event) (w : World) : Outcome × World :=
  gated .save (saveInStore events) (w.note (.saving events))

/-- Loads all events of an aggregate. -/
def load (id : String) : World → Except Failure (List Event) × World :=
  gated .load fun w => (w.store.load id, w)

/-- Loads the events of an aggregate beyond a version. -/
def loadAfter (id : String) (version : Nat) : World → Except Failure (List Event) × World :=
  gated .loadAfter fun w => (w.store.loadAfter id version, w)

/-- Writes to the read model. -/
def write (wr : Write) : World → Outcome × World :=
  gated (.ofWrite wr) fun w =>
    let (now, w) := w.readClock
    match w.readModel.write now wr with
    | .error f => (.error f, w)
    | .ok m => (.ok (), { w with readModel := m })

/-- Lists the users. -/
def users : World → Except Failure (List Profile) × World :=
  gated .users fun w => (.ok w.readModel.users, w)

/-- Looks up the profile of a user. -/
def user (id : String) : World → Except Failure Profile × World :=
  gated .user fun w => (w.readModel.user id, w)

/-- Looks up the referrals of a user. -/
def referrals (id : String) : World → Except Failure (List Referral) × World :=
  gated .referrals fun w => (w.readModel.referrals id, w)

/-- Looks up the user with a code. -/
def userByReferralCode (code : String) : World → Except Failure Profile × World :=
  gated .userByReferralCode fun w => (w.readModel.userByReferralCode code, w)

/-! ## Answering -/

/-- Gives an errand to an outside handler. -/
def entrust (handler : String) (errand : Errand) (w : World) : Outcome × World :=
  let (answer, script) := (w.scripts handler).next errand
  let w := { w with scripts := fun name => if name = handler then script else w.scripts name }
  let w := w.note (.called handler errand w.time answer.isNone)
  match answer with
  | none => (.ok (), w)
  | some f => (.error f, w)

/-- The answer to a request. -/
def answer (r : Request) (w : World) : r.Answer × World :=
  match r with
  | .save events => w.save events
  | .load id => w.load id
  | .loadAfter id version => w.loadAfter id version
  | .write wr => w.write wr
  | .user id => w.user id
  | .userByReferralCode code => w.userByReferralCode code
  | .now => w.readClock
  | .stopwatch => (if w.stopwatchRuns then w.time else 0, w)
  | .freshCode => (w.supply.code w.codes, { w with codes := w.codes + 1 })
  | .freshId => (w.supply.id w.ids, { w with ids := w.ids + 1 })
  | .isSynced subscription id => (w.synced.contains (subscription, id), w)
  | .markSynced subscription id => ((), { w with synced := (subscription, id) :: w.synced })
  | .outside handler errand => w.entrust handler errand

/-- Time goes by. -/
def pass (nanos : Nat) (w : World) : World :=
  { w with time := w.time + nanos }

/-- The world as the surroundings of processes. -/
def surroundings : Surroundings World := ⟨answer, pass⟩

end World

end Loyalty.Simulation
