import Loyalty.Proofs.EventStore
import Loyalty.Proofs.Process.Interleaving
import Loyalty.Simulation.Run

/-!
# What the log tells of the store

In the simulated world any operation of the store may be made to fail at any time, and then it does
nothing. So the store is known from the log alone: it holds what was saved with success. And what
the log says of the store is true of the moment at which it was said: what was loaded was the
history of that moment, and what was saved could be saved.

Main statement: in every pool that began with an empty store the store holds what was saved, the log
is truthful, and all histories are gapless.
-/

namespace Loyalty

open History

namespace Exchange

/-- The events that were saved. -/
def saved : Exchange → List Event
  | ⟨.save es, .ok ()⟩ => es
  | _ => []

theorem saved_eq (x : Exchange) : x.saved = [] ∨ ∃ es, x = ⟨.save es, .ok ()⟩ := by
  obtain ⟨r, a⟩ := x
  cases r with
  | save es =>
    cases a with
    | error f => exact .inl rfl
    | ok u => exact .inr ⟨es, rfl⟩
  | load | loadAfter | write | user | userByReferralCode | now | stopwatch | freshCode | freshId
    | isSynced | markSynced | outside => exact .inl rfl

/-- What is said of the event store is true of a store: events were loaded, or could be saved. -/
def IsTrueOf (s : EventStore) : Exchange → Prop
  | ⟨.save es, .ok ()⟩ => ∃ s', s.save es = .ok s'
  | ⟨.load id, .ok es⟩ => s.load id = .ok es
  | ⟨.loadAfter id version, .ok es⟩ => s.loadAfter id version = .ok es
  | _ => True

end Exchange

namespace Log

/-- All events that were saved. -/
def saved (log : Log) : List Event :=
  log.flatMap fun x => x.2.saved

theorem saved_append (log log' : Log) : saved (log ++ log') = log.saved ++ saved log' :=
  List.flatMap_append

@[simp] theorem saved_singleton (π : Place) (x : Exchange) : saved [(π, x)] = x.saved := by
  simp [saved]

/-- What the log says of the store was true when it was said. -/
def Truthful : Log → Prop :=
  Each fun before _ x => x.IsTrueOf (.holding before.saved)

end Log

/-! ## The world -/

namespace Simulation.World

open Exchange

theorem fault_store (op : Operation) (w : World) : (w.fault op).2.store = w.store := by
  rw [fault]
  split <;> rfl

theorem gated_eq {α : Type} (op : Operation) (perform : World → Except Failure α × World)
    (w : World) :
    gated op perform w =
      match (w.fault op).1 with
      | some f => (.error f, (w.fault op).2)
      | none => perform (w.fault op).2 := by
  rw [gated]
  split
  · next h => rw [h]
  · next h => rw [h]

/-- What the world says of the store is true, and the store changes only by what is saved. -/
structure Tells (s : EventStore) (x : Exchange) (s' : EventStore) : Prop where
  /-- it is true -/
  isTrue : x.IsTrueOf s
  /-- what was saved is there -/
  store_eq : s' = s.adding (x.saved.map Event.toRecord)

/-- Nothing is said of the store, and nothing changes in it. -/
theorem Tells.of_silent {s s' : EventStore} {x : Exchange} (hx : x.IsTrueOf s)
    (hsaved : x.saved = []) (hs : s' = s) : Tells s x s' where
  isTrue := hx
  store_eq := by rw [hs, hsaved, List.map_nil, EventStore.adding_nil]

theorem tells_save (es : List Event) (w : World) :
    Tells w.store ⟨.save es, (w.save es).1⟩ (w.save es).2.store := by
  rw [save, gated_eq]
  have hstore : ((w.note (.saving es)).fault .save).2.store = w.store := fault_store _ _
  cases ((w.note (.saving es)).fault .save).1 with
  | some f => exact .of_silent True.intro rfl hstore
  | none =>
    simp only
    rw [saveInStore_eq, hstore]
    -- From here on it is the store that decides, and no fault.
    cases hs : w.store.save es with
    | error f => exact .of_silent True.intro rfl hstore
    | ok s' =>
      refine ⟨⟨s', hs⟩, ?_⟩
      cases es with
      | nil => exact absurd hs (EventStore.save_nil _ s')
      | cons e es =>
        obtain ⟨-, -, rfl⟩ := EventStore.save_eq_ok_iff.1 hs
        rfl

/-- What is read from the store. `ask` is the request with its answer. -/
theorem tells_reading {α : Type} {op : Operation} (ask : Except Failure α → Exchange)
    (read : EventStore → Except Failure α) (hsaved : ∀ x, (ask x).saved = [])
    (herror : ∀ s f, (ask (.error f)).IsTrueOf s) (hread : ∀ s, (ask (read s)).IsTrueOf s)
    (w : World) :
    Tells w.store (ask (gated op (fun w => (read w.store, w)) w).1)
      (gated op (fun w => (read w.store, w)) w).2.store := by
  rw [gated_eq]
  have hstore : (w.fault op).2.store = w.store := fault_store op w
  cases (w.fault op).1 with
  | some f => exact .of_silent (herror _ f) (hsaved _) hstore
  | none =>
    refine .of_silent ?_ (hsaved _) hstore
    rw [← hstore]
    exact hread _

theorem tells_load (id : String) (w : World) :
    Tells w.store ⟨.load id, (w.load id).1⟩ (w.load id).2.store := by
  refine tells_reading (fun x => ⟨.load id, x⟩) (fun s => s.load id) (fun _ => rfl)
    (fun _ _ => True.intro) (fun s => ?_) w
  cases h : s.load id with
  | error f => exact True.intro
  | ok es => exact h

theorem tells_loadAfter (id : String) (version : Nat) (w : World) :
    Tells w.store ⟨.loadAfter id version, (w.loadAfter id version).1⟩
      (w.loadAfter id version).2.store := by
  refine tells_reading (fun x => ⟨.loadAfter id version, x⟩) (fun s => s.loadAfter id version)
    (fun _ => rfl) (fun _ _ => True.intro) (fun s => ?_) w
  cases h : s.loadAfter id version with
  | error f => exact True.intro
  | ok es => exact h

/-- An operation of the read model does not touch the event store. -/
theorem gated_store {α : Type} {op : Operation} {perform : World → Except Failure α × World}
    (h : ∀ w, (perform w).2.store = w.store) (w : World) :
    (gated op perform w).2.store = w.store := by
  rw [gated_eq]
  cases (w.fault op).1 with
  | some f => exact fault_store op w
  | none => exact (h _).trans (fault_store op w)

theorem write_store (wr : Write) (w : World) : (w.write wr).2.store = w.store := by
  refine gated_store (fun w => ?_) w
  simp only [readClock]
  split <;> rfl

theorem entrust_store (handler : String) (errand : Errand) (w : World) :
    (w.entrust handler errand).2.store = w.store := by
  rw [entrust]
  simp only
  split <;> rfl

/-- Whatever the world is asked. -/
theorem tells_answer (w : World) (r : Request) :
    Tells w.store ⟨r, (w.answer r).1⟩ (w.answer r).2.store := by
  cases r with
  | save es => exact tells_save es w
  | load id => exact tells_load id w
  | loadAfter id version => exact tells_loadAfter id version w
  | write wr => exact .of_silent True.intro rfl (write_store wr w)
  | user id => exact .of_silent True.intro rfl (gated_store (fun _ => rfl) w)
  | userByReferralCode code => exact .of_silent True.intro rfl (gated_store (fun _ => rfl) w)
  | now => exact .of_silent True.intro rfl rfl
  | stopwatch => exact .of_silent True.intro rfl rfl
  | freshCode => exact .of_silent True.intro rfl rfl
  | freshId => exact .of_silent True.intro rfl rfl
  | isSynced subscription id => exact .of_silent True.intro rfl rfl
  | markSynced subscription id => exact .of_silent True.intro rfl rfl
  | outside handler errand => exact .of_silent True.intro rfl (entrust_store handler errand w)

end Simulation.World

/-! ## Pools -/

open Simulation

/-- The gapless histories of a truthful log. -/
theorem Log.Truthful.gapless {log : Log} (h : log.Truthful) (id : String) :
    Gapless (ofUser id log.saved) := by
  induction h generalizing id with
  | nil => exact gapless_nil
  | @more log _ π x hx ih =>
    rw [Log.saved_append, Log.saved_singleton]
    rcases x.saved_eq with hnone | ⟨es, rfl⟩
    · rw [hnone, List.append_nil]
      exact ih id
    · obtain ⟨s', hs⟩ := hx
      exact (EventStore.gapless_of_save ih hs).2 id

/-- A history that was loaded is the history of the moment at which it was loaded. -/
theorem Log.Truthful.loaded {log : Log} (ht : log.Truthful) {π : Place} {id : String}
    {es : List Event} (h : (π, ⟨.load id, .ok es⟩) ∈ log) :
    ∃ later, ofUser id log.saved = es ++ later := by
  obtain ⟨before, after, rfl⟩ := List.append_of_mem h
  have hbefore : Truthful before := ht.of_append rfl
  have hload : (EventStore.holding (saved before)).load id = .ok es := ht.holds
  rw [EventStore.load_holding (hbefore.gapless id)] at hload
  refine ⟨ofUser id (saved ((π, ⟨.load id, .ok es⟩) :: after)), ?_⟩
  rw [Log.saved_append, ofUser_append, Except.ok.inj hload]

/-- Events beyond a version that were loaded are those of the moment at which they were loaded. -/
theorem Log.Truthful.loadedAfter {log : Log} (ht : log.Truthful) {π : Place} {id : String}
    {version : Nat} {es : List Event} (h : (π, ⟨.loadAfter id version, .ok es⟩) ∈ log) :
    ∃ earlier later, ofUser id log.saved = earlier ++ later ∧ es = earlier.drop version := by
  obtain ⟨before, after, rfl⟩ := List.append_of_mem h
  have hbefore : Truthful before := ht.of_append rfl
  have hload : (EventStore.holding (saved before)).loadAfter id version = .ok es := ht.holds
  rw [EventStore.loadAfter_holding (hbefore.gapless id)] at hload
  refine ⟨ofUser id (saved before), ofUser id (saved ((π, ⟨.loadAfter id version, .ok es⟩) :: after)),
    ?_, (Except.ok.inj hload).symm⟩
  rw [Log.saved_append, ofUser_append]

namespace Pool

/-- The log of a pool tells all about the event store, and nothing but the truth. -/
structure Faithful (P : Pool World) : Prop where
  /-- the store holds what was saved -/
  store_eq : P.state.store = .holding P.log.saved
  /-- what was said of the store was true -/
  truthful : P.log.Truthful

theorem faithful_empty {w : World} (hw : w.store = .empty) : (empty w).Faithful where
  store_eq := hw
  truthful := .nil

theorem Faithful.moved {P Q : Pool World} (hP : P.Faithful) (h : Moved World.surroundings P Q) :
    Q.Faithful := by
  cases h with
  | silent hstate hlog => exact ⟨by rw [hstate, hlog, hP.store_eq], hlog ▸ hP.truthful⟩
  | passed nanos hstate hlog =>
    refine ⟨?_, hlog ▸ hP.truthful⟩
    rw [hstate, hlog]
    exact hP.store_eq
  | answered π r hstate hlog =>
    -- The state just before the answer is the one that the log tells of.
    have htells := World.tells_answer P.state r
    rw [hP.store_eq] at htells
    refine ⟨?_, hlog ▸ .more hP.truthful htells.isTrue⟩
    rw [hstate, hlog, Log.saved_append, Log.saved_singleton, EventStore.holding_append]
    exact htells.store_eq

theorem Faithful.step {ι : Type} (launch : ι → Activity) {P : Pool World} (hP : P.Faithful)
    (move : Move ι) : (P.step World.surroundings launch move).Faithful :=
  hP.moved (moved_step _ launch P move)

/-- Whatever moves are made, the store holds what the log says was saved. -/
theorem Faithful.run {ι : Type} (launch : ι → Activity) {P : Pool World} (hP : P.Faithful)
    (moves : List (Move ι)) : (P.run World.surroundings launch moves).Faithful := by
  induction moves generalizing P with
  | nil => exact hP
  | cons move moves ih => exact ih (hP.step launch move)

end Pool

end Loyalty
