import Loyalty.Proofs.Process.Company
import Loyalty.Proofs.Process.Family
import Loyalty.Simulation.Run

/-!
# Handlers that keep to themselves

A handler keeps to itself if it only pauses, and has done what it asks for by a handler outside the
program that has its name. `World.Alike` says that two worlds look alike to the handlers of a name:
the handler outside the program was called in the same way in both and is going to answer in the same
way, and their subscriptions remember the same.

Main statements: what such a handler asks for while an event is delivered to it does the same in
worlds that look alike to it; and what others ask for makes no difference to it.
-/

namespace Loyalty

open Simulation

/-- A request to the handler outside the program that has this name. -/
def Request.IsTo (name : String) : Request → Prop
  | .outside handler _ => handler = name
  | _ => False

/-- A handler that keeps to itself. -/
structure EventHandler.Secluded (h : EventHandler) : Prop where
  /-- when it is told of an event -/
  handle : ∀ e, (h.handle e).Solo (Request.IsTo h.name)
  /-- when it catches up -/
  sync : ∀ id, (h.sync id).Solo (Request.IsTo h.name)

/-- Handlers whose answers are in a script keep to themselves. -/
theorem secluded_scriptedHandler (name : String) (types : List EventType) (delay : Nat)
    (indifferent : Bool) : (scriptedHandler name types delay indifferent).Secluded where
  handle _ := ⟨rfl, fun _ => True.intro⟩
  sync id := by
    cases indifferent with
    | true => exact True.intro
    | false => exact ⟨rfl, fun _ => True.intro⟩

/-! ## Deliveries -/

/-- What is asked for while an event is delivered through a subscription. -/
def Subscription.Uses (s : Subscription) : Request → Prop
  | .stopwatch => True
  | .isSynced number _ => number = s.number
  | .markSynced number _ => number = s.number
  | .outside handler _ => handler = s.handler.name
  | _ => False

namespace Activity.Solo

variable {allowed : Request → Prop}

theorem andThen {a b : Activity} (ha : a.Solo allowed) (hb : b.Solo allowed) :
    (a.andThen b).Solo allowed := by
  refine ha.bind fun o => ?_
  cases o with
  | ok u => exact hb
  | error f => exact True.intro

theorem mapFailure {a : Activity} (ha : a.Solo allowed) (describe : Failure → Failure) :
    (a.mapFailure describe).Solo allowed := by
  refine ha.bind fun o => ?_
  cases o with
  | ok u => exact True.intro
  | error f => exact True.intro

/-- A delivery to a handler that keeps to itself. -/
theorem deliver (b : Bus) (e : Event) {s : Subscription} (hs : s.handler.Secluded) :
    (b.deliver e s).Solo s.Uses := by
  have hhandler : ∀ r, Request.IsTo s.handler.name r → s.Uses r := by
    intro r hr
    cases r with
    | outside handler errand => exact hr
    | _ => exact hr.elim
  have hhandle : (s.handler.handle e).Solo s.Uses := (hs.handle e).mono hhandler
  have hattempt : (s.attempt e).Solo s.Uses := by
    refine ⟨rfl, fun synced => ?_⟩
    cases synced with
    | true => exact hhandle
    | false => exact ((hs.sync e.aggregateId).mono hhandler).andThen ⟨rfl, fun _ => hhandle⟩
  exact (b.policy.retrying_of_closed (fun _ => True.intro) (fun hk => ⟨True.intro, hk⟩)
    (fun _ _ ha => ha) (fun ha hg => ha.bind hg) hattempt).mapFailure _

end Activity.Solo

/-! ## What a handler can tell apart -/

namespace Simulation

/-- With what, when and with what success a handler outside the program was called, if this is what
happened. -/
def Entry.callTo? (name : String) : Entry → Option (Errand × Nat × Bool)
  | .called handler errand time ok => if handler = name then some (errand, time, ok) else none
  | _ => none

namespace World

/-- The calls to a handler outside the program, in order. -/
def callsTo (name : String) (w : World) : List (Errand × Nat × Bool) :=
  w.history.filterMap (Entry.callTo? name)

theorem callsTo_note (name : String) (w : World) (x : Entry) :
    (w.note x).callsTo name = w.callsTo name ++ (x.callTo? name).toList := by
  rw [callsTo, callsTo, history, history, note, List.reverse_cons, List.filterMap_append]
  refine congrArg _ ?_
  rw [List.filterMap_cons, List.filterMap_nil]
  cases x.callTo? name <;> rfl

/-- Two worlds look alike to the handlers of a name, which have these subscriptions. -/
structure Alike (name : String) (ss : List Subscription) (u v : World) : Prop where
  /-- the handler outside the program was called in the same way -/
  callsTo_eq : u.callsTo name = v.callsTo name
  /-- it is going to answer in the same way -/
  scripts_eq : u.scripts name = v.scripts name
  /-- the subscriptions remember the same -/
  synced_iff : ∀ s ∈ ss, ∀ id, (s.number, id) ∈ u.synced ↔ (s.number, id) ∈ v.synced

/-- Two worlds look alike, and it is the same time in them. -/
structure AlikeNow (name : String) (ss : List Subscription) (u v : World) : Prop
    extends Alike name ss u v where
  /-- the time -/
  time_eq : u.time = v.time
  /-- whether the stopwatch shows it -/
  stopwatchRuns_eq : u.stopwatchRuns = v.stopwatchRuns

variable {name : String} {ss : List Subscription} {u v w : World}

theorem Alike.symm (h : Alike name ss u v) : Alike name ss v u :=
  ⟨h.callsTo_eq.symm, h.scripts_eq.symm, fun s hs id => (h.synced_iff s hs id).symm⟩

theorem Alike.trans (h : Alike name ss u v) (h' : Alike name ss v w) : Alike name ss u w :=
  ⟨h.callsTo_eq.trans h'.callsTo_eq, h.scripts_eq.trans h'.scripts_eq,
    fun s hs id => (h.synced_iff s hs id).trans (h'.synced_iff s hs id)⟩

/-- That time goes by makes no difference. -/
theorem alike_pass (name : String) (ss : List Subscription) (n : Nat) (w : World) :
    Alike name ss (w.pass n) w :=
  ⟨rfl, rfl, fun _ _ _ => Iff.rfl⟩

theorem AlikeNow.refl (name : String) (ss : List Subscription) (w : World) :
    AlikeNow name ss w w :=
  ⟨⟨rfl, rfl, fun _ _ _ => Iff.rfl⟩, rfl, rfl⟩

theorem AlikeNow.pass (n : Nat) (h : AlikeNow name ss u v) :
    AlikeNow name ss (u.pass n) (v.pass n) :=
  ⟨⟨h.callsTo_eq, h.scripts_eq, h.synced_iff⟩, congrArg (· + n) h.time_eq, h.stopwatchRuns_eq⟩

/-! ### Requests -/

section Entrust

variable (handler : String) (errand : Errand) (w : World)

theorem entrust_fst : (w.entrust handler errand).1 =
    match ((w.scripts handler).next errand).1 with
    | none => .ok ()
    | some f => .error f := by
  rw [entrust]
  obtain ⟨answer, script⟩ := (w.scripts handler).next errand
  cases answer <;> rfl

theorem entrust_snd : (w.entrust handler errand).2 =
    note { w with
      scripts := fun name => if name = handler then ((w.scripts handler).next errand).2
        else w.scripts name }
      (.called handler errand w.time ((w.scripts handler).next errand).1.isNone) := by
  rw [entrust]
  obtain ⟨answer, script⟩ := (w.scripts handler).next errand
  cases answer <;> rfl

end Entrust

/-- What a handler of the name asks for does the same in worlds that look alike to it. -/
theorem AlikeNow.answer_own (h : AlikeNow name ss u v) {s : Subscription} (hs : s ∈ ss)
    (hname : s.handler.name = name) {r : Request} (hr : s.Uses r) :
    (u.answer r).1 = (v.answer r).1 ∧ AlikeNow name ss (u.answer r).2 (v.answer r).2 := by
  cases r with
  | stopwatch =>
    refine ⟨?_, h⟩
    show (if u.stopwatchRuns then u.time else 0) = if v.stopwatchRuns then v.time else 0
    rw [h.stopwatchRuns_eq, h.time_eq]
  | isSynced number id =>
    obtain rfl : number = s.number := hr
    refine ⟨?_, h⟩
    have hiff := h.synced_iff s hs id
    rw [← List.contains_iff_mem, ← List.contains_iff_mem] at hiff
    exact Bool.eq_iff_iff.2 hiff
  | markSynced number id =>
    refine ⟨rfl, ⟨h.callsTo_eq, h.scripts_eq, fun s hs id' => ?_⟩, h.time_eq, h.stopwatchRuns_eq⟩
    exact List.mem_cons.trans ((or_congr_right (h.synced_iff s hs id')).trans List.mem_cons.symm)
  | outside handler errand =>
    obtain rfl : handler = name := Eq.trans hr hname
    refine ⟨?_, ⟨?_, ?_, ?_⟩, ?_, ?_⟩
    · rw [answer, answer, entrust_fst, entrust_fst, h.scripts_eq]
    · rw [answer, answer, entrust_snd, entrust_snd, callsTo_note, callsTo_note, h.scripts_eq,
        h.time_eq]
      exact congrArg (· ++ _) h.callsTo_eq
    · rw [answer, answer, entrust_snd, entrust_snd, h.scripts_eq]
      simp [note]
    · rw [answer, answer, entrust_snd, entrust_snd]
      exact h.synced_iff
    · rw [answer, answer, entrust_snd, entrust_snd]
      exact h.time_eq
    · rw [answer, answer, entrust_snd, entrust_snd]
      exact h.stopwatchRuns_eq
  | _ => exact hr.elim

/-- What another handler asks for makes no difference to it. -/
theorem AlikeNow.answer_other (h : AlikeNow name ss u v) {s : Subscription}
    (hnumber : ∀ s' ∈ ss, s'.number ≠ s.number) (hname : s.handler.name ≠ name) {r : Request}
    (hr : s.Uses r) : AlikeNow name ss (u.answer r).2 v := by
  cases r with
  | stopwatch | isSynced number id => exact h
  | markSynced number id =>
    obtain rfl : number = s.number := hr
    refine ⟨⟨h.callsTo_eq, h.scripts_eq, fun s' hs' id' => ?_⟩, h.time_eq, h.stopwatchRuns_eq⟩
    have hne : (s'.number, id') ≠ (s.number, id) :=
      fun heq => hnumber s' hs' (Prod.mk.inj heq).1
    exact (List.mem_cons.trans (or_iff_right hne)).trans (h.synced_iff s' hs' id')
  | outside handler errand =>
    obtain rfl : handler = s.handler.name := hr
    refine ⟨⟨?_, ?_, ?_⟩, ?_, ?_⟩
    · rw [answer, entrust_snd, callsTo_note, Entry.callTo?, if_neg hname]
      exact (List.append_nil _).trans h.callsTo_eq
    · rw [answer, entrust_snd]
      exact (if_neg (Ne.symm hname)).trans h.scripts_eq
    · rw [answer, entrust_snd]
      exact h.synced_iff
    · rw [answer, entrust_snd]
      exact h.time_eq
    · rw [answer, entrust_snd]
      exact h.stopwatchRuns_eq
  | _ => exact hr.elim

end World

end Simulation

end Loyalty
