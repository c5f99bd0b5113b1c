import Loyalty.Proofs.Delivery.Attempts
import Loyalty.Proofs.Simulation.Passage

/-!
# Catching up once

Before a subscription is told of the first event of an aggregate, its handler catches up on the
aggregate. That it has done so is remembered for the registration and the aggregate, outlives the
delivery, and is asked before each attempt.

Handlers may be registered while others publish, handlers may publish themselves, and everybody may
go on at any time: a pool of publications takes any moves. A publication is delivered to those who
are registered when the turn of the event has come, so there is a bus for each of its events. A
`Registry` says who may be called through which registration. Handlers cannot get at the memory of a
bus, so that in all they do it is asked and told by attempts only.

An attempt begins with the question whether the handler has caught up. If it has not, it begins to do
so with the answer, and when it has succeeded this is noted: between the answer and the beginning, and
between success and note, the attempt waits for nothing at which others could go on. So the questions
and the notes in the log tell when a handler began to catch up, and when it had done so.

What a handler does is its own affair, and it may do nothing that shows. But any handler can be
registered as one that announces its calls, and then the log tells when it is called, whoever calls
it.

Main statement: in whatever happens to a pool of publications, a subscription is found to have caught
up if and only if it was noted before; each question began an attempt, which goes by the answer; each
note was made by an attempt whose handler has caught up; and a handler is called by attempts only:
to catch up right after the answer that it has not done so, and with an event right after the answer
that it has, or after the note.
-/

namespace Loyalty

open Simulation

/-! ## Publishing -/

/-- A handler that may be called through the registration with a number. It asks what subscriptions
remember, has it noted, and calls handlers, only by publishing events. -/
structure Registered.Admits (R : Registered) (n : Nat) (h : EventHandler) : Prop where
  /-- when it is told of an event -/
  handle : ∀ e, Delivering R (some (n, .handle e)) (h.handle e)
  /-- when it catches up -/
  sync : ∀ id, Delivering R (some (n, .sync id)) (h.sync id)

namespace Registered

variable {R : Registered} {n : Nat} {h : EventHandler}

theorem admits_of_within (hh : h.Within (Delivering R none)) : R.Admits n h :=
  ⟨fun e => .unannounced (hh.handle e), fun id => .unannounced (hh.sync id)⟩

end Registered

namespace Delivering

variable {R : Registered}

theorem all {as : List Activity} (h : ∀ a ∈ as, Delivering R none a) :
    Delivering R none (.all as) := by
  rw [Activity.all]
  split
  · exact (closed R).inOrder h
  · exact .crowd (fun i => h _ (List.get_mem as i)) .done

variable {b : Bus} (hb : ∀ n h, b.handlers[n]? = some h → R.who n h ∧ R.Admits n h)

include hb

theorem publishOne (e : Event) : Delivering R none (b.publishOne e) := by
  refine (closed R).publishOne (fun _ => all) fun s hs => (closed R).deliver True.intro ?_
  obtain ⟨hregistered, hadmits⟩ := hb s.number s.handler (Bus.registered hs)
  exact .attempt hregistered (hadmits.handle e) (hadmits.sync _)

theorem publish (es : List Event) : Delivering R none (b.publish es) :=
  (closed R).publish fun e _ => publishOne hb e

end Delivering

/-- Who may be called through which registration, and under which name it is announced there. -/
structure Registry where
  /-- the handlers and the names -/
  registered : Registered
  /-- what the handlers do -/
  admits : ∀ {n : Nat} {h : EventHandler}, registered.who n h → registered.Admits n h

/-- Those who are registered on a bus are in a registry. -/
def Registry.Covers (R : Registry) (b : Bus) : Prop :=
  ∀ n h, b.handlers[n]? = some h → R.registered.who n h

theorem Registry.Covers.publishOne {R : Registry} {b : Bus} (hb : R.Covers b) (e : Event) :
    Delivering R.registered none (b.publishOne e) :=
  Delivering.publishOne (fun n h hh => ⟨hb n h hh, R.admits (hb n h hh)⟩) e

/-- Delivers events in order, up to the first that cannot be delivered, each on the bus as it is when
the turn of the event has come. -/
def Bus.publishInTurn : List (Bus × Event) → Activity
  | [] => .idle
  | (b, e) :: turns => (b.publishOne e).andThen (publishInTurn turns)

/-- While nobody is registered this is publishing. -/
theorem Bus.publishInTurn_eq (b : Bus) (es : List Event) :
    publishInTurn (es.map fun e => (b, e)) = b.publish es := by
  induction es with
  | nil => rfl
  | cons e es ih => exact congrArg (b.publishOne e).andThen ih

/-- Events that are published, with the bus that each will find. -/
structure Publication (R : Registry) where
  /-- the events and the buses -/
  turns : List (Bus × Event)
  /-- those who are registered there are in the registry -/
  covered : ∀ x ∈ turns, R.Covers x.1

namespace Publication

variable {R : Registry}

/-- What is done to publish. -/
def activity (x : Publication R) : Activity :=
  Bus.publishInTurn x.turns

end Publication

/-! ## What is remembered -/

/-- By now it has been noted that a subscription has caught up on an aggregate. -/
def Log.Noted (log : Log) (n : Nat) (id : String) : Prop :=
  ∃ π, (π, ⟨.markSynced n id, ()⟩) ∈ log

theorem Log.noted_concat {log : Log} {π : Place} {r : Request} {x : r.Answer} {n : Nat}
    {id : String} : Noted (log ++ [(π, ⟨r, x⟩)]) n id ↔ log.Noted n id ∨ r = .markSynced n id := by
  constructor
  · rintro ⟨ρ, hρ⟩
    rcases List.mem_append.1 hρ with hρ | hρ
    · exact .inl ⟨ρ, hρ⟩
    · have hpair := List.mem_singleton.1 hρ
      exact .inr (congrArg (fun y => y.2.request) hpair).symm
  · rintro (⟨ρ, hρ⟩ | rfl)
    · exact ⟨ρ, List.mem_append_left _ hρ⟩
    · exact ⟨π, List.mem_append_right _ (List.mem_singleton_self _)⟩

/-- A question about what subscriptions remember is answered by what was known to `w` and noted
since. -/
def Exchange.Recalls (w : World) (before : Log) (x : Exchange) : Prop :=
  ∀ (n : Nat) (id : String) (known : Bool), x = ⟨.isSynced n id, known⟩ →
    (known = true ↔ (n, id) ∈ w.synced ∨ before.Noted n id)

/-- Subscriptions remember what was known to `w`, and what was noted since. -/
structure Pool.Remembers (w : World) (P : Pool World) : Prop where
  /-- what they remember now -/
  synced_iff : ∀ n id, (n, id) ∈ P.state.synced ↔ (n, id) ∈ w.synced ∨ P.log.Noted n id
  /-- what they remembered when they were asked -/
  recalls : P.log.Each fun before _ x => x.Recalls w before

theorem Simulation.World.mem_synced_answer_iff {w : World} {r : Request} {n : Nat} {id : String} :
    (n, id) ∈ (w.answer r).2.synced ↔ (n, id) ∈ w.synced ∨ r = .markSynced n id := by
  rw [synced_answer]
  split
  · rw [List.mem_cons, or_comm]
    refine or_congr_right ⟨fun h => ?_, fun h => ?_⟩
    · cases h
      rfl
    · cases h
      rfl
  · next hne => exact ⟨.inl, fun h => h.resolve_right (hne n id)⟩

namespace Pool

variable {ι : Type} {w : World}

theorem remembers_empty (w : World) : Remembers w (empty w) where
  synced_iff _ _ := ⟨.inl, fun h => h.resolve_right fun ⟨_, h⟩ => absurd h List.not_mem_nil⟩
  recalls := .nil

theorem Remembers.moved {P Q : Pool World} (h : Remembers w P)
    (hmoved : Moved World.surroundings P Q) : Remembers w Q := by
  cases hmoved with
  | silent hstate hlog => exact ⟨hstate ▸ hlog ▸ h.synced_iff, hlog ▸ h.recalls⟩
  | passed nanos hstate hlog => exact ⟨hstate ▸ hlog ▸ h.synced_iff, hlog ▸ h.recalls⟩
  | answered π r hstate hlog =>
    refine ⟨fun n id => ?_, hlog ▸ .more h.recalls fun n id known hx => ?_⟩
    · rw [hstate, hlog, Log.noted_concat, ← or_assoc, ← h.synced_iff]
      exact World.mem_synced_answer_iff
    · cases hx
      rw [← h.synced_iff]
      exact List.contains_iff_mem

theorem remembers_run (launch : ι → Activity) (w : World) (moves : List (Move ι)) :
    Remembers w ((empty w).run World.surroundings launch moves) :=
  moves.foldlRecOn _ (remembers_empty w) fun _ h move _ =>
    h.moved (moved_step World.surroundings launch _ move)

end Pool

/-! ## Catching up once -/

/-- What a log shows of those who catch up. Something was known at the beginning. -/
structure Registry.Bootstraps (R : Registry) (w : World) (log : Log) : Prop where
  /-- a subscription is found to have caught up on an aggregate if this was known or has been noted,
  whatever is remembered of others -/
  known_iff : ∀ {before after : Log} {π : Place} {n : Nat} {id : String} {known : Bool},
    log = before ++ (π, ⟨.isSynced n id, known⟩) :: after →
      (known = true ↔ (n, id) ∈ w.synced ∨ before.Noted n id)
  /-- the question began an attempt, which has gone by the answer in what happened at its place
  afterwards, until now or until it ended -/
  attempted : ∀ {before after : Log} {π : Place} {n : Nat} {id : String} {known : Bool},
    log = before ++ (π, ⟨.isSynced n id, known⟩) :: after →
      ∃ (h : EventHandler) (e : Event) (story : Chronicle) (c : Activity), R.registered.who n h ∧
        e.aggregateId = id ∧
        (⟨n, h⟩ : Subscription).Progress e (Chronicle.heard (.isSynced n id) known :: story) c ∧
        ((∃ o, c = .done o) ∧ story.exchanges <+: Placed.under after π ∨
          story.exchanges = Placed.under after π)
  /-- a note was made when the handler had succeeded in catching up, after it was found that it had
  not yet done so -/
  noted : ∀ {before after : Log} {π : Place} {n : Nat} {id : String},
    log = before ++ (π, ⟨.markSynced n id, ()⟩) :: after →
      ∃ (h : EventHandler) (before' mid : Log) (story : Chronicle), R.registered.who n h ∧
        before = before' ++ (π, ⟨.isSynced n id, false⟩) :: mid ∧
        Placed.under mid π = story.exchanges ∧ (h.sync id).Lives story (.done (.ok ()))
  /-- from then on it is found to have caught up -/
  once : ∀ {before after : Log} {π : Place} {n : Nat} {id : String},
    log = before ++ (π, ⟨.markSynced n id, ()⟩) :: after →
      ∀ ρ known, (ρ, ⟨.isSynced n id, known⟩) ∈ after → known = true
  /-- a handler is called by an attempt that is free to do so, with nothing at its place or inwards
  in between -/
  called : ∀ {before after : Log} {π : Place} {name : String} {errand : Errand} {o : Outcome},
    R.registered.Announced name → log = before ++ (π, ⟨.outside name errand, o⟩) :: after →
      ∃ (n : Nat) (y : Exchange) (before' mid : Log), R.registered.name? n = some name ∧
        y.Permits n errand ∧ before = before' ++ (π, y) :: mid ∧ Placed.under mid π = []
  /-- a handler is told of an event only when it has caught up on the aggregate -/
  handled : ∀ {before after : Log} {π : Place} {name : String} {e : Event} {o : Outcome},
    R.registered.Announced name → log = before ++ (π, ⟨.outside name (.handle e), o⟩) :: after →
      ∃ n, R.registered.name? n = some name ∧
        ((n, e.aggregateId) ∈ w.synced ∨ before.Noted n e.aggregateId)
  /-- a handler is told to catch up only when it was found that this has not been noted -/
  begun : ∀ {before after : Log} {π : Place} {name id : String} {o : Outcome},
    R.registered.Announced name → log = before ++ (π, ⟨.outside name (.sync id), o⟩) :: after →
      ∃ (n : Nat) (before' mid : Log), R.registered.name? n = some name ∧
        before = before' ++ (π, ⟨.isSynced n id, false⟩) :: mid ∧ Placed.under mid π = [] ∧
        (n, id) ∉ w.synced ∧ ¬ before'.Noted n id

/-- Where a handler is told of an event without catching up first, an attempt before has caught up,
and this has been noted. -/
theorem Registry.Bootstraps.exists_caughtUp {R : Registry} {w : World} {log : Log}
    (hlog : R.Bootstraps w log) {before after : Log} {π : Place} {n : Nat} {id : String}
    (hfound : log = before ++ (π, ⟨.isSynced n id, true⟩) :: after) (hnew : (n, id) ∉ w.synced) :
    ∃ (h : EventHandler) (ρ : Place) (earlier mid later : Log) (story : Chronicle),
      R.registered.who n h ∧
      before = earlier ++ (ρ, ⟨.isSynced n id, false⟩) :: mid ++ (ρ, ⟨.markSynced n id, ()⟩) :: later ∧
      Placed.under mid ρ = story.exchanges ∧ (h.sync id).Lives story (.done (.ok ())) := by
  obtain ⟨ρ, hnoted⟩ := ((hlog.known_iff hfound).1 rfl).resolve_left hnew
  obtain ⟨before, later, rfl⟩ := List.append_of_mem hnoted
  rw [List.append_assoc, List.cons_append] at hfound
  obtain ⟨h, earlier, mid, story, hregistered, rfl, hstory, hsync⟩ := hlog.noted hfound
  exact ⟨h, ρ, earlier, mid, later, story, hregistered, rfl, hstory, hsync⟩

namespace Pool

variable {ι : Type} {R : Registry} {launch : ι → Activity} {w : World} {P : Pool World}

/-- What is in the log happened to a member, and shows in what that one has lived through. -/
theorem Lived.exists_entry (hlived : Lived launch P) {before after : Log} {π : Place}
    {x : Exchange} (hlog : P.log = before ++ (π, x) :: after) :
    ∃ (i : Nat) (ρ : Place) (y : ι) (b : Activity) (before' after' : Chronicle), π = i :: ρ ∧
      (launch y).Lives (before' ++ (ρ, .answered x) :: after') b ∧
      before'.exchanges = Placed.side before i ∧ after'.exchanges = Placed.side after i := by
  obtain ⟨i, ρ, hi, rfl⟩ := hlived.placed (π, x) (hlog ▸ List.mem_append_right _ List.mem_cons_self)
  obtain ⟨y, H, hlives, hH⟩ := hlived.lives (List.getElem?_eq_getElem hi)
  rw [hlog, Placed.side_around] at hH
  obtain ⟨before', after', rfl, hbefore, hafter⟩ := Chronicle.exists_of_exchanges_eq hH.symm
  exact ⟨i, ρ, y, _, before', after', rfl, hlives, hbefore, hafter⟩

/-- What a member was answered earlier is in the log, with what happened since then at its place and
inwards. -/
theorem exists_earlier {before : Log} {i : Nat} {ρ : Place} {x : Exchange} {earlier mid : Chronicle}
    (h : Chronicle.exchanges (earlier ++ (ρ, .answered x) :: mid) = Placed.side before i) :
    ∃ before' mid', before = before' ++ (i :: ρ, x) :: mid' ∧
      Placed.under mid' (i :: ρ) = Chronicle.exchanges (mid.under ρ) := by
  rw [Chronicle.exchanges_append, Chronicle.exchanges_cons_answered] at h
  obtain ⟨before', mid', rfl, -, hmid⟩ := Placed.exists_of_side_eq h.symm
  refine ⟨before', mid', rfl, ?_⟩
  rw [Placed.under, hmid, Chronicle.exchanges_under]

/-- A member is called by attempts only, and so is whoever is called in the pool. -/
theorem Lived.called (hlaunch : ∀ y, Delivering R.registered none (launch y))
    (hlived : Lived launch P) {before after : Log} {π : Place} {name : String} {errand : Errand}
    {o : Outcome} (hname : R.registered.Announced name)
    (hlog : P.log = before ++ (π, ⟨.outside name errand, o⟩) :: after) :
    ∃ (n : Nat) (y : Exchange) (before' mid : Log), R.registered.name? n = some name ∧
      y.Permits n errand ∧ before = before' ++ (π, y) :: mid ∧ Placed.under mid π = [] := by
  obtain ⟨i, ρ, y, b, before', after', rfl, hlives, hbefore, -⟩ := hlived.exists_entry hlog
  obtain ⟨n, hn, ⟨⟨⟩, -⟩ | ⟨x, earlier, mid, hx, rfl, hmid⟩⟩ :=
    ((hlaunch y).shows _ b hlives).calls _ _ _ rfl name errand o hname rfl
  obtain ⟨before', mid', rfl, hunder⟩ := exists_earlier hbefore
  exact ⟨n, x, before', mid', hn, hx, rfl, hunder.trans hmid⟩

theorem bootstraps (hlaunch : ∀ y, Delivering R.registered none (launch y))
    (hlived : Lived launch P) (hremembers : Remembers w P) : R.Bootstraps w P.log where
  known_iff hlog := (hlog ▸ hremembers.recalls).holds _ _ _ rfl
  attempted {before after π n id known} hlog := by
    obtain ⟨i, ρ, y, b, before', after', rfl, hlives, -, hafter⟩ := hlived.exists_entry hlog
    obtain ⟨h, e, story, c, hR, he, hprogress, hend⟩ :=
      ((hlaunch y).shows _ b hlives).begins _ _ _ rfl n id known rfl
    have hunder : Placed.under after (i :: ρ) = Chronicle.exchanges (after'.under ρ) := by
      rw [Chronicle.exchanges_under, hafter, Placed.under]
    refine ⟨h, e, story, c, hR, he, hprogress, hend.imp (fun hend => ⟨hend.1, ?_⟩) fun hend => ?_⟩
    · rw [hunder]
      exact hend.2.filterMap _
    · rw [hunder, hend.2]
  noted {before after π n id} hlog := by
    obtain ⟨i, ρ, y, b, before', after', rfl, hlives, hbefore, -⟩ := hlived.exists_entry hlog
    obtain ⟨h, earlier, mid, hR, rfl, hsync⟩ :=
      ((hlaunch y).shows _ b hlives).notes _ _ _ rfl n id rfl
    obtain ⟨before', mid', rfl, hunder⟩ := exists_earlier hbefore
    exact ⟨h, before', mid', mid.under ρ, hR, rfl, hunder, hsync⟩
  once {before after π n id} hlog ρ known hρ := by
    obtain ⟨mid, rest, rfl⟩ := List.append_of_mem hρ
    have hlater : P.log =
        (before ++ (π, ⟨.markSynced n id, ()⟩) :: mid) ++ (ρ, ⟨.isSynced n id, known⟩) :: rest := by
      rw [hlog, List.append_assoc, List.cons_append]
    have hnoted : Log.Noted (before ++ (π, ⟨.markSynced n id, ()⟩) :: mid) n id :=
      ⟨π, List.mem_append_right _ List.mem_cons_self⟩
    exact ((hlater ▸ hremembers.recalls).holds _ _ _ rfl).2 (.inr hnoted)
  called hname hlog := hlived.called hlaunch hname hlog
  handled {before after π name e o} hname hlog := by
    obtain ⟨n, y, earlier, mid, hn, hpermits, rfl, -⟩ := hlived.called hlaunch hname hlog
    refine ⟨n, hn, ?_⟩
    cases hpermits with
    | known =>
      rw [List.append_assoc, List.cons_append] at hlog
      have hknown := ((hlog ▸ hremembers.recalls).holds _ _ _ rfl).1 rfl
      exact hknown.imp_right (Exists.imp fun ρ hρ => List.mem_append_left _ hρ)
    | noted => exact .inr ⟨π, List.mem_append_right _ List.mem_cons_self⟩
  begun {before after π name id o} hname hlog := by
    obtain ⟨n, y, earlier, mid, hn, ⟨⟩, rfl, hmid⟩ := hlived.called hlaunch hname hlog
    rw [List.append_assoc, List.cons_append] at hlog
    have hunknown := (hlog ▸ hremembers.recalls).holds _ _ _ rfl
    have hnone : ¬ ((n, id) ∈ w.synced ∨ earlier.Noted n id) :=
      fun h => Bool.false_ne_true (hunknown.2 h)
    exact ⟨n, earlier, mid, hn, rfl, hmid, not_or.1 hnone⟩

end Pool

/-! ### A handler that is registered twice, and one that publishes -/

namespace Registry

/-- A handler that is told of points. -/
def listener : EventHandler :=
  scriptedHandler "listener" [.pointsEarned] 0 false

/-- It is registered twice. -/
def listeners : Bus :=
  ⟨.standard, [listener, listener]⟩

/-- Points that are published. -/
def points : Event :=
  .ofChange "kim" 2 (.pointsEarned 5) (Supply.standard.time 1)

end Registry

/-! ## The whole program -/

namespace Wiring

variable (policy : RetryPolicy)

/-- The projection and the rewards, which dispatch with so many levels of dispatching. They announce
nothing. -/
def registered : Registered where
  who n h := ∃ levels,
    ((standard policy).busOver ((standard policy).dispatchWithin levels)).handlers[n]? = some h
  name? _ := none

theorem within_registered {levels : Nat}
    (hd : ∀ c, Delivering (registered policy) none ((standard policy).dispatchWithin levels c))
    {n : Nat} {h : EventHandler}
    (hh : ((standard policy).busOver ((standard policy).dispatchWithin levels)).handlers[n]? =
      some h) : h.Within (Delivering (registered policy) none) :=
  (Delivering.closed _).within_standard policy (fun r hr => by cases r <;> trivial)
    (fun _ => True.intro) (fun c _ => hd c) (List.mem_of_getElem? hh)

theorem delivering_dispatchWithin (levels : Nat) (c : Command) :
    Delivering (registered policy) none ((standard policy).dispatchWithin levels c) := by
  have hclosed := Delivering.closed (registered policy)
  induction levels generalizing c with
  | zero => exact hclosed.dispatch fun h hh => absurd hh List.not_mem_nil
  | succ levels ih =>
    have hpersist : (Execution.persist c).run.Only (registered policy).IsPlain :=
      (Execution.only_execution c).mono fun r hr => by cases r <;> trivial
    refine hclosed.dispatch_standard policy (hclosed.attempt hpersist fun es => ?_)
    refine Delivering.publish (fun n h hh => ⟨Exists.intro levels hh, ?_⟩) es
    exact Registered.admits_of_within (within_registered policy ih hh)

/-- The handlers of the whole program. -/
def registry : Registry where
  registered := registered policy
  admits := by
    rintro n h ⟨levels, hh⟩
    exact Registered.admits_of_within
      (within_registered policy (delivering_dispatchWithin policy levels) hh)

/-- The projection and the rewards catch up once, however many commands are dispatched at once. -/
theorem dispatches_bootstrap (w : World) (moves : List (Move Command)) :
    (registry policy).Bootstraps w
      ((Pool.empty w).run World.surroundings (standard policy).dispatch moves).log :=
  Pool.bootstraps (R := registry policy) (delivering_dispatchWithin policy 2)
    (Pool.lived_run _ _ w moves) (Pool.remembers_run _ w moves)

end Wiring

end Loyalty
