import Loyalty.Delivery.Dispatcher
import Loyalty.Proofs.Failure
import Loyalty.Proofs.Process.Account
import Loyalty.Simulation.Run

/-!
# Routing

Handlers may be registered in any order, name the same kinds and name a kind more than once. Whoever
was registered last of those that name a kind carries out the commands of this kind:
`Dispatcher.LastFor`. A later registration takes some kinds away from earlier ones and leaves them
the others, and so does a table in which handlers are entered kind by kind.

`Dispatcher.Dispatched` says what comes of a dispatch. Nothing happens in it but what happens when
that one handler carries out the command, so no other handler is asked for anything, and the one is
not asked twice. The outcome is that of the handler, with one wrapper around a failure.

Main statement: this is how commands are routed, whether a dispatch goes on alone or among others.
-/

namespace Loyalty

open Simulation

/-! ## Registration -/

namespace HandlerTable

theorem handlerFor_enterAll (t : HandlerTable) (h : CommandHandler) (ks : List CommandKind)
    (k : CommandKind) :
    (ks.foldl (fun t k => t.enter k h) t).handlerFor k =
      if k ∈ ks then some h else t.handlerFor k := by
  induction ks generalizing t with
  | nil => rfl
  | cons k' ks ih =>
    rw [List.foldl_cons, ih, enter]
    by_cases hks : k ∈ ks
    · rw [if_pos hks, if_pos (List.mem_cons_of_mem k' hks)]
    · rw [if_neg hks]
      simp only [List.mem_cons, hks, or_false]

/-- A handler that is registered replaces others for the kinds that it names, and for no others. -/
theorem handlerFor_register (t : HandlerTable) (h : CommandHandler) (k : CommandKind) :
    (t.register h).handlerFor k = if k ∈ h.kinds then some h else t.handlerFor k :=
  handlerFor_enterAll t h h.kinds k

theorem ofRegistrations_concat (hs : List CommandHandler) (h : CommandHandler) :
    ofRegistrations (hs ++ [h]) = (ofRegistrations hs).register h := by
  rw [ofRegistrations, List.foldl_append, List.foldl_cons, List.foldl_nil, ofRegistrations]

end HandlerTable

namespace Dispatcher

theorem handlerFor_concat (hs : List CommandHandler) (h : CommandHandler) (k : CommandKind) :
    handlerFor ⟨hs ++ [h]⟩ k = if k ∈ h.kinds then some h else handlerFor ⟨hs⟩ k := by
  rw [handlerFor, handlerFor, List.reverse_concat, List.find?_cons]
  by_cases hk : k ∈ h.kinds
  · rw [if_pos hk, List.contains_iff_mem.2 hk]
  · rw [if_neg hk, Bool.eq_false_iff.2 (mt List.contains_iff_mem.1 hk)]

/-- The table holds whom the dispatcher finds. -/
theorem handlerFor_ofRegistrations (hs : List CommandHandler) (k : CommandKind) :
    (HandlerTable.ofRegistrations hs).handlerFor k = handlerFor ⟨hs⟩ k := by
  induction hs using List.reverseRecOn with
  | nil => rfl
  | append_singleton hs h ih =>
    rw [HandlerTable.ofRegistrations_concat, HandlerTable.handlerFor_register, ih,
      handlerFor_concat]

variable {d : Dispatcher} {k : CommandKind} {h : CommandHandler}

/-- A handler was registered last of those that name a kind. -/
def LastFor (d : Dispatcher) (k : CommandKind) (h : CommandHandler) : Prop :=
  ∃ earlier later, d.handlers = earlier ++ h :: later ∧ k ∈ h.kinds ∧ ∀ h' ∈ later, k ∉ h'.kinds

theorem handlerFor_eq_some_iff : d.handlerFor k = some h ↔ d.LastFor k h := by
  rw [handlerFor, List.find?_eq_some_iff_append, LastFor]
  constructor
  · rintro ⟨hk, later, earlier, hreverse, hlater⟩
    refine ⟨earlier.reverse, later.reverse, ?_, by simpa using hk, by simpa using hlater⟩
    rw [← List.reverse_reverse d.handlers, hreverse, List.reverse_append, List.reverse_cons,
      List.append_assoc, List.singleton_append]
  · rintro ⟨earlier, later, hhandlers, hk, hlater⟩
    refine ⟨by simpa using hk, later.reverse, earlier.reverse, ?_, by simpa using hlater⟩
    rw [hhandlers, List.reverse_append, List.reverse_cons, List.append_assoc,
      List.singleton_append]

theorem handlerFor_eq_none_iff : d.handlerFor k = none ↔ ∀ h ∈ d.handlers, k ∉ h.kinds := by
  rw [handlerFor, List.find?_eq_none]
  simp

/-- If anybody names a kind, somebody was the last who did. -/
theorem exists_lastFor (hh : h ∈ d.handlers) (hk : k ∈ h.kinds) : ∃ h', d.LastFor k h' := by
  cases hfound : d.handlerFor k with
  | none => exact absurd hk (handlerFor_eq_none_iff.1 hfound h hh)
  | some h' => exact ⟨h', handlerFor_eq_some_iff.1 hfound⟩

/-- Nobody else was. -/
theorem LastFor.unique {h' : CommandHandler} (hlast : d.LastFor k h) (hlast' : d.LastFor k h') :
    h = h' :=
  Option.some.inj
    ((handlerFor_eq_some_iff.2 hlast).symm.trans (handlerFor_eq_some_iff.2 hlast'))

/-! ## Dispatching -/

/-- A dispatch goes from one state of an account to another and ends with an outcome. -/
inductive Dispatched {S : Type} (A : Account S) (d : Dispatcher) (c : Command) :
    S → Outcome → S → Prop where
  /-- it is not said whom the command is about -/
  | blank (v : S) (hid : Text.trim c.aggregateId = "") : Dispatched A d c v (.error .blankId) v
  /-- nobody carries out such commands -/
  | unassigned (v : S) (hid : Text.trim c.aggregateId ≠ "")
    (hnobody : ∀ h ∈ d.handlers, c.kind ∉ h.kinds) :
    Dispatched A d c v (.error (.noCommandHandler c.kind)) v
  /-- the handler carries out the command -/
  | carriedOut {h : CommandHandler} {v w : S} (hid : Text.trim c.aggregateId ≠ "")
    (hlast : d.LastFor c.kind h) (hends : A.ends (h.handle c) v (.ok ()) w) :
    Dispatched A d c v (.ok ()) w
  /-- the handler fails to carry out the command -/
  | failed {h : CommandHandler} {v w : S} {f : Failure} (hid : Text.trim c.aggregateId ≠ "")
    (hlast : d.LastFor c.kind h) (hends : A.ends (h.handle c) v (.error f) w) :
    Dispatched A d c v (.error (.dispatch c.kind c.aggregateId f)) w

section Dispatch

variable {c : Command}

theorem dispatch_of_blank (hid : Text.trim c.aggregateId = "") : d.dispatch c = .fail .blankId := by
  rw [dispatch, if_pos ((Text.isBlank_iff_trim_eq_empty _).2 hid)]

theorem dispatch_eq (hid : Text.trim c.aggregateId ≠ "") :
    d.dispatch c = match d.handlerFor c.kind with
      | none => .fail (.noCommandHandler c.kind)
      | some h => (h.handle c).mapFailure (.dispatch c.kind c.aggregateId) :=
  if_neg (mt (Text.isBlank_iff_trim_eq_empty _).1 hid)

theorem dispatch_of_nobody (hid : Text.trim c.aggregateId ≠ "")
    (hnobody : ∀ h ∈ d.handlers, c.kind ∉ h.kinds) :
    d.dispatch c = .fail (.noCommandHandler c.kind) := by
  rw [dispatch_eq hid, handlerFor_eq_none_iff.2 hnobody]

theorem dispatch_of_lastFor (hid : Text.trim c.aggregateId ≠ "") (hlast : d.LastFor c.kind h) :
    d.dispatch c = (h.handle c).mapFailure (.dispatch c.kind c.aggregateId) := by
  rw [dispatch_eq hid, handlerFor_eq_some_iff.2 hlast]

theorem ends_dispatch_iff {S : Type} {A : Account S} (hA : A.Composes) {v w : S} {o : Outcome} :
    A.ends (d.dispatch c) v o w ↔ Dispatched A d c v o w := by
  constructor
  · intro h
    by_cases hid : Text.trim c.aggregateId = ""
    · rw [dispatch_of_blank hid] at h
      obtain ⟨rfl, rfl⟩ := A.of_done h
      exact .blank w hid
    · cases hfound : d.handlerFor c.kind with
      | none =>
        have hnobody := handlerFor_eq_none_iff.1 hfound
        rw [dispatch_of_nobody hid hnobody] at h
        obtain ⟨rfl, rfl⟩ := A.of_done h
        exact .unassigned w hid hnobody
      | some handler =>
        have hlast := handlerFor_eq_some_iff.1 hfound
        rw [dispatch_of_lastFor hid hlast] at h
        obtain ⟨p, rfl, hends⟩ := A.of_mapFailure h
        cases p with
        | ok u => exact .carriedOut hid hlast hends
        | error f => exact .failed hid hlast hends
  · intro h
    cases h with
    | blank _ hid =>
      rw [dispatch_of_blank hid]
      exact hA.done _ v
    | unassigned _ hid hnobody =>
      rw [dispatch_of_nobody hid hnobody]
      exact hA.done _ v
    | carriedOut hid hlast hends =>
      rw [dispatch_of_lastFor hid hlast]
      exact hA.mapFailure hends _
    | failed hid hlast hends =>
      rw [dispatch_of_lastFor hid hlast]
      exact hA.mapFailure hends _

end Dispatch

/-- How a dispatcher routes commands. -/
structure Routes (d : Dispatcher) : Prop where
  /-- whoever carries out commands of a kind is entered for it in a table of the registrations -/
  table : ∀ k, (HandlerTable.ofRegistrations d.handlers).handlerFor k = d.handlerFor k
  /-- nobody but one handler was registered last for a kind -/
  atMostOne : ∀ k h h', d.LastFor k h → d.LastFor k h' → h = h'
  /-- one was if any handler names the kind -/
  atLeastOne : ∀ k, (∃ h ∈ d.handlers, k ∈ h.kinds) → ∃ h, d.LastFor k h
  /-- a dispatch that goes on alone -/
  alone : ∀ {σ : Type} (s : Surroundings σ) (c : Command) (v : σ) (o : Outcome) (w : σ),
    (d.dispatch c).run s v = (o, w) ↔ Dispatched (.performing s) d c v o w
  /-- a dispatch that goes on among others -/
  among : ∀ (c : Command) (H : Chronicle) (o : Outcome),
    (d.dispatch c).Lives H (.done o) ↔ Dispatched .living d c [] o H
  /-- a failure with which a dispatch ends has the failure of the handler directly under it, and means
  the same, alone and among others -/
  meaning : ∀ {S : Type} {A : Account S} (c : Command) (h : CommandHandler) (v w : S) (g : Failure),
    Text.trim c.aggregateId ≠ "" → d.LastFor c.kind h → Dispatched A d c v (.error g) w →
      ∃ f, A.ends (h.handle c) v (.error f) w ∧ g.source? = some f ∧ g.MeansAs f

theorem lives_dispatch_iff {c : Command} {H : Chronicle} {o : Outcome} :
    (d.dispatch c).Lives H (.done o) ↔ Dispatched .living d c [] o H := by
  rw [← ends_dispatch_iff Account.composes_living]
  constructor
  · intro h
    exact ⟨H, rfl, h⟩
  · rintro ⟨H', rfl, h⟩
    exact h

/-- A dispatch fails because its handler does. -/
theorem Dispatched.exists_failure {S : Type} {A : Account S} {c : Command} {v w : S} {g : Failure}
    (hd : Dispatched A d c v (.error g) w) (hid : Text.trim c.aggregateId ≠ "")
    (hlast : d.LastFor c.kind h) :
    ∃ f, A.ends (h.handle c) v (.error f) w ∧ g.source? = some f ∧ g.MeansAs f := by
  cases hd with
  | blank _ hblank => exact absurd hblank hid
  | unassigned _ _ hnobody =>
    have hnone := handlerFor_eq_none_iff.2 hnobody
    cases hnone.symm.trans (handlerFor_eq_some_iff.2 hlast)
  | @failed h' _ _ f _ hlast' hends =>
    obtain rfl : h' = h := hlast'.unique hlast
    exact ⟨f, hends, rfl, .of_root rfl⟩

/-- **Routing.** Whatever handlers were registered in whatever order, a command that says whom it is
about goes to the handler that was registered last of those that name its kind. -/
theorem routes (d : Dispatcher) : d.Routes where
  table := handlerFor_ofRegistrations d.handlers
  atMostOne _ _ _ hlast hlast' := hlast.unique hlast'
  atLeastOne _ := fun ⟨_, hh, hk⟩ => exists_lastFor hh hk
  alone s _ _ _ _ := ends_dispatch_iff (Account.composes_performing s)
  among _ _ _ := lives_dispatch_iff
  meaning _ _ _ _ _ hid hlast hd := hd.exists_failure hid hlast

/-- The first handler is left with one of its kinds, and the second takes the other one; it names it
twice and is asked once. -/
example :
    let d : Dispatcher := ⟨[scriptedCommandHandler "first" [.earnPoints, .deleteUser],
      scriptedCommandHandler "second" [.earnPoints, .createUser, .earnPoints],
      scriptedCommandHandler "third" [.createUser]]⟩
    let w : World := { scripts := fun _ => { carryOut := [some (.readModel "row locked")] } }
    let c : Command := .earnPoints ⟨"kim", 5⟩
    (World.perform (d.dispatch c) w).1 =
        .error (.dispatch .earnPoints "kim" (.readModel "row locked")) ∧
      (World.perform (d.dispatch c) w).2.history = [.called "second" (.carryOut c) 0 false] := by
  decide +kernel

end Dispatcher

end Loyalty
