import Loyalty.Proofs.Process.Family
import Loyalty.Proofs.Simulation.Truth
import Loyalty.Proofs.Stream.Growth

/-!
# Decisions that were saved

Between the moment at which a user is loaded and the moment at which the decision is saved, anybody
may save something else. The versions tell: the event that was decided on follows the version of
the user who was loaded, the store takes only what follows the last version of the history, and a
history is only ever added to. So if the store takes the event, the history has the length that it
had when it was loaded, and then it is the history that was loaded.

A `Commit` is a command whose decision was saved, with what it went by. `Log.Commits` lists the
commits of a log in the order in which they were saved.

Main statements: every save that succeeds is a commit on the history as it is just before; so all
histories have grown in order.
-/

namespace Loyalty

open History Execution

/-- A command whose decision was saved, what the decision went by, and the event. -/
structure Commit where
  /-- the command -/
  command : Command
  /-- what the decision went by -/
  basis : Basis
  /-- the event that was saved -/
  event : Event

namespace Commit

/-- The decision was made on exactly this history of the user. -/
structure On (m : Commit) (es : List Event) : Prop where
  /-- the event is the decision -/
  decided : m.basis.decide m.command = .ok [m.event]
  /-- the event is of the user whom the command is about -/
  aggregateId_eq : m.event.aggregateId = m.command.aggregateId
  /-- nothing is wrong with the event as a batch -/
  sound : Repository.batchFault? [m.event] = none
  /-- who signs up has no history -/
  signUp : m.command.kind = .createUser → es = []
  /-- any other user is the one to whom the history replays -/
  current : m.command.kind ≠ .createUser →
    es ≠ [] ∧ User.ofHistory m.command.aggregateId es = .ok m.basis.user

/-- The call that was about to save the event at a place had heard what the decision goes by. -/
def WasHeard (m : Commit) (heardThere : List Exchange) : Prop :=
  ∃ heard k first second, heard <:+ heardThere ∧
    (persist m.command).run.After heard (.call (.save [m.event]) k) ∧
      heard = first ++ second ∧ (lookUp m.command).run.After first (.done (.ok m.basis))

end Commit

namespace Log

/-- The commits of a log, in the order in which they were saved. -/
inductive Commits : Log → List Commit → Prop where
  /-- nothing has happened -/
  | nil : Commits [] []
  /-- something happened by which nothing was saved -/
  | other {log : Log} {ms : List Commit} (h : Commits log ms) (π : Place) {x : Exchange}
    (hx : x.saved = []) : Commits (log ++ [(π, x)]) ms
  /-- a decision was saved -/
  | commit {log : Log} {ms : List Commit} (h : Commits log ms) (π : Place) {m : Commit}
    (hm : m.On (ofUser m.command.aggregateId log.saved)) (hheard : m.WasHeard (log.heardAt π)) :
    Commits (log ++ [(π, ⟨.save [m.event], .ok ()⟩)]) (ms ++ [m])

end Log

/-! ## A save that succeeds -/

/-- The version of an event that the store takes. -/
theorem version_of_save {es : List Event} {e : Event}
    (h : Gapless (ofUser e.aggregateId es)) {s' : EventStore}
    (hs : (EventStore.holding es).save [e] = .ok s') :
    e.version = (ofUser e.aggregateId es).length + 1 := by
  obtain ⟨-, hversion, -⟩ := EventStore.save_eq_ok_iff.1 hs
  rw [EventStore.lastVersion_holding h] at hversion
  exact (List.cons.inj hversion).1

/-- The decision for someone who signs up can be saved only where there is no history. -/
theorem Commit.on_of_createUser {c : CreateUser} {b : Basis} {es saved : List Event}
    (hdecided : b.decide (.createUser c) = .ok es) (hsound : Repository.batchFault? es = none)
    (hgapless : ∀ id, Gapless (ofUser id saved)) {s' : EventStore}
    (hs : (EventStore.holding saved).save es = .ok s') :
    ∃ e, es = [e] ∧ (⟨.createUser c, b, e⟩ : Commit).On (ofUser c.userId saved) := by
  obtain ⟨s, -, rfl⟩ := Command.decide_createUser (Basis.decide_eq_ok hdecided)
  refine ⟨_, rfl, hdecided, rfl, hsound, fun _ => ?_, fun hkind => absurd rfl hkind⟩
  -- A sign-up has version 1, so nothing can stand before it.
  have hversion := version_of_save (hgapless _) hs
  exact List.eq_nil_of_length_eq_zero (Nat.succ.inj hversion).symm

/-- Any other decision can be saved only where the history is the one that was loaded. -/
theorem Commit.on_of_loaded {c : Command} (hc : c.kind ≠ .createUser) {b : Basis}
    {es loaded later saved : List Event} (hdecided : b.decide c = .ok es)
    (hsound : Repository.batchFault? es = none) (hgapless : ∀ id, Gapless (ofUser id saved))
    {s' : EventStore} (hs : (EventStore.holding saved).save es = .ok s')
    (hhistory : ofUser c.aggregateId saved = loaded ++ later) (hne : loaded ≠ [])
    (huser : User.ofHistory c.aggregateId loaded = .ok b.user) :
    ∃ e, es = [e] ∧ (⟨c, b, e⟩ : Commit).On (ofUser c.aggregateId saved) := by
  have hloaded : Gapless loaded := (hhistory ▸ hgapless c.aggregateId).of_append
  have hreflects : b.user.Reflects c.aggregateId loaded :=
    User.reflects_of_ofHistory hloaded huser
  obtain ⟨d, -, rfl⟩ := Command.decide_eq_ok hc (Basis.decide_eq_ok hdecided)
  -- The store compares the version after the loaded history with the one after the present one.
  have hversion := version_of_save (hgapless _) hs
  have hlater : later = [] := by
    simp only [Event.ofChange, hreflects.id_eq, hreflects.version_eq, hhistory,
      List.length_append] at hversion
    exact List.eq_nil_of_length_eq_zero (by omega)
  rw [hlater, List.append_nil] at hhistory
  refine ⟨_, rfl, hdecided, hreflects.id_eq, hsound, fun hkind => absurd hkind hc, fun _ => ?_⟩
  rw [hhistory]
  exact ⟨hne, huser⟩

/-- What is known of a pool in which nothing is saved but decisions: its log is truthful, and every
request to save was made by a call that decided. -/
structure Log.Decided (log : Log) : Prop where
  /-- what was said of the store was true -/
  truthful : log.Truthful
  /-- it is known who asked to save -/
  accounted : log.Accounted (fun c => (persist c).run) Request.IsNoSave

theorem Log.Decided.of_concat {log : Log} {π : Place} {x : Exchange}
    (h : Log.Decided (log ++ [(π, x)])) : log.Decided :=
  ⟨h.truthful.of_concat.1, h.accounted.of_concat.1⟩

/-- A save that succeeds is a commit on the history as it is just before. -/
theorem Log.Decided.commit {log : Log} {π : Place} {es : List Event}
    (h : Log.Decided (log ++ [(π, ⟨.save es, .ok ()⟩)])) :
    ∃ m : Commit, es = [m.event] ∧ m.On (ofUser m.command.aggregateId log.saved) ∧
      m.WasHeard (log.heardAt π) := by
  have hbefore : log.Decided := h.of_concat
  obtain ⟨s', hs⟩ : ∃ s', (EventStore.holding log.saved).save es = .ok s' :=
    h.truthful.of_concat.2
  rcases h.accounted.of_concat.2 with hfree | ⟨c, heard, k, hafter, hsuffix⟩
  · exact absurd hfree id
  obtain ⟨b, first, second, rfl, hlookUp, hdecided, hsound⟩ := heard_of_saving hafter
  -- Only the rule for a sign-up decides without a history, so the two kinds part here.
  have hon : ∃ e, es = [e] ∧ (⟨c, b, e⟩ : Commit).On (ofUser c.aggregateId log.saved) := by
    by_cases hc : c.kind = .createUser
    · obtain ⟨c, rfl⟩ := Command.exists_eq_createUser hc
      exact Commit.on_of_createUser hdecided hsound hbefore.truthful.gapless hs
    · obtain ⟨loaded, hload, hne, huser⟩ := heard_of_lookUp hc hlookUp
      have hmem : (π, ⟨.load c.aggregateId, .ok loaded⟩) ∈ log :=
        Log.mem_of_mem_heardAt (hsuffix.subset (List.mem_append_left _ hload))
      obtain ⟨later, hhistory⟩ := hbefore.truthful.loaded hmem
      exact Commit.on_of_loaded hc hdecided hsound hbefore.truthful.gapless hs hhistory hne huser
  obtain ⟨e, rfl, hon⟩ := hon
  exact ⟨⟨c, b, e⟩, rfl, hon, _, k, first, second, hsuffix, hafter, rfl, hlookUp⟩

/-! ## All saves -/

/-- Every log of decisions has commits. -/
theorem Log.Decided.commits {log : Log} (h : log.Decided) : ∃ ms, log.Commits ms := by
  induction log using List.reverseRecOn with
  | nil => exact ⟨[], .nil⟩
  | append_singleton log last ih =>
    obtain ⟨π, x⟩ := last
    obtain ⟨ms, hms⟩ := ih h.of_concat
    rcases x.saved_eq with hx | ⟨es, rfl⟩
    · exact ⟨ms, .other hms π hx⟩
    · obtain ⟨m, rfl, hon, hheard⟩ := h.commit
      exact ⟨ms ++ [m], .commit hms π hon hheard⟩

/-- One more decision that was saved. -/
theorem Commit.On.grown {m : Commit} {es : List Event} (hm : m.On es)
    (h : Grown m.command.aggregateId es) : Grown m.command.aggregateId (es ++ [m.event]) := by
  obtain ⟨c, b, e⟩ := m
  have hdecided : c.decide b.user b.fresh b.now = .ok [e] := Basis.decide_eq_ok hm.decided
  by_cases hkind : c.kind = .createUser
  · obtain ⟨c, rfl⟩ := Command.exists_eq_createUser hkind
    obtain ⟨s, hs, he⟩ := Command.decide_createUser hdecided
    obtain rfl := (List.cons.inj he).1
    obtain rfl := hm.signUp rfl
    exact .signUp hs b.now
  · obtain ⟨hne, huser⟩ := hm.current hkind
    have hreflects : b.user.Reflects c.aggregateId es := User.reflects_of_ofHistory h.gapless huser
    obtain ⟨d, hd, he⟩ := Command.decide_eq_ok hkind hdecided
    rw [hreflects.id_eq, hreflects.version_eq] at he
    obtain rfl := (List.cons.inj he).1
    exact .more h hne huser hd b.now

/-- All histories have grown in order. -/
theorem Log.Decided.grown {log : Log} (h : log.Decided) (id : String) :
    Grown id (ofUser id log.saved) := by
  induction log using List.reverseRecOn with
  | nil => exact .nil
  | append_singleton log last ih =>
    obtain ⟨π, x⟩ := last
    have hbefore : Grown id (ofUser id (Log.saved log)) := ih h.of_concat
    rw [Log.saved_append, Log.saved_singleton, ofUser_append]
    rcases x.saved_eq with hx | ⟨es, rfl⟩
    · rw [hx]
      simpa [ofUser] using hbefore
    · obtain ⟨m, rfl, hon, -⟩ := h.commit
      have hids : ∀ e ∈ [m.event], e.aggregateId = m.command.aggregateId := by
        simpa using hon.aggregateId_eq
      -- The history of anybody else stays as it is.
      by_cases hid : m.command.aggregateId = id
      · subst hid
        have hnew : ofUser m.command.aggregateId [m.event] = [m.event] := ofUser_of_forall hids
        rw [Exchange.saved, hnew]
        exact hon.grown hbefore
      · rw [Exchange.saved, ofUser_of_ne hid hids, List.append_nil]
        exact hbefore

/-! ## Pools -/

/-- Whatever moves are made in a pool that began with an empty store and in which nothing is saved
but decisions, the store holds the log, and the log is one of decisions. -/
theorem Pool.run_decided {ι : Type} {launch : ι → Activity}
    (hlaunch : ∀ x, SavesDecisions (launch x)) {w : Simulation.World} (hw : w.store = .empty)
    (moves : List (Move ι)) :
    let P := (empty w).run Simulation.World.surroundings launch moves
    P.state.store = .holding P.log.saved ∧ P.log.Decided := by
  have hfaithful := (faithful_empty hw).run launch moves
  have hwoven := (woven_empty w).run Simulation.World.surroundings moves fun x _ => hlaunch x
  exact ⟨hfaithful.store_eq, hfaithful.truthful, hwoven.accounted⟩

end Loyalty
