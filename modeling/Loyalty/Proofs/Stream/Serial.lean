import Loyalty.Proofs.Simulation.Turns
import Loyalty.Proofs.Stream.Commit

/-!
# Commands one at a time

The commits of a log are repeated one after the other, each alone: the same command, at the same
time and with the same newly made text, on the store that the one before it left. Since each of
them had been decided on the history as it was just before it was saved, it is decided in the same
way again, and nothing refuses to save it.

Main statement: however calls that carry out commands are interleaved, the commands that were saved
could have been carried out one at a time in the order of their saves.
-/

namespace Loyalty

open History Simulation Execution

namespace Commit

/-- A world with nothing but a store, in which the clock shows the time that the decision went by,
and what is newly made is what it went by. -/
def world (m : Commit) (s : EventStore) : World where
  store := s
  supply := ⟨fun _ => m.basis.now, fun _ => m.basis.fresh, fun _ => m.basis.fresh⟩

/-- Carries out the command again, alone, up to the publication. -/
def again (m : Commit) (s : EventStore) : Except Failure (List Event) × EventStore :=
  let (x, w) := World.attempt (persist m.command) (m.world s)
  (x, w.store)

/-- Carries out commands again, one after the other. -/
def serially : List Commit → EventStore → List (Except Failure (List Event)) × EventStore
  | [], s => ([], s)
  | m :: ms, s =>
    let (x, s) := m.again s
    let (xs, s) := serially ms s
    (x :: xs, s)

theorem serially_append (ms ms' : List Commit) (s : EventStore) :
    serially (ms ++ ms') s =
      ((serially ms s).1 ++ (serially ms' (serially ms s).2).1,
        (serially ms' (serially ms s).2).2) := by
  induction ms generalizing s with
  | nil => rfl
  | cons m ms ih => simp [serially, ih]

/-- The user is found again as the one that the decision went by, if the rule looks at the user. -/
theorem On.attempt_userFor {m : Commit} {es : List Event}
    (hm : m.On (ofUser m.command.aggregateId es)) (hes : ∀ id, Gapless (ofUser id es)) {w : World}
    (hw : w.faults .load = []) (hstore : w.store = .holding es) :
    ∃ u, World.attempt (userFor m.command) w = (.ok u, w) ∧
      ∀ fresh now, m.command.decide u fresh now = m.command.decide m.basis.user fresh now := by
  by_cases hkind : m.command.kind = .createUser
  · obtain ⟨c, b, e⟩ := m
    cases c with
    | createUser c => exact ⟨_, rfl, fun _ _ => rfl⟩
    | deleteUser | createReferral | completeReferral | earnPoints => cases hkind
  · obtain ⟨hne, huser⟩ := hm.current hkind
    refine ⟨m.basis.user, ?_, fun _ _ => rfl⟩
    rw [userFor_eq_load hkind, World.attempt_load hw hstore (hes _), if_neg hne, huser]

/-- A new text is made again as it was, if the rule looks at it. -/
theorem attempt_freshFor (c : Command) {w : World} {fresh : String}
    (hcode : ∀ n, w.supply.code n = fresh) (hid : ∀ n, w.supply.id n = fresh) :
    ∃ f w', World.attempt (freshFor c) w = (.ok f, w') ∧
      (∀ u now, c.decide u f now = c.decide u fresh now) ∧ w'.store = w.store ∧
        w'.faults = w.faults := by
  cases c with
  | createUser c =>
    exact ⟨_, _, rfl, fun u now => congrArg (Command.decide u · now (.createUser c)) (hcode _),
      rfl, rfl⟩
  | createReferral c =>
    exact ⟨_, _, rfl, fun u now => congrArg (Command.decide u · now (.createReferral c)) (hid _),
      rfl, rfl⟩
  | completeReferral c =>
    exact ⟨_, _, rfl, fun u now => congrArg (Command.decide u · now (.completeReferral c)) (hid _),
      rfl, rfl⟩
  | deleteUser c => exact ⟨_, _, rfl, fun _ _ => rfl, rfl, rfl⟩
  | earnPoints c => exact ⟨_, _, rfl, fun _ _ => rfl, rfl, rfl⟩

/-- The decision goes by the same again, as far as the rule looks, and is the same. -/
theorem On.attempt_lookUp {m : Commit} {es : List Event}
    (hm : m.On (ofUser m.command.aggregateId es)) (hes : ∀ id, Gapless (ofUser id es)) :
    ∃ b w, World.attempt (lookUp m.command) (m.world (.holding es)) = (.ok b, w) ∧
      b.decide m.command = .ok [m.event] ∧ w.store = .holding es ∧ ∀ op, w.faults op = [] := by
  have hnow : World.attempt Attempt.now (m.world (.holding es)) =
      (.ok m.basis.now, { m.world (.holding es) with readings := 1 }) := rfl
  obtain ⟨u, huser, hsame⟩ := @On.attempt_userFor m es hm hes
    { m.world (.holding es) with readings := 1 } rfl rfl
  obtain ⟨f, w, hfresh, hsame', hstore, hfaults⟩ := @attempt_freshFor m.command
    { m.world (.holding es) with readings := 1 } m.basis.fresh (fun _ => rfl) (fun _ => rfl)
  refine ⟨⟨m.basis.now, u, f⟩, w, ?_, ?_, hstore, fun op => by rw [hfaults]; rfl⟩
  · rw [lookUp, World.attempt_bind_of_ok hnow, World.attempt_bind_of_ok huser,
      World.attempt_bind_of_ok hfresh]
    rfl
  · rw [Basis.decide, hsame', hsame]
    exact hm.decided

/-- The event is stored again, alone, on the history on which it was decided. -/
theorem On.attempt_apply {m : Commit} {es : List Event}
    (hm : m.On (ofUser m.command.aggregateId es)) (hes : ∀ id, Grown id (ofUser id es)) {w : World}
    (hw : w.FaultFree) (hstore : w.store = .holding es) :
    ∃ applied w', World.attempt (Repository.apply [m.event]) w = (.ok applied, w') ∧
      w'.store = .holding (es ++ [m.event]) := by
  refine World.attempt_apply_singleton hw hstore (fun id => (hes id).gapless) ?_ hm.sound ?_
  · rw [hm.aggregateId_eq]
    intro hne
    by_cases hkind : m.command.kind = .createUser
    · exact absurd (hm.signUp hkind) hne
    · exact ⟨_, (hm.current hkind).2⟩
  · rw [hm.aggregateId_eq]
    exact (hm.grown (hes _)).gapless.version_eq List.getElem?_concat_length

/-- A commit can be repeated, alone, on the history on which it was made. -/
theorem On.again_eq {m : Commit} {es : List Event}
    (hm : m.On (ofUser m.command.aggregateId es)) (hes : ∀ id, Grown id (ofUser id es)) :
    m.again (.holding es) = (.ok [m.event], .holding (es ++ [m.event])) := by
  obtain ⟨b, w, hlookUp, hdecided, hstore, hfaults⟩ :=
    hm.attempt_lookUp fun id => (hes id).gapless
  have hevents : World.attempt (Attempt.ofExcept (b.decide m.command)) w = (.ok [m.event], w) := by
    rw [hdecided]
    rfl
  -- Nobody comes in between, so the history is still the one that was decided on.
  obtain ⟨applied, w', happly, hstore'⟩ := hm.attempt_apply hes hfaults hstore
  have hpersist : World.attempt (persist m.command) (m.world (.holding es)) =
      (.ok [m.event], w') := by
    rw [persist_eq, World.attempt_bind_of_ok hlookUp, World.attempt_bind_of_ok hevents, settle,
      World.attempt_bind_of_ok happly]
    rfl
  rw [again, hpersist]
  exact congrArg (Except.ok [m.event], ·) hstore'

end Commit

/-- The commits of a log can be repeated one at a time, and come to the same. -/
theorem Log.Commits.serially_eq {log : Log} {ms : List Commit} (h : log.Commits ms)
    (hlog : log.Decided) :
    Commit.serially ms .empty = (ms.map fun m => .ok [m.event], .holding log.saved) := by
  -- The commits before the last one have left the store that the log had just before it.
  induction h with
  | nil => rfl
  | other h π hx ih =>
    rw [ih hlog.of_concat, Log.saved_append, Log.saved_singleton, hx, List.append_nil]
  | @commit log ms h π m hm hheard ih =>
    have hbefore : log.Decided := hlog.of_concat
    have hagain : m.again (.holding log.saved) =
        (.ok [m.event], .holding (log.saved ++ [m.event])) := hm.again_eq hbefore.grown
    have hlast : Commit.serially [m] (.holding log.saved) =
        ([.ok [m.event]], .holding (log.saved ++ [m.event])) := by
      rw [Commit.serially, hagain]
      rfl
    rw [Commit.serially_append, ih hbefore, hlast, Log.saved_append, Log.saved_singleton,
      List.map_append]
    rfl

/-- **Commands are serializable.** Calls that carry out commands are started at any time and
interleaved in any way, over a store that is empty in the beginning and may fail at any time. What
is done for the publication does not matter as long as it saves nothing but decisions.

The commits of the log are all saves that succeeded, in order. Each was decided by a call that had
heard what the decision went by, on exactly the history as it was just before the save; and when
the commands are carried out one at a time in this order, at the same times and with the same newly
made texts, they save the same events and leave the same store. -/
theorem commands_serializable {publish : List Event → Activity}
    (hpublish : ∀ es, SavesDecisions (publish es)) (w : World) (moves : List (Move Command)) :
    let P := (Pool.empty { w with store := .empty }).run World.surroundings
      (Execution.handle publish) moves
    P.state.store = .holding P.log.saved ∧
      ∃ ms, P.log.Commits ms ∧
        Commit.serially ms .empty = (ms.map fun m => .ok [m.event], P.state.store) := by
  obtain ⟨hstore, hlog⟩ := Pool.run_decided (family_savesDecisions.handle hpublish)
    (w := { w with store := .empty }) rfl moves
  obtain ⟨ms, hms⟩ := hlog.commits
  exact ⟨hstore, ms, hms, by rw [hms.serially_eq hlog, hstore]⟩

/-- The same user is signed up twice, and both times the empty history is loaded before anything is
saved. -/
def signUpTwice : List (Move Command) :=
  let signUp : Command := .createUser ⟨"kim", "kim", "kim@example.org", none⟩
  [.start signUp, .start signUp] ++ List.replicate 3 (.go 0 []) ++ List.replicate 4 (.go 1 []) ++
    [.go 0 []]

/-- One of the two sign-ups was saved, and it could have been carried out alone. -/
theorem signUpTwice_serializable :
    (∀ es, SavesDecisions ((Wiring.standard RetryPolicy.standard).publish es)) ∧
      let P := (Pool.empty { ({} : World) with store := .empty }).run World.surroundings
        (Execution.handle (Wiring.standard RetryPolicy.standard).publish) signUpTwice
      P.state.store.records.length = 1 ∧ P.state.store = .holding P.log.saved ∧
        ∃ ms, P.log.Commits ms ∧
          Commit.serially ms .empty = (ms.map fun m => .ok [m.event], P.state.store) := by
  have hpublish := family_savesDecisions.wiring_publish RetryPolicy.standard
  exact ⟨hpublish, by decide +kernel, commands_serializable hpublish {} signUpTwice⟩

end Loyalty
