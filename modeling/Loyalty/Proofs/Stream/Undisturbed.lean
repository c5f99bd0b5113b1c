import Loyalty.Proofs.ReadModel.Newest
import Loyalty.Proofs.Stream.Serial

/-!
# Commands that are carried out undisturbed

When nobody interferes and no operation fails, there is no room between looking up a user and saving
the decision. The time, the user and the newly made text are those that the world has to offer at
this moment, and the rule has the last word: if what it decides on can be saved at all, it is saved.

Main statement: a command that is carried out undisturbed, up to the publication, is committed on the
history of its user exactly as it is, or no commit of it is possible.
-/

namespace Loyalty

open History Simulation Execution

/-- A request by which neither a profile is changed nor it is noted that a subscription has caught
up. -/
def Request.IsNoProjection : Request → Prop
  | .write _ => False
  | .markSynced .. => False
  | _ => True

theorem Request.IsNoProjection.isNoWrite {r : Request} (hr : r.IsNoProjection) : r.IsNoWrite := by
  cases r <;> trivial

/-- The text that a world makes for a command. -/
def Simulation.World.textFor (w : World) : Command → String
  | .createUser _ => w.supply.code w.codes
  | .createReferral _ => w.supply.id w.ids
  | .completeReferral _ => w.supply.id w.ids
  | .deleteUser _ => ""
  | .earnPoints _ => ""

/-- The decision went by the time and the text that a world has to offer. -/
structure Commit.GoesBy (m : Commit) (w : World) : Prop where
  /-- the time -/
  now_eq : m.basis.now = w.supply.time w.readings
  /-- the newly made text -/
  fresh_eq : m.basis.fresh = w.textFor m.command

namespace Execution

/-- The user whom a command is about, given the history. -/
def userOf (c : Command) (es : List Event) : Except Failure User :=
  match c with
  | .createUser c => .ok (User.new c.userId)
  | c => if es = [] then .error (.notFound c.aggregateId) else User.ofHistory c.aggregateId es

theorem userOf_of_ne {c : Command} (hc : c.kind ≠ .createUser) (es : List Event) :
    userOf c es =
      if es = [] then .error (.notFound c.aggregateId) else User.ofHistory c.aggregateId es := by
  cases c with
  | createUser c => exact absurd rfl hc
  | deleteUser | createReferral | completeReferral | earnPoints => rfl

/-- What is decided on a command, given what a world has to offer and the history of the user. -/
def decisionOn (w : World) (c : Command) (es : List Event) : Except Failure (List Event) :=
  userOf c es >>= fun u => Basis.decide ⟨w.supply.time w.readings, u, w.textFor c⟩ c

/-- Up to the publication nothing is projected. -/
theorem noProjection_persist (c : Command) : (persist c).run.Only Request.IsNoProjection :=
  (only_execution c).mono fun r hr => by cases r <;> trivial

end Execution

namespace Simulation.World

variable {w : World} {es : List Event}

/-! ## Looking up -/

theorem attempt_userFor (hw : w.FaultFree) (hstore : w.store = .holding es)
    (hes : ∀ id, Gapless (ofUser id es)) (c : Command) :
    attempt (userFor c) w = (userOf c (ofUser c.aggregateId es), w) := by
  by_cases hc : c.kind = .createUser
  · obtain ⟨c, rfl⟩ := Command.exists_eq_createUser hc
    rfl
  · rw [userFor_eq_load hc, userOf_of_ne hc, attempt_load (hw _) hstore (hes _)]

theorem attempt_freshFor (w : World) (c : Command) :
    ∃ w', attempt (freshFor c) w = (.ok (w.textFor c), w') ∧ w'.store = w.store ∧
      w'.faults = w.faults ∧ (c.kind = .createUser → w'.codes = w.codes + 1) := by
  cases c with
  | createUser c => exact ⟨_, rfl, rfl, rfl, fun _ => rfl⟩
  | createReferral | completeReferral | deleteUser | earnPoints =>
    exact ⟨_, rfl, rfl, rfl, nofun⟩

/-- What a decision goes by is what the world has to offer and what the history tells. -/
theorem attempt_lookUp (hw : w.FaultFree) (hstore : w.store = .holding es)
    (hes : ∀ id, Gapless (ofUser id es)) (c : Command) :
    ∃ w', attempt (lookUp c) w =
        ((userOf c (ofUser c.aggregateId es)).map fun u =>
          ⟨w.supply.time w.readings, u, w.textFor c⟩, w') ∧
      w'.store = w.store ∧ w'.FaultFree ∧
        (c.kind = .createUser → w'.codes = w.codes + 1) := by
  have hnow : attempt Attempt.now w =
      (.ok (w.supply.time w.readings), { w with readings := w.readings + 1 }) := rfl
  have huser := attempt_userFor (w := { w with readings := w.readings + 1 }) hw hstore hes c
  rw [lookUp, attempt_bind_of_ok hnow, attempt_bind, huser]
  cases hu : userOf c (ofUser c.aggregateId es) with
  | error f =>
    refine ⟨_, rfl, rfl, hw, fun hc => ?_⟩
    obtain ⟨c, rfl⟩ := Command.exists_eq_createUser hc
    cases hu
  | ok u =>
    obtain ⟨w', hfresh, hstore', hfaults, hcodes⟩ :=
      attempt_freshFor { w with readings := w.readings + 1 } c
    refine ⟨w', ?_, hstore', fun op => by rw [hfaults]; exact hw op, hcodes⟩
    simp only
    rw [attempt_bind_of_ok hfresh]
    cases c <;> rfl

/-- A decision is made, and if there is one it is stored. -/
theorem attempt_persist (hw : w.FaultFree) (hstore : w.store = .holding es)
    (hes : ∀ id, Gapless (ofUser id es)) (c : Command) :
    ∃ w', attempt (persist c) w =
        (match decisionOn w c (ofUser c.aggregateId es) with
          | .ok events => attempt (settle events) w'
          | .error f => (.error f, w')) ∧
      w'.store = w.store ∧ w'.FaultFree ∧ (c.kind = .createUser → w'.codes = w.codes + 1) := by
  obtain ⟨w', hlookUp, hrest⟩ := attempt_lookUp hw hstore hes c
  refine ⟨w', ?_, hrest⟩
  rw [persist_eq, attempt_bind, hlookUp, decisionOn]
  cases userOf c (ofUser c.aggregateId es) with
  | error f => rfl
  | ok u =>
    show attempt (Attempt.ofExcept (Basis.decide _ c) >>= settle) w' = _
    rw [attempt_bind]
    change _ = match Basis.decide ⟨w.supply.time w.readings, u, w.textFor c⟩ c with
      | .ok events => attempt (settle events) w'
      | .error f => (.error f, w')
    generalize Basis.decide ⟨w.supply.time w.readings, u, w.textFor c⟩ c = decided
    cases decided with
    | ok events => rfl
    | error f => rfl

/-! ## Storing -/

/-- An event with which something is wrong by itself. -/
theorem attempt_apply_of_fault {e : Event} {f : Failure}
    (h : Repository.batchFault? [e] = some f) (w : World) :
    attempt (Repository.apply [e]) w = (.error f, w) := by
  have hsorted : sorted [e] = [e] := sorted_eq_self (List.pairwise_singleton _ e)
  rw [attempt, Repository.run_apply_of_fault (by rw [hsorted, h])]
  rfl

theorem answer_save_of_error (hw : w.FaultFree) {batch : List Event} {f : Failure}
    (h : w.store.save batch = .error f) :
    w.answer (.save batch) = (.error f, w.note (.saving batch)) := by
  rw [answer, save_of_no_fault (hw _), h]

/-- An event that does not follow the history of its user is refused. -/
theorem attempt_apply_of_ne (hw : w.FaultFree) (hstore : w.store = .holding es) {e : Event}
    (hes : Gapless (ofUser e.aggregateId es))
    (hversion : e.version ≠ (ofUser e.aggregateId es).length + 1) :
    ∃ f w', attempt (Repository.apply [e]) w = (.error f, w') ∧ w'.store = w.store := by
  have hsorted : sorted [e] = [e] := sorted_eq_self (List.pairwise_singleton _ e)
  cases hfault : Repository.batchFault? [e] with
  | some f => exact ⟨f, w, attempt_apply_of_fault hfault w, rfl⟩
  | none =>
    have hload : w.answer (.load e.aggregateId) = (.ok (ofUser e.aggregateId es), w) :=
      load_eq (hw _) hstore hes
    have hrun : attempt (Repository.apply [e]) w =
        Calls.run surroundings (Repository.conclusion e [] (.ok (ofUser e.aggregateId es))) w := by
      rw [attempt, Repository.run_apply hsorted hfault, Calls.run_call]
      exact congrArg (fun p : Except Failure (List Event) × World =>
        Calls.run surroundings (Repository.conclusion e [] p.1) p.2) hload
    rw [hrun, Repository.conclusion]
    split
    · exact ⟨_, w, rfl, rfl⟩
    split
    · -- Whatever version the history shows, the store compares with its length.
      have hlast : w.store.lastVersion e.aggregateId = (ofUser e.aggregateId es).length := by
        rw [hstore, EventStore.lastVersion_holding hes]
      have hsave := @EventStore.save_of_ne w.store e [] (by simp) (by rw [hlast]; exact hversion)
      rw [Calls.run_call]
      exact ⟨_, _, congrArg (fun p : Outcome × World => (p.1.map fun _ =>
        (⟨e.aggregateId, lastVersion [e]⟩ : Repository.Applied), p.2))
        (answer_save_of_error hw hsave), rfl⟩
    · exact ⟨_, w, rfl, rfl⟩

/-! ## Both -/

/-- How a command has been carried out undisturbed, up to the publication: how it ended, and the
world that it left. -/
inductive Undisturbed (w : World) (es : List Event) (c : Command) :
    Except Failure (List Event) × World → Prop where
  /-- the decision was saved, and waits to be projected -/
  | stored {m : Commit} {w' : World} (hc : m.command = c) (hm : m.On (ofUser c.aggregateId es))
    (hbasis : m.GoesBy w) (hw' : At (es ++ [m.event]) es w')
    (hcodes : c.kind = .createUser → w.codes < w'.codes) : Undisturbed w es c (.ok [m.event], w')
  /-- there was nothing that could be saved -/
  | refused {f : Failure} {w' : World} (hw' : At es es w')
    (hnone : ∀ m : Commit, m.command = c → m.GoesBy w → ¬ m.On (ofUser c.aggregateId es)) :
    Undisturbed w es c (.error f, w')

/-- A decision that was saved is the one that there is on the history. -/
theorem decisionOn_of_on {m : Commit} {c : Command} (hc : m.command = c)
    (hm : m.On (ofUser c.aggregateId es)) (hbasis : m.GoesBy w) :
    decisionOn w c (ofUser c.aggregateId es) = .ok [m.event] := by
  subst hc
  have hdecided := hm.decided
  by_cases hkind : m.command.kind = .createUser
  · obtain ⟨c, ⟨now, u, fresh⟩, e⟩ := m
    obtain ⟨c, rfl⟩ := Command.exists_eq_createUser hkind
    obtain rfl : now = w.supply.time w.readings := hbasis.now_eq
    obtain rfl : fresh = w.textFor (.createUser c) := hbasis.fresh_eq
    exact hdecided
  · obtain ⟨hne, hu⟩ := hm.current hkind
    rw [decisionOn, userOf_of_ne hkind, if_neg hne, hu, ← hbasis.now_eq, ← hbasis.fresh_eq]
    exact hdecided

/-- Who is looked at, unless somebody signs up, is the user of whom the history tells. -/
theorem current_of_userOf {c : Command} {u : User}
    (hu : userOf c (ofUser c.aggregateId es) = .ok u) (hc : c.kind ≠ .createUser) :
    ofUser c.aggregateId es ≠ [] ∧ User.ofHistory c.aggregateId (ofUser c.aggregateId es) = .ok u := by
  rw [userOf_of_ne hc] at hu
  split at hu
  · cases hu
  · next hne => exact ⟨hne, hu⟩

/-- Storing a decision on the user of whom the history tells. It is stored unless something is wrong
with the event by itself, or somebody signs up who has a history. -/
theorem attempt_settle (hw : w.FaultFree) (hstore : w.store = .holding es)
    (hes : ∀ id, Grown id (ofUser id es)) {c : Command} {b : Basis} {e : Event}
    (hdecided : b.decide c = .ok [e]) (hu : userOf c (ofUser c.aggregateId es) = .ok b.user) :
    (∃ w', attempt (settle [e]) w = (.ok [e], w') ∧ w'.store = .holding (es ++ [e]) ∧
        (⟨c, b, e⟩ : Commit).On (ofUser c.aggregateId es)) ∨
      ∃ f w', attempt (settle [e]) w = (.error f, w') ∧ w'.store = .holding es ∧
        (Repository.batchFault? [e] ≠ none ∨
          c.kind = .createUser ∧ ofUser c.aggregateId es ≠ []) := by
  have hsettle : ∀ {x w'}, attempt (Repository.apply [e]) w = (x, w') →
      attempt (settle [e]) w = (x.map fun _ => [e], w') := by
    intro x w' happly
    rw [settle, attempt_bind, happly]
    cases x <;> rfl
  have hcurrent := current_of_userOf hu
  have hid : e.aggregateId = c.aggregateId :=
    Basis.aggregateId_eq hdecided fun hc => User.id_of_ofHistory (hcurrent hc).2
  cases hsound : Repository.batchFault? [e] with
  | some f =>
    exact .inr ⟨f, w, hsettle (attempt_apply_of_fault hsound w), hstore, .inl (Option.some_ne_none f)⟩
  | none =>
    by_cases hsignUp : c.kind = .createUser → ofUser c.aggregateId es = []
    · have hm : Commit.On ⟨c, b, e⟩ (ofUser c.aggregateId es) :=
        ⟨hdecided, hid, hsound, hsignUp, hcurrent⟩
      obtain ⟨applied, w', happly, hstore'⟩ := hm.attempt_apply hes hw hstore
      exact .inl ⟨w', hsettle happly, hstore', hm⟩
    · obtain ⟨hc, hne⟩ := Classical.not_imp.1 hsignUp
      -- A sign-up has version 1, and there are events before it.
      have hversion : e.version = 1 := Basis.version_of_createUser hc hdecided
      have hlength : 0 < (ofUser e.aggregateId es).length := by
        rw [hid]
        exact List.length_pos_iff.2 hne
      obtain ⟨f, w', happly, hstore'⟩ :=
        attempt_apply_of_ne hw hstore (hes e.aggregateId).gapless (by omega)
      exact .inr ⟨f, w', hsettle happly, hstore'.trans hstore, .inr ⟨hc, hne⟩⟩

/-- Histories after a decision was saved. -/
theorem grown_concat {m : Commit} (hm : m.On (ofUser m.command.aggregateId es))
    (hes : ∀ id, Grown id (ofUser id es)) (id : String) : Grown id (ofUser id (es ++ [m.event])) := by
  by_cases hid : id = m.event.aggregateId
  · subst hid
    rw [ofUser_concat_self, hm.aggregateId_eq]
    exact hm.grown (hes _)
  · rw [ofUser_concat_of_ne es hid]
    exact hes id

/-- How a command is carried out, up to the publication, when no operation fails: the decision is
committed on the history of its user as it is, if that is possible. -/
theorem attempt_persist_settled (hw : w.FaultFree) (hstore : w.store = .holding es)
    (hes : ∀ id, Grown id (ofUser id es)) (c : Command) :
    (∃ (m : Commit) (w' : World), attempt (Execution.persist c) w = (.ok [m.event], w') ∧ m.command = c ∧
        m.On (ofUser c.aggregateId es) ∧ m.GoesBy w ∧ w'.store = .holding (es ++ [m.event]) ∧
        (∀ id, Grown id (ofUser id (es ++ [m.event]))) ∧
        (c.kind = .createUser → w.codes < w'.codes)) ∨
      ∃ (f : Failure) (w' : World), attempt (Execution.persist c) w = (.error f, w') ∧
        w'.store = .holding es ∧
        ∀ m : Commit, m.command = c → m.GoesBy w → ¬ m.On (ofUser c.aggregateId es) := by
  obtain ⟨w₁, hpersist, hstore₁, hw₁, hcodes⟩ := attempt_persist hw hstore (fun id => (hes id).gapless) c
  rw [hstore] at hstore₁
  cases hdecision : decisionOn w c (ofUser c.aggregateId es) with
  | error f =>
    rw [hdecision] at hpersist
    refine .inr ⟨f, w₁, hpersist, hstore₁, fun m hc hbasis hm => ?_⟩
    cases hdecision.symm.trans (decisionOn_of_on hc hm hbasis)
  | ok events =>
    obtain ⟨u, hu, hdecided⟩ := eq_ok_of_bind hdecision
    obtain ⟨e, rfl⟩ := Basis.eq_singleton_of_decide hdecided
    rw [hdecision] at hpersist
    rcases attempt_settle hw₁ hstore₁ hes hdecided hu with
      ⟨w', hsettled, hstore', hm⟩ | ⟨f, w', hsettled, hstore', hfault⟩
    · refine .inl ⟨⟨c, _, e⟩, w', hpersist.trans hsettled, rfl, hm, ⟨rfl, rfl⟩, hstore',
        grown_concat hm hes, fun hc => ?_⟩
      have hle : w₁.codes ≤ (attempt (settle [e]) w₁).2.codes := by
        obtain ⟨heard, -, hhears⟩ := Calls.hears_run surroundings (settle [e]).run w₁
        exact (onward_of_hears hhears).codes_le
      rw [hsettled, hcodes hc] at hle
      exact hle
    · refine .inr ⟨f, w', hpersist.trans hsettled, hstore', fun m hc hbasis hm => ?_⟩
      cases hdecision.symm.trans (decisionOn_of_on hc hm hbasis)
      rcases hfault with hunsound | ⟨hkind, hne⟩
      · exact hunsound hm.sound
      · exact hne (hm.signUp (hc ▸ hkind))

/-- What is not touched when a command is carried out, up to the publication. -/
theorem untouched_persist (hw : w.FaultFree) {c : Command} {x : Except Failure (List Event)}
    {w' : World} (hrun : attempt (Execution.persist c) w = (x, w')) :
    w'.FaultFree ∧ w'.readModel = w.readModel ∧ w'.synced = w.synced := by
  obtain ⟨heard, hafter, hhears⟩ := Calls.hears_run surroundings (Execution.persist c).run w
  obtain rfl : (Calls.run surroundings (Execution.persist c).run w).2 = w' := congrArg Prod.snd hrun
  have honly := Execution.noProjection_persist c
  refine ⟨hw.hears hhears, readModel_of_hears hhears ?_, synced_of_hears hhears fun x hx => ?_⟩
  · exact (honly.mono fun _ => Request.IsNoProjection.isNoWrite).written_eq_nil hafter
  · obtain ⟨before, k, hasked⟩ := hafter.asked hx
    have hallowed := hasked.allowed honly
    intro subscription id hrequest
    rw [hrequest] at hallowed
    exact hallowed

/-- **A command that is carried out undisturbed**, up to the publication, is committed on the history
of its user as it is, if that is possible. -/
theorem At.persist (h : At es es w) (c : Command) :
    Undisturbed w es c (attempt (Execution.persist c) w) := by
  have hat : ∀ {saved x w'}, attempt (Execution.persist c) w = (x, w') → w'.store = .holding saved →
      (∀ id, Grown id (ofUser id saved)) → At saved es w' := by
    intro saved x w' hrun hstore hgrown
    obtain ⟨hfaultFree, hmodel, -⟩ := untouched_persist h.faultFree hrun
    exact ⟨hfaultFree, hstore, hgrown, fun id => hmodel ▸ h.current id⟩
  rcases attempt_persist_settled h.faultFree h.store_eq h.grown c with
    ⟨m, w', hrun, hc, hm, hbasis, hstore, hgrown, hcodes⟩ | ⟨f, w', hrun, hstore, hnone⟩
  · rw [hrun]
    exact .stored hc hm hbasis (hat hrun hstore hgrown) hcodes
  · rw [hrun]
    exact .refused (hat hrun hstore h.grown) hnone

end Simulation.World

end Loyalty
