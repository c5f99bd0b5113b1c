import Loyalty.Process.Execution
import Loyalty.Proofs.User.Decision
import Loyalty.Proofs.User.Repository

/-!
# What a decision goes by

Carrying out a command is, up to the publication, three things in a row: finding out what the
decision goes by, deciding, and storing. What it goes by is a `Basis`: the time, the user as the
history tells, and a newly made text.

Main statement: a call that is about to save events has heard a basis first, and the events are
the decision on that basis.
-/

namespace Loyalty

instance : LawfulMonad Calls :=
  LawfulMonad.mk' Calls Calls.bind_done (fun _ _ => rfl) Calls.bind_assoc

/-- A request that does not ask to save anything. -/
def Request.IsNoSave : Request → Prop
  | .save _ => False
  | _ => True

/-- What is asked for to decide on a command: the history, the time and something newly made. -/
def Request.IsLookUp : Request → Prop
  | .load _ | .now | .freshCode | .freshId => True
  | _ => False

/-- What is asked for to carry out a command, up to the publication. -/
def Request.IsExecution : Request → Prop
  | .save _ => True
  | r => r.IsLookUp

theorem Request.IsLookUp.isExecution {r : Request} (hr : r.IsLookUp) : r.IsExecution := by
  cases r <;> trivial

theorem Request.IsLookUp.isNoSave {r : Request} (hr : r.IsLookUp) : r.IsNoSave := by
  cases r <;> trivial

namespace Execution

open Time

/-- What a decision goes by. -/
structure Basis where
  /-- the time -/
  now : Timestamp
  /-- the user -/
  user : User
  /-- a newly made text: the code of a new user, or the identity of a new referral -/
  fresh : String

namespace Basis

/-- The decision on a command. -/
def decide (b : Basis) (c : Command) : Except Failure (List Event) :=
  (c.decide b.user b.fresh b.now).mapError Failure.ofRejection

end Basis

/-- The user whom a command is about; who signs up has nothing to load. -/
def userFor : Command → Attempt User
  | .createUser c => pure (User.new c.userId)
  | c => Repository.load c.aggregateId

/-- The newly made text that a command needs, if it needs one. -/
def freshFor : Command → Attempt String
  | .createUser _ => Attempt.freshCode
  | .createReferral _ => Attempt.freshId
  | .completeReferral _ => Attempt.freshId
  | .deleteUser _ => pure ""
  | .earnPoints _ => pure ""

/-- Finds out what the decision on a command goes by. -/
def lookUp (c : Command) : Attempt Basis := do
  let now ← Attempt.now
  let user ← userFor c
  let fresh ← freshFor c
  pure ⟨now, user, fresh⟩

/-- Stores the events that were decided. -/
def settle (events : List Event) : Attempt (List Event) := do
  let _ ← Repository.apply events
  pure events

/-- Carrying out a command, up to the publication. -/
theorem persist_eq (c : Command) :
    persist c = (do
      let b ← lookUp c
      let events ← Attempt.ofExcept (b.decide c)
      settle events) := by
  cases c <;>
    simp only [persist, decision, lookUp, userFor, freshFor, settle, bind_assoc, pure_bind] <;> rfl

/-! ## What was heard -/

theorem userFor_eq_load {c : Command} (hc : c.kind ≠ .createUser) :
    userFor c = Repository.load c.aggregateId := by
  cases c with
  | createUser c => exact absurd rfl hc
  | deleteUser | createReferral | completeReferral | earnPoints => rfl

theorem only_lookUp (c : Command) : (lookUp c).run.Only Request.IsLookUp := by
  have huser : (userFor c).run.Only Request.IsLookUp := by
    cases c with
    | createUser c => exact True.intro
    | deleteUser | createReferral | completeReferral | earnPoints =>
      exact (Repository.only_load _).mono fun r hr => by cases r <;> trivial
  have hfresh : (freshFor c).run.Only Request.IsLookUp := by
    cases c with
    | createUser | createReferral | completeReferral => exact ⟨True.intro, fun _ => True.intro⟩
    | deleteUser | earnPoints => exact True.intro
  have hnow : Attempt.now.run.Only Request.IsLookUp := ⟨True.intro, fun _ => True.intro⟩
  exact Attempt.only_bind hnow fun _ => Attempt.only_bind huser fun _ =>
    Attempt.only_bind hfresh fun _ => True.intro

theorem only_execution (c : Command) : (persist c).run.Only Request.IsExecution := by
  have hlookUp := (only_lookUp c).mono fun _ => Request.IsLookUp.isExecution
  rw [persist_eq]
  refine Attempt.only_bind hlookUp fun b => ?_
  have hdecision : (Attempt.ofExcept (b.decide c)).run.Only Request.IsExecution := True.intro
  refine Attempt.only_bind hdecision fun events => ?_
  have happly : (Repository.apply events).run.Only Request.IsExecution :=
    (Repository.only_apply events).mono fun r hr => by cases r <;> trivial
  exact Attempt.only_bind happly fun _ => True.intro

/-- The user of a basis is the replay of a history that was heard. -/
theorem heard_of_lookUp {c : Command} (hc : c.kind ≠ .createUser) {heard : List Exchange}
    {b : Basis} (h : (lookUp c).run.After heard (.done (.ok b))) :
    ∃ es, ⟨.load c.aggregateId, .ok es⟩ ∈ heard ∧ es ≠ [] ∧
      User.ofHistory c.aggregateId es = .ok b.user := by
  obtain ⟨now, first, rest, rfl, -, h⟩ := Attempt.after_bind_ok h
  obtain ⟨user, second, rest, rfl, huser, h⟩ := Attempt.after_bind_ok h
  obtain ⟨fresh, third, rest, rfl, -, h⟩ := Attempt.after_bind_ok h
  obtain ⟨rfl, hb⟩ := h.of_done
  cases hb
  rw [userFor_eq_load hc] at huser
  obtain ⟨es, rfl, hne, hes⟩ := Repository.heard_of_load huser
  exact ⟨es, by simp, hne, hes⟩

theorem Basis.decide_eq_ok {b : Basis} {c : Command} {es : List Event}
    (h : b.decide c = .ok es) : c.decide b.user b.fresh b.now = .ok es := by
  rw [decide] at h
  cases hc : c.decide b.user b.fresh b.now with
  | error r =>
    rw [hc] at h
    cases h
  | ok fs =>
    rw [hc] at h
    cases h
    rfl

/-- A decision is on one event. -/
theorem Basis.eq_singleton_of_decide {b : Basis} {c : Command} {es : List Event}
    (h : b.decide c = .ok es) : ∃ e, es = [e] := by
  have hc : c.decide b.user b.fresh b.now = .ok es := decide_eq_ok h
  by_cases hkind : c.kind = .createUser
  · obtain ⟨c, rfl⟩ := Command.exists_eq_createUser hkind
    obtain ⟨s, -, rfl⟩ := Command.decide_createUser hc
    exact ⟨_, rfl⟩
  · obtain ⟨d, -, rfl⟩ := Command.decide_eq_ok hkind hc
    exact ⟨_, rfl⟩

/-- Nobody signs up but by a command to do so. -/
theorem Basis.not_created_of_decide {b : Basis} {c : Command} (hc : c.kind ≠ .createUser) {e : Event}
    (h : b.decide c = .ok [e]) : e.type ≠ .userCreated := by
  obtain ⟨d, hd, he⟩ := Command.decide_eq_ok hc (decide_eq_ok h)
  rw [(List.cons.inj he).1]
  exact hd.not_created

/-- A decision is on the user whom the command is about, provided that it is this user who was
looked at. -/
theorem Basis.aggregateId_eq {b : Basis} {c : Command} {e : Event} (h : b.decide c = .ok [e])
    (hid : c.kind ≠ .createUser → b.user.id = c.aggregateId) : e.aggregateId = c.aggregateId := by
  by_cases hc : c.kind = .createUser
  · obtain ⟨c, rfl⟩ := Command.exists_eq_createUser hc
    obtain ⟨s, -, he⟩ := Command.decide_createUser (decide_eq_ok h)
    rw [(List.cons.inj he).1]
    rfl
  · obtain ⟨d, -, he⟩ := Command.decide_eq_ok hc (decide_eq_ok h)
    rw [(List.cons.inj he).1]
    exact hid hc

/-- A sign-up is the first event of a history. -/
theorem Basis.version_of_createUser {b : Basis} {c : Command} (hc : c.kind = .createUser) {e : Event}
    (h : b.decide c = .ok [e]) : e.version = 1 := by
  obtain ⟨c, rfl⟩ := Command.exists_eq_createUser hc
  obtain ⟨s, -, he⟩ := Command.decide_createUser (decide_eq_ok h)
  rw [(List.cons.inj he).1]
  rfl

/-- A call that is about to save has heard a basis before anything else, and what it is about to
save is the decision on this basis. -/
theorem heard_of_saving {c : Command} {heard : List Exchange} {es : List Event}
    {k : (Request.save es).Answer → Calls (Except Failure (List Event))}
    (h : (persist c).run.After heard (.call (.save es) k)) :
    ∃ b first second, heard = first ++ second ∧ (lookUp c).run.After first (.done (.ok b)) ∧
      b.decide c = .ok es ∧ Repository.batchFault? es = none := by
  rw [persist_eq] at h
  -- Whoever finds out what to go by does not save, and whoever decides asks for nothing.
  rcases Attempt.after_bind_call h with ⟨k', hk'⟩ | ⟨b, first, rest, rfl, hlookUp, h⟩
  · exact absurd (hk'.allowed (only_lookUp c)) id
  refine ⟨b, first, rest, rfl, hlookUp, ?_⟩
  rcases Attempt.after_bind_call h with ⟨k', hk'⟩ | ⟨decided, second, rest, rfl, hdecided, h⟩
  · cases hk'.of_done.2
  rcases Attempt.after_bind_call h with ⟨k', hk'⟩ | ⟨_, third, rest, rfl, -, h⟩
  · have hdecision : b.decide c = .ok decided := (Calls.done.inj hdecided.of_done.2).symm
    obtain ⟨e, rfl⟩ := Basis.eq_singleton_of_decide hdecision
    obtain ⟨hes, hfault⟩ := Repository.saved_of_apply hk'
    rw [History.sorted_eq_self (List.pairwise_singleton _ e)] at hes
    subst hes
    exact ⟨hdecision, hfault⟩
  · cases h.of_done.2

end Execution

end Loyalty
