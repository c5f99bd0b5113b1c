import Loyalty.Proofs.Process.Execution
import Loyalty.Proofs.Simulation.Truth

/-!
# How carrying out a command ends

Up to the publication, a command is carried out by requests of which the last, and no other, is that
to save. So when it succeeds the one event of the decision has just been saved, and when it fails
nothing was.

It fails with a failure of its own or with one that it was answered. None of its own is that of a
delivery, since it delivers nothing; so if the store answers with none of these either, a failed
delivery tells that the command was carried out up to there.

Main statement: both of this, for a command that has been carried out up to the publication.
-/

namespace Loyalty

/-- The failure is that of a delivery. -/
def Failure.IsPublish : Failure → Prop
  | publish .. => True
  | _ => False

/-- The event store did not answer with the failure of a delivery. -/
def Exchange.Sincere : Exchange → Prop
  | ⟨.save _, .error f⟩ => ¬ f.IsPublish
  | ⟨.load _, .error f⟩ => ¬ f.IsPublish
  | _ => True

/-- A process by which nothing is saved. -/
theorem Calls.Only.saved_eq_nil {α : Type} {p q : Calls α} (hp : p.Only Request.IsNoSave)
    {heard : List Exchange} (h : p.After heard q) : heard.flatMap Exchange.saved = [] := by
  induction p generalizing heard with
  | done a => rw [h.of_done.1, List.flatMap_nil]
  | call r k ih =>
    rcases h.of_call with ⟨rfl, -⟩ | ⟨x, rest, rfl, hrest⟩
    · rfl
    · rw [List.flatMap_cons, ih x (hp.2 x) hrest, List.append_nil]
      rcases Exchange.saved_eq ⟨r, x⟩ with hsaved | ⟨es, hsave⟩
      · exact hsaved
      · cases hsave
        exact False.elim hp.1

/-! ## Failures of one's own -/

namespace User

theorem not_isPublish_of_ofHistory {id : String} {es : List Event} {f : Failure}
    (h : ofHistory id es = .error f) : ¬ f.IsPublish := by
  obtain ⟨e, reason, rfl⟩ := exists_invalidPayload_of_ofHistory h
  exact not_false

/-- An event is of the user to whom it is applied, as far as the identity goes. -/
theorem id_of_applyEvent {u v : User} {e : Event} (h : u.applyEvent e = .ok v) : v.id = u.id := by
  obtain ⟨c, w, -, hw, rfl⟩ := applyEvent_eq_ok_iff.1 h
  exact (effect_change hw).id_eq

/-- A history, whatever it is, replays to the user of the given identity. -/
theorem id_of_ofHistory {id : String} {es : List Event} {u : User}
    (h : ofHistory id es = .ok u) : u.id = id := by
  have happly : ∀ (es : List Event) (v : User), (v.applyInOrder es).result = .ok u → u.id = v.id := by
    intro es
    induction es with
    | nil =>
      intro v hv
      cases hv
      rfl
    | cons e es ih =>
      intro v hv
      rw [applyInOrder] at hv
      split at hv
      · next v' hv' => exact (ih v' hv).trans (id_of_applyEvent hv')
      · cases hv
  exact happly _ (new id) h

end User

namespace Attempt

variable {α β : Type}

/-- As long as the store is sincere, an attempt does not fail as a delivery does. -/
def Sincere (m : Attempt α) : Prop :=
  ∀ heard f, m.run.After heard (.done (.error f)) → (∀ x ∈ heard, x.Sincere) → ¬ f.IsPublish

theorem sincere_ofExcept {x : Except Failure α} (h : ∀ f, x = .error f → ¬ f.IsPublish) :
    (ofExcept x).Sincere := by
  intro heard f hafter _
  exact h f (Calls.done.inj hafter.of_done.2).symm

theorem Sincere.bind {m : Attempt α} {g : α → Attempt β} (hm : m.Sincere)
    (hg : ∀ a, (g a).Sincere) : (m >>= g).Sincere := by
  intro heard f hafter hheard
  rw [run_bind] at hafter
  obtain ⟨x, first, second, rfl, hfirst, hsecond⟩ := hafter.of_bind_done
  cases x with
  | error f' =>
    obtain ⟨-, hf⟩ := hsecond.of_done
    cases hf
    exact hm first f hfirst fun y hy => hheard y (List.mem_append_left _ hy)
  | ok a => exact hg a second f hsecond fun y hy => hheard y (List.mem_append_right _ hy)

theorem sincere_load (id : String) : (Attempt.load id).Sincere := by
  intro heard f hafter hheard
  obtain rfl : heard = [⟨.load id, .error f⟩] := Calls.After.of_ask_done hafter
  exact hheard _ (List.mem_singleton_self _)

/-- What cannot fail. -/
theorem sincere_lift (m : Calls α) : Attempt.Sincere (ExceptT.lift m) := by
  intro heard f hafter _
  obtain ⟨x, first, second, -, -, hx⟩ := Calls.After.of_bind_done hafter
  cases hx.of_done.2

end Attempt

namespace Repository

theorem sincere_load (id : String) : (load id).Sincere := by
  refine (Attempt.sincere_load id).bind fun history => ?_
  split
  · refine Attempt.sincere_ofExcept fun f hf => ?_
    cases hf
    exact not_false
  · exact Attempt.sincere_ofExcept fun f => User.not_isPublish_of_ofHistory

/-- The version of a history that was loaded, or the failure to load it. -/
theorem not_isPublish_of_shownVersion {id : String} {answer : Except Failure (List Event)}
    {f : Failure} (h : shownVersion id answer = .error f)
    (hanswer : Exchange.Sincere ⟨.load id, answer⟩) : ¬ f.IsPublish := by
  have hunless : ∀ {g}, versionUnless g = .error f → g = f := by
    intro g hg
    rw [versionUnless] at hg
    split at hg
    · cases hg
    · exact Except.error.inj hg
  unfold shownVersion at h
  split at h
  · obtain rfl := hunless h
    exact hanswer
  · cases h
  · split at h
    · next g hg =>
      obtain rfl := hunless h
      exact User.not_isPublish_of_ofHistory hg
    · cases h

theorem not_isPublish_of_batchFault? {batch : List Event} {f : Failure}
    (h : batchFault? batch = some f) : ¬ f.IsPublish := by
  cases batch with
  | nil =>
    cases h
    exact not_false
  | cons e es =>
    rw [batchFault?] at h
    split at h
    · cases h
      exact not_false
    · obtain ⟨stray, -, rfl⟩ := Option.map_eq_some_iff.1 h
      exact not_false

/-- How storing one event has ended: it was saved, or nothing was. -/
theorem heard_of_apply {e : Event} {heard : List Exchange} {x : Except Failure Applied}
    (h : (apply [e]).run.After heard (.done x)) :
    (∃ a, x = .ok a ∧ heard.flatMap Exchange.saved = [e] ∧ batchFault? [e] = none) ∨
      ∃ f, x = .error f ∧ heard.flatMap Exchange.saved = [] ∧
        ((∀ y ∈ heard, y.Sincere) → ¬ f.IsPublish) := by
  have hsorted : History.sorted [e] = [e] := History.sorted_eq_self (List.pairwise_singleton _ e)
  cases hfault : batchFault? [e] with
  | some f =>
    rw [run_apply_of_fault (by rw [hsorted, hfault])] at h
    obtain ⟨rfl, hx⟩ := h.of_done
    cases hx
    exact .inr ⟨f, rfl, rfl, fun _ => not_isPublish_of_batchFault? hfault⟩
  | none =>
    rw [run_apply hsorted hfault] at h
    rcases h.of_call with ⟨-, hq⟩ | ⟨answer, rest, rfl, hrest⟩
    · cases hq
    -- After the history the batch is saved, or it is refused without being saved.
    rw [conclusion] at hrest
    split at hrest
    · next f hf =>
      obtain ⟨rfl, hx⟩ := hrest.of_done
      cases hx
      refine .inr ⟨f, rfl, rfl, fun hheard => ?_⟩
      exact not_isPublish_of_shownVersion hf (hheard _ (List.mem_singleton_self _))
    split at hrest
    · rcases hrest.of_call with ⟨-, hq⟩ | ⟨y, last, rfl, hlast⟩
      · cases hq
      obtain ⟨rfl, hx⟩ := hlast.of_done
      cases hx
      cases y with
      | ok u => exact .inl ⟨_, rfl, rfl, rfl⟩
      | error f =>
        refine .inr ⟨f, rfl, rfl, fun hheard => ?_⟩
        exact hheard ⟨.save [e], .error f⟩ (by simp)
    · obtain ⟨rfl, hx⟩ := hrest.of_done
      cases hx
      exact .inr ⟨_, rfl, rfl, fun _ => not_false⟩

end Repository

/-! ## Carrying out a command -/

namespace Execution

theorem sincere_lookUp (c : Command) : (lookUp c).Sincere := by
  have hpure : ∀ {α : Type} (a : α), (pure a : Attempt α).Sincere := by
    intro α a
    exact Attempt.sincere_ofExcept (x := .ok a) nofun
  have huser : (userFor c).Sincere := by
    cases c with
    | createUser c => exact hpure _
    | deleteUser | createReferral | completeReferral | earnPoints =>
      exact Repository.sincere_load _
  have hfresh : (freshFor c).Sincere := by
    cases c with
    | createUser | createReferral | completeReferral => exact Attempt.sincere_lift _
    | deleteUser | earnPoints => exact hpure _
  exact (Attempt.sincere_lift _).bind fun now => huser.bind fun u => hfresh.bind fun fresh =>
    hpure _

/-- A rule does not fail as a delivery does. -/
theorem Basis.not_isPublish_of_decide {b : Basis} {c : Command} {f : Failure}
    (h : b.decide c = .error f) : ¬ f.IsPublish := by
  rw [decide] at h
  cases hr : c.decide b.user b.fresh b.now with
  | ok es =>
    rw [hr] at h
    cases h
  | error r =>
    rw [hr] at h
    cases h
    cases r <;> exact not_false

/-- The event of a decision is of the user whom the command is about. -/
theorem aggregateId_of_decide {c : Command} {b : Basis} {e : Event} {heard : List Exchange}
    (hlookUp : (lookUp c).run.After heard (.done (.ok b))) (h : b.decide c = .ok [e]) :
    e.aggregateId = c.aggregateId := by
  refine Basis.aggregateId_eq h fun hc => ?_
  obtain ⟨es, -, -, huser⟩ := heard_of_lookUp hc hlookUp
  exact User.id_of_ofHistory huser

/-- How storing a decision has ended. -/
theorem heard_of_settle {e : Event} {heard : List Exchange} {x : Except Failure (List Event)}
    (h : (settle [e]).run.After heard (.done x)) :
    (x = .ok [e] ∧ heard.flatMap Exchange.saved = [e] ∧ Repository.batchFault? [e] = none) ∨
      ∃ f, x = .error f ∧ heard.flatMap Exchange.saved = [] ∧
        ((∀ y ∈ heard, y.Sincere) → ¬ f.IsPublish) := by
  rw [settle, Attempt.run_bind] at h
  obtain ⟨applied, first, last, rfl, happly, hlast⟩ := h.of_bind_done
  rw [List.flatMap_append]
  rcases Repository.heard_of_apply happly with ⟨a, rfl, hsaved, hfault⟩ | ⟨f, rfl, hsaved, hf⟩
  · obtain ⟨rfl, hx⟩ := hlast.of_done
    cases hx
    rw [hsaved]
    exact .inl ⟨rfl, rfl, hfault⟩
  · obtain ⟨rfl, hx⟩ := hlast.of_done
    cases hx
    rw [hsaved]
    exact .inr ⟨f, rfl, rfl, fun hheard => hf fun y hy => hheard y (by simp [hy])⟩

/-- **How carrying out a command has ended, up to the publication.** The event that was decided on
was saved and nothing else was, or nothing was saved and the failure is not that of a delivery. -/
theorem heard_of_persist {c : Command} {heard : List Exchange}
    {x : Except Failure (List Event)} (h : (persist c).run.After heard (.done x)) :
    (∃ (e : Event) (b : Basis), x = .ok [e] ∧ heard.flatMap Exchange.saved = [e] ∧ b.decide c = .ok [e] ∧
        e.aggregateId = c.aggregateId ∧ Repository.batchFault? [e] = none) ∨
      ∃ f, x = .error f ∧ heard.flatMap Exchange.saved = [] ∧
        ((∀ y ∈ heard, y.Sincere) → ¬ f.IsPublish) := by
  rw [persist_eq, Attempt.run_bind] at h
  obtain ⟨looked, first, rest, rfl, hlookUp, h⟩ := h.of_bind_done
  have hnothing := ((only_lookUp c).mono fun _ => Request.IsLookUp.isNoSave).saved_eq_nil hlookUp
  rw [List.flatMap_append, hnothing, List.nil_append]
  cases looked with
  | error f =>
    obtain ⟨rfl, hx⟩ := h.of_done
    cases hx
    exact .inr ⟨f, rfl, rfl, fun hheard => sincere_lookUp c first f hlookUp fun y hy =>
      hheard y (by simp [hy])⟩
  | ok b =>
    change ((Attempt.ofExcept (b.decide c) >>= settle).run).After rest (.done x) at h
    cases hdecide : b.decide c with
    | error f =>
      rw [hdecide] at h
      obtain ⟨rfl, hx⟩ := h.of_done
      cases hx
      exact .inr ⟨f, rfl, rfl, fun _ => Basis.not_isPublish_of_decide hdecide⟩
    | ok es =>
      obtain ⟨e, rfl⟩ := Basis.eq_singleton_of_decide hdecide
      rw [hdecide] at h
      rcases heard_of_settle h with ⟨rfl, hsaved, hfault⟩ | ⟨f, rfl, hsaved, hf⟩
      · exact .inl ⟨e, b, rfl, hsaved, hdecide, aggregateId_of_decide hlookUp hdecide, hfault⟩
      · exact .inr ⟨f, rfl, hsaved, fun hheard => hf fun y hy => hheard y (by simp [hy])⟩

end Execution

end Loyalty
