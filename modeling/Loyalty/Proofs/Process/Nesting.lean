import Loyalty.Process.Wiring
import Loyalty.Proofs.Process.Execution

/-!
# Commands within commands

The whole program is wired to itself: the rewards have their commands carried out by the very
dispatcher that carried out the sign-up. `Wiring.dispatch` is built without going round in a circle,
in two levels.

A command that signs nobody up decides on an event that is no sign-up, of which the rewards are not
told; so it does not matter to it how they dispatch. As the rewards give no other commands, it
matters to a sign-up only how those are carried out.

Main statement: two levels are enough. Whatever is put in place of a third, they make the dispatcher
of the whole program.
-/

namespace Loyalty

/-- What follows a process matters only as far as the process can come to a result. -/
theorem Activity.ofCalls_congr {α : Type} {m : Calls α} {g g' : α → Activity}
    (h : ∀ heard x, m.After heard (.done x) → g x = g' x) : ofCalls m g = ofCalls m g' := by
  induction m with
  | done x => exact h [] x (.start _)
  | call r k ih =>
    refine congrArg (call r) (funext fun y => ih y fun heard x hx => ?_)
    exact h _ x (.heard hx)

namespace Execution

/-- Who carries out a command that signs nobody up does not publish a sign-up. -/
theorem type_of_persisted {c : Command} (hc : c.kind ≠ .createUser) {heard : List Exchange}
    {es : List Event} (h : (persist c).run.After heard (.done (.ok es))) :
    ∃ e, es = [e] ∧ e.type ≠ .userCreated := by
  rw [persist_eq] at h
  obtain ⟨b, first, rest, rfl, -, h⟩ := Attempt.after_bind_ok h
  obtain ⟨decided, second, rest, rfl, hdecided, h⟩ := Attempt.after_bind_ok h
  obtain ⟨applied, third, rest, rfl, -, h⟩ := Attempt.after_bind_ok h
  obtain ⟨rfl, hes⟩ := h.of_done
  cases hes
  have hdecision : b.decide c = .ok es := (Calls.done.inj hdecided.of_done.2).symm
  obtain ⟨e, rfl⟩ := Basis.eq_singleton_of_decide hdecision
  exact ⟨e, rfl, Basis.not_created_of_decide hc hdecision⟩

theorem handle_congr {publish publish' : List Event → Activity} {c : Command}
    (hc : c.kind ≠ .createUser)
    (h : ∀ e : Event, e.type ≠ .userCreated → publish [e] = publish' [e]) :
    handle publish c = handle publish' c := by
  refine Activity.ofCalls_congr fun heard x hx => ?_
  cases x with
  | error f => rfl
  | ok es =>
    obtain ⟨e, rfl, he⟩ := type_of_persisted hc hx
    exact h e he

end Execution

/-! ## Rewards -/

namespace Reward

variable {d d' : Command → Activity}

theorem carryOut_congr {cs : List Command} (h : ∀ c ∈ cs, d c = d' c) :
    carryOut d cs = carryOut d' cs := by
  induction cs with
  | nil => rfl
  | cons c cs ih =>
    rw [carryOut, carryOut, h c List.mem_cons_self, ih fun c hc => h c (List.mem_cons_of_mem _ hc)]

/-- The rewards sign nobody up. -/
theorem handler_congr (h : ∀ c, c.kind ≠ .createUser → d c = d' c) :
    Reward.handler d = Reward.handler d' := by
  have hwithout (userId : String) :
      carryOut d (planWithoutCode userId) = carryOut d' (planWithoutCode userId) :=
    carryOut_congr fun c hc => h c (kind_of_mem_planWithoutCode hc)
  have hwith (userId email code referrer : String) :
      carryOut d (planWithCode userId email code referrer) =
        carryOut d' (planWithCode userId email code referrer) :=
    carryOut_congr fun c hc => h c (kind_of_mem_planWithCode hc)
  have hsignUp (userId : String) (s : SignUp) :
      rewardSignUp d userId s = rewardSignUp d' userId s := by
    simp only [rewardSignUp, hwithout, hwith]
  have hhandle : handle d = handle d' := by
    funext e
    simp only [handle, hsignUp]
  rw [handler, handler, hhandle]

end Reward

namespace Wiring

variable (policy : RetryPolicy) {d d' : Command → Activity}

/-- The bus of the whole program depends on how those commands are carried out that sign nobody
up, and on nothing else. -/
theorem busOver_congr (h : ∀ c, c.kind ≠ .createUser → d c = d' c) :
    (standard policy).busOver d = (standard policy).busOver d' := by
  simp only [busOver, standard, List.map_cons, List.map_nil, Listener.handler,
    Reward.handler_congr h]

/-- The rewards are told of nothing but sign-ups. -/
theorem publish_of_ne (d d' : Command → Activity) {e : Event} (he : e.type ≠ .userCreated) :
    ((standard policy).busOver d).publish [e] = ((standard policy).busOver d').publish [e] := by
  have hsubscriptions : ((standard policy).busOver d).subscriptions e.type =
      ((standard policy).busOver d').subscriptions e.type := by
    generalize e.type = t at he ⊢
    cases t with
    | userCreated => exact absurd rfl he
    | userDeleted | userReferralCreated | userReferralCompleted | pointsEarned => rfl
  simp only [Bus.publish, Bus.publishOne, hsubscriptions]
  rfl

/-- Every command goes to the one who carries out all of them. -/
theorem dispatch_over (bus : Bus) (c : Command) :
    ((standard policy).dispatcherOver bus).dispatch c =
      if Text.isBlank c.aggregateId then .fail .blankId
      else (Execution.handle bus.publish c).mapFailure (.dispatch c.kind c.aggregateId) := by
  cases c <;> rfl

/-- How a command is carried out that signs nobody up does not depend on the rewards. -/
theorem dispatch_of_ne (d d' : Command → Activity) {c : Command} (hc : c.kind ≠ .createUser) :
    ((standard policy).dispatcherOver ((standard policy).busOver d)).dispatch c =
      ((standard policy).dispatcherOver ((standard policy).busOver d')).dispatch c := by
  rw [dispatch_over, dispatch_over,
    Execution.handle_congr hc fun _ he => publish_of_ne policy d d' he]

/-- **The program is wired to itself.** What the commands given within commands that are given within
a command might set off does not matter: there are none. -/
theorem dispatch_twice_over (d : Command → Activity) :
    ((standard policy).dispatcherOver ((standard policy).busOver
      ((standard policy).dispatcherOver ((standard policy).busOver d)).dispatch)).dispatch =
        (standard policy).dispatch := by
  have hbus : (standard policy).busOver
      ((standard policy).dispatcherOver ((standard policy).busOver d)).dispatch =
        (standard policy).bus :=
    busOver_congr policy fun c hc => dispatch_of_ne policy d _ hc
  rw [hbus]
  rfl

end Wiring

end Loyalty
