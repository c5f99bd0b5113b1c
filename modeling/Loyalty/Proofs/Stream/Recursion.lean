import Loyalty.Proofs.Process.Footprint
import Loyalty.Proofs.Process.Nesting
import Loyalty.Proofs.Simulation.Passage
import Loyalty.Proofs.Simulation.Sincerity
import Loyalty.Proofs.Stream.Dispatch

/-!
# What one command can set off

A command that is dispatched is carried out, its event is published, and a sign-up makes the rewards
dispatch further commands. A reward that fails is tried again from its beginning, with commands that
may have been carried out before. All the same there is a bound on what one command can set off.
Carrying out a command saves one event at most, of the user whom the command is about. A sign-up is
followed by three commands for each time that the rewards may be tried, and these are about the new
user or about a user whom the read model named for the code of the sign-up. None of them signs
anybody up, so they set off nothing further.

This holds whatever is answered, and so for all states and for all failures.

Main statement: the bound, for a command that is dispatched alone or among others.
-/

namespace Loyalty

open History Simulation Activity

/-! ## What is saved, and for whom -/

/-- At most `n` events were saved, all of users who are concerned. Who is concerned may depend on
what was heard. -/
structure Adds (concerned : List Exchange → String → Prop) (n : Nat) (heard : List Exchange) :
    Prop where
  /-- there are not more than `n` -/
  length_le : (heard.flatMap Exchange.saved).length ≤ n
  /-- each is of a user who is concerned -/
  concerned : ∀ e ∈ heard.flatMap Exchange.saved, concerned heard e.aggregateId

/-- Who is concerned stays so when more is heard. -/
def Remembered (concerned : List Exchange → String → Prop) : Prop :=
  ∀ ⦃heard heard' : List Exchange⦄ ⦃id : String⦄, heard ⊆ heard' → concerned heard id →
    concerned heard' id

theorem saved_of_isNoSave {x : Exchange} (h : x.request.IsNoSave) : x.saved = [] := by
  rcases x.saved_eq with hnone | ⟨es, rfl⟩
  · exact hnone
  · exact h.elim

theorem Adds.of_saved_eq_nil {concerned : List Exchange → String → Prop} {heard : List Exchange}
    (h : heard.flatMap Exchange.saved = []) (n : Nat) : Adds concerned n heard :=
  ⟨by simp [h], by simp [h]⟩

theorem tally_adds {concerned : List Exchange → String → Prop} (h : Remembered concerned) :
    Tally (Adds concerned) where
  nil := .of_saved_eq_nil rfl 0
  append {n m first second} hfirst hsecond := by
    constructor
    · rw [List.flatMap_append, List.length_append]
      exact Nat.add_le_add hfirst.length_le hsecond.length_le
    · intro e he
      rw [List.flatMap_append] at he
      rcases List.mem_append.1 he with he | he
      · exact h (List.subset_append_left _ _) (hfirst.concerned e he)
      · exact h (List.subset_append_right _ _) (hsecond.concerned e he)
  perm {n heard heard'} hperm hheard := by
    have hsaved := hperm.flatMap_right Exchange.saved
    constructor
    · rw [← hsaved.length_eq]
      exact hheard.length_le
    · intro e he
      exact h hperm.subset (hheard.concerned e (hsaved.mem_iff.2 he))
  mono hle hheard := ⟨Nat.le_trans hheard.length_le hle, hheard.concerned⟩
  free {x} hx := .of_saved_eq_nil (by simp [saved_of_isNoSave hx]) 0

/-- Nobody but these is concerned, whatever is heard. -/
abbrev Fixed (ids : String → Prop) : List Exchange → String → Prop :=
  fun _ => ids

theorem tally_fixed (ids : String → Prop) : Tally (Adds (Fixed ids)) :=
  tally_adds fun _ _ _ _ h => h

/-- Who is among them is concerned, and nothing was saved before. -/
theorem Adds.of_fixed {ids : String → Prop} {concerned : List Exchange → String → Prop} {n m : Nat}
    {heard : List Exchange} (h : Adds (Fixed ids) n heard) (before : List Exchange) (hle : n ≤ m)
    (hbefore : before.flatMap Exchange.saved = [])
    (hids : ∀ id, ids id → concerned (before ++ heard) id) : Adds concerned m (before ++ heard) := by
  have hsaved : (before ++ heard).flatMap Exchange.saved = heard.flatMap Exchange.saved := by
    rw [List.flatMap_append, hbefore, List.nil_append]
  constructor
  · rw [hsaved]
    exact Nat.le_trans h.length_le hle
  · rw [hsaved]
    exact fun e he => hids _ (h.concerned e he)

theorem Calls.After.trans {α : Type} {p q r : Calls α} {first second : List Exchange}
    (h : p.After first q) (h' : q.After second r) : p.After (first ++ second) r := by
  induction h with
  | start => exact h'
  | heard _ ih => exact .heard (ih h')

namespace Execution

/-- Carrying out a command saves one event at most, of the user whom the command is about. -/
theorem adds_of_persist {c : Command} {heard : List Exchange}
    {q : Calls (Except Failure (List Event))} (h : (persist c).run.After heard q) :
    Adds (Fixed (· = c.aggregateId)) 1 heard := by
  -- Whatever it has come to, it can be brought to its end.
  obtain ⟨later, hlater, -⟩ := q.hears_run World.surroundings {}
  have hwhole : Adds (Fixed (· = c.aggregateId)) 1 (heard ++ later) := by
    rcases heard_of_persist (h.trans hlater) with ⟨e, b, -, hsaved, -, hid, -⟩ | ⟨f, -, hsaved, -⟩
    · exact ⟨by simp [hsaved], by simpa [hsaved] using hid⟩
    · exact .of_saved_eq_nil hsaved 1
  have hpart : (heard ++ later).flatMap Exchange.saved =
      heard.flatMap Exchange.saved ++ later.flatMap Exchange.saved := List.flatMap_append
  constructor
  · have hle := hwhole.length_le
    rw [hpart, List.length_append] at hle
    omega
  · intro e he
    exact hwhole.concerned e (hpart ▸ List.mem_append_left _ he)

end Execution

/-! ## Commands that sign nobody up -/

namespace Projection

theorem stays_handle (e : Event) : (handler.handle e).Stays Request.IsNoSave fun _ => True :=
  ((frame_stays fun _ h => h).projection).handle e

theorem stays_sync (id : String) : (handler.sync id).Stays Request.IsNoSave fun _ => True :=
  ((frame_stays fun _ h => h).projection).sync id

/-- Telling the projection of an event saves nothing. -/
theorem costs_deliver {Q : Nat → List Exchange → Prop} (hQ : Tally Q) (b : Bus) (e : Event)
    (number : Nat) : Costs Q 0 (b.deliver e ⟨number, handler⟩) := by
  have hdeliver := hQ.costs_deliver b (s := ⟨number, handler⟩)
    (hQ.costs_of_stays (stays_sync e.aggregateId)) (hQ.costs_of_stays (stays_handle e))
  rwa [Nat.zero_mul] at hdeliver

end Projection

namespace Wiring

variable (policy : RetryPolicy)

/-- What a command costs, when publishing its event costs so much. -/
theorem costs_dispatch_over {Q : Nat → List Exchange → Prop} (hQ : Tally Q) {n m : Nat} (bus : Bus)
    {c : Command} (hpersist : ∀ heard q, (Execution.persist c).run.After heard q → Q n heard)
    (hpublish : ∀ heard e, (Execution.persist c).run.After heard (.done (.ok [e])) →
      Text.isBlank e.aggregateId = false → Costs Q m (bus.publish [e])) :
    Costs Q (n + m) (((standard policy).dispatcherOver bus).dispatch c) := by
  rw [dispatch_over]
  split
  · exact hQ.costs_mono (Nat.zero_le _) (hQ.costs_done _)
  · refine hQ.costs_mapFailure (hQ.costs_ofCalls hpersist fun heard x hx => ?_) _
    rcases Execution.heard_of_persist hx with ⟨e, b, rfl, -, -, -, hsound⟩ | ⟨f, rfl, -⟩
    · exact hpublish heard e hx (Repository.batchFault?_eq_none_iff.1 hsound).1
    · exact hQ.costs_mono (Nat.zero_le _) (hQ.costs_done _)

/-- A command that signs nobody up saves one event at most, of the user whom it is about. -/
theorem adds_dispatch_over (d : Command → Activity) {c : Command} (hc : c.kind ≠ .createUser) :
    Costs (Adds (Fixed (· = c.aggregateId))) 1
      (((standard policy).dispatcherOver ((standard policy).busOver d)).dispatch c) := by
  have hQ := tally_fixed (· = c.aggregateId)
  refine costs_dispatch_over policy hQ (m := 0) _ (fun _ _ => Execution.adds_of_persist)
    fun heard e he hid => ?_
  obtain ⟨e', hes, htype⟩ := Execution.type_of_persisted hc he
  obtain rfl : e = e' := (List.cons.inj hes).1
  rw [publish_of_not_created policy d hid htype]
  exact hQ.costs_andThen (Projection.costs_deliver hQ _ e 0) (hQ.costs_done _)

end Wiring

/-! ## Signing up -/

/-- The code that somebody signs up with. -/
def Command.givenCode? : Command → Option String
  | .createUser c => User.givenCode c.referredByCode
  | _ => none

/-- Whom a command concerns: the user whom it is about, and those whom the read model named for the
code that it gives. -/
def Command.Concerns (c : Command) (heard : List Exchange) (id : String) : Prop :=
  id = c.aggregateId ∨
    ∃ code ∈ c.givenCode?, ∃ p, ⟨.userByReferralCode code, .ok p⟩ ∈ heard ∧ id = p.userId

theorem Command.remembered_concerns (c : Command) : Remembered c.Concerns := by
  rintro heard heard' id hsub (hid | ⟨code, hcode, p, hp, hid⟩)
  · exact .inl hid
  · exact .inr ⟨code, hcode, p, hsub hp, hid⟩

/-- How many events a command may bring about, with all that it sets off. -/
def Command.allowance (policy : RetryPolicy) : Command → Nat
  | .createUser _ => 1 + 3 * (policy.maxRetry + 1)
  | _ => 1

namespace Reward

variable {d : Command → Activity}

/-- Commands that are given one after the other, each of which saves one event at most. -/
theorem adds_carryOut {ids : String → Prop} {cs : List Command}
    (hd : ∀ c ∈ cs, Costs (Adds (Fixed (· = c.aggregateId))) 1 (d c))
    (hids : ∀ c ∈ cs, ids c.aggregateId) :
    Costs (Adds (Fixed ids)) cs.length (carryOut d cs) := by
  have hcosts : Costs (Adds (Fixed ids)) (cs.length * 1) (carryOut d cs) := by
    refine (tally_fixed ids).costs_carryOut fun c hc heard b h => ?_
    exact (hd c hc heard b h).of_fixed [] (Nat.le_refl 1) rfl
      fun id hid => hid ▸ hids c hc
  rwa [Nat.mul_one] at hcosts

/-- Rewarding a sign-up takes three commands at most, about users whom the sign-up concerns. -/
theorem adds_rewardSignUp
    (hd : ∀ c : Command, c.kind ≠ .createUser → Costs (Adds (Fixed (· = c.aggregateId))) 1 (d c))
    (c : CreateUser) (fresh : String) :
    Costs (Adds (Command.createUser c).Concerns) 3 (rewardSignUp d c.userId (c.signUp fresh)) := by
  have hcode : (c.signUp fresh).referredByCode = (Command.createUser c).givenCode? := rfl
  rw [rewardSignUp]
  intro heard b h
  split at h
  · have hadds : Adds (Fixed (· = c.userId)) 1 heard :=
      adds_carryOut (fun c' hc' => hd c' (kind_of_mem_planWithoutCode hc'))
        (by simp [planWithoutCode, earn, Command.aggregateId]) heard b h
    exact hadds.of_fixed [] (by decide) rfl fun id hid => .inl hid
  · next code hsome =>
    have hlookup : (Calls.ask (.userByReferralCode code)).Only Request.IsNoSave :=
      ⟨True.intro, fun _ => True.intro⟩
    rcases h.of_ofCalls with ⟨q, hq, -⟩ | ⟨x, first, second, rfl, hfirst, hsecond⟩
    · exact .of_saved_eq_nil (hlookup.saved_eq_nil hq) 3
    · obtain rfl := hfirst.of_ask_done
      cases x with
      | error f =>
        obtain ⟨rfl, -⟩ := hsecond.of_done
        exact .of_saved_eq_nil rfl 3
      | ok p =>
        -- The commands are about the user whom the read model has just named, and the new user.
        have hadds : Adds (Fixed fun id => id = c.userId ∨ id = p.userId) 3 second :=
          adds_carryOut (fun c' hc' => hd c' (kind_of_mem_planWithCode hc'))
            (by simp [planWithCode, earn, Command.aggregateId]) second b hsecond
        refine hadds.of_fixed _ (Nat.le_refl 3) rfl ?_
        rintro id (hid | hid)
        · exact .inl hid
        · exact .inr ⟨code, hcode ▸ hsome, p, by simp, hid⟩

/-- So does the reaction to the event of a sign-up. -/
theorem adds_handle
    (hd : ∀ c : Command, c.kind ≠ .createUser → Costs (Adds (Fixed (· = c.aggregateId))) 1 (d c))
    {c : CreateUser} {b : Execution.Basis} {e : Event} (he : b.decide (.createUser c) = .ok [e]) :
    Costs (Adds (Command.createUser c).Concerns) 3 (Reward.handle d e) := by
  obtain ⟨hchecked, hes⟩ := Command.decide_createUser_eq (Execution.Basis.decide_eq_ok he)
  rw [(List.cons.inj hes).1, Reward.handle, Event.decode_ofChange hchecked]
  exact adds_rewardSignUp hd c b.fresh

end Reward

namespace Wiring

variable (policy : RetryPolicy)

/-- What a sign-up comes to, with all that it sets off. -/
theorem adds_signUp_over {d : Command → Activity}
    (hd : ∀ c : Command, c.kind ≠ .createUser → Costs (Adds (Fixed (· = c.aggregateId))) 1 (d c))
    (c : CreateUser) :
    Costs (Adds (Command.createUser c).Concerns) (1 + 3 * (policy.maxRetry + 1))
      (((standard policy).dispatcherOver ((standard policy).busOver d)).dispatch
        (.createUser c)) := by
  have hQ := tally_adds (Command.createUser c).remembered_concerns
  refine costs_dispatch_over policy hQ _ (fun heard q hq => ?_) fun heard e he hid => ?_
  · exact (Execution.adds_of_persist hq).of_fixed [] (Nat.le_refl 1) rfl
      fun id hid => .inl hid
  · obtain ⟨e', b, hes, -, hdecide, -, -⟩ | ⟨f, hf, -⟩ := Execution.heard_of_persist he
    · obtain rfl : e = e' := (List.cons.inj (Except.ok.inj hes)).1
      obtain ⟨-, hevent⟩ := Command.decide_createUser_eq (Execution.Basis.decide_eq_ok hdecide)
      have htype : e.type = .userCreated := by
        rw [(List.cons.inj hevent).1]
        rfl
      rw [publish_of_created policy d hid htype]
      have hreward := hQ.costs_deliver ((standard policy).busOver d) (e := e)
        (s := ⟨1, Reward.handler d⟩) (hQ.costs_done (.ok ())) (Reward.adds_handle hd hdecide)
      have hprojection := Projection.costs_deliver hQ ((standard policy).busOver d) e 0
      have hpublish := hQ.costs_andThen (hQ.costs_fork hprojection hreward hQ.costs_done)
        (hQ.costs_done (.ok ()))
      rw [Nat.zero_add] at hpublish
      exact hpublish
    · cases hf

/-- What a command comes to, with all that it sets off. -/
theorem adds_dispatch (c : Command) :
    Costs (Adds c.Concerns) (c.allowance policy) ((standard policy).dispatch c) := by
  by_cases hc : c.kind = .createUser
  · obtain ⟨c, rfl⟩ := Command.exists_eq_createUser hc
    exact adds_signUp_over policy (d := (standard policy).dispatchReward)
      (fun c' hc' => adds_dispatch_over policy _ hc') c
  · intro heard b h
    have hallowance : c.allowance policy = 1 := by
      cases c with
      | createUser => exact absurd rfl hc
      | deleteUser | createReferral | completeReferral | earnPoints => rfl
    rw [hallowance]
    exact (adds_dispatch_over policy (standard policy).dispatchReward hc heard b h).of_fixed
      [] (Nat.le_refl 1) rfl fun id hid => .inl hid

end Wiring

namespace Runtime

/-- The streams after something happened, as far as they belong to a user. -/
theorem stream_of_hears {w w' : World} {heard : List Exchange}
    (h : World.surroundings.Hears w heard w') (id : String) :
    w'.store.stream id =
      w.store.stream id ++ (ofUser id (heard.flatMap Exchange.saved)).map Event.toRecord := by
  rw [World.store_of_hears h, EventStore.stream_adding, ofUser, List.filter_map]
  rfl

/-- **What one command can set off is bounded.** A command is dispatched in any state that can be
reached, alone or among others. How commands would be dispatched by commands that are themselves
given within a command does not matter, since there are none; and a command that signs nobody up
has none within it either. The dispatch cannot go on for ever and can be brought to its end at any
time. All that it saves, at any time and with all that it sets off, keeps within its allowance and
belongs to users whom it concerns; when it is alone, no other streams change. -/
theorem dispatch_bounded (policy : RetryPolicy) (w : World) (moves more : List (Move Command))
    (c : Command) :
    let around (d : Command → Activity) : Command → Activity :=
      ((Wiring.standard policy).dispatcherOver ((Wiring.standard policy).busOver d)).dispatch
    let P := reached policy w moves
    let Q := reached policy w (moves ++ .start c :: more)
    let alone := World.perform ((Wiring.standard policy).dispatch c) P.state
    (∀ d, around (around d) = (Wiring.standard policy).dispatch) ∧
      (∀ d c', c'.kind = .createUser ∨ around d c' = (Wiring.standard policy).dispatch c') ∧
      (∃ b later, Q.members[P.members.length]? = some b ∧ Q.log = P.log ++ later ∧
        Adds c.Concerns (c.allowance policy) (Log.by later P.members.length) ∧ b.Ends ∧
        ∃ finish o, (reached policy w (moves ++ .start c :: more ++ finish)).members[
          P.members.length]? = some (.done o)) ∧
      ∃ heard, ((Wiring.standard policy).dispatch c).After heard (.done alone.1) ∧
        World.surroundings.Hears P.state heard alone.2 ∧
        Adds c.Concerns (c.allowance policy) heard ∧ ∀ id,
          alone.2.store.stream id = P.state.store.stream id ++
            (ofUser id (heard.flatMap Exchange.saved)).map Event.toRecord ∧
          (alone.2.store.stream id = P.state.store.stream id ∨ c.Concerns heard id) := by
  intro around P Q alone
  have huncrowded := family_uncrowded.wiring_dispatch policy c
  refine ⟨Wiring.dispatch_twice_over policy, fun d c' => ?_, ?_, ?_⟩
  · by_cases hc : c'.kind = .createUser
    · exact .inl hc
    · exact .inr (Wiring.dispatch_of_ne policy d _ hc)
  · obtain ⟨b, later, hb, hlog, -, hafter⟩ := Pool.after_started World.surroundings
      (Wiring.standard policy).dispatch P c huncrowded more
    rw [← reached_append] at hb hlog
    refine ⟨b, later, hb, hlog, Wiring.adds_dispatch policy c _ b hafter,
      (hafter.uncrowded huncrowded).ends, ?_⟩
    have hreaches : Q.Reaches World.surroundings (Wiring.standard policy).dispatch
        P.members.length (.done (b.run World.surroundings Q.state).1) _ :=
      Pool.reaches_run hb (hafter.uncrowded huncrowded)
    obtain ⟨finish, hfinish, -⟩ := hreaches
    refine ⟨finish, (b.run World.surroundings Q.state).1, ?_⟩
    rw [reached_append, hfinish]
    exact List.getElem?_set_self (List.getElem?_eq_some_iff.1 hb).1
  · obtain ⟨heard, hafter, hhears⟩ := hears_run World.surroundings huncrowded P.state
    have hadds := Wiring.adds_dispatch policy c heard _ hafter
    refine ⟨heard, hafter, hhears, hadds, fun id => ⟨stream_of_hears hhears id, ?_⟩⟩
    rw [or_iff_not_imp_right]
    intro hid
    have hnone : ofUser id (heard.flatMap Exchange.saved) = [] := by
      refine List.filter_eq_nil_iff.2 fun e he hown => hid ?_
      exact of_decide_eq_true hown ▸ hadds.concerned e he
    have hstream := stream_of_hears hhears id
    rwa [hnone, List.map_nil, List.append_nil] at hstream

end Runtime

end Loyalty
