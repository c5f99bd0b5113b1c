import Loyalty.Proofs.Process.Grounds
import Loyalty.Proofs.ReadModel.Prefix
import Loyalty.Proofs.Stream.Dispatch

/-!
# On what grounds the program writes to the read model

The projection is told of events after they were saved, and it catches up on a user only when it
finds that it has not done so before. So there are two grounds on which an event may be written: it
was saved a while ago, by whoever publishes it, or it was loaded by somebody to whom the
subscription was said not to have caught up.

Main statement: in every state that the running program can reach from an empty store and an empty
read model, whatever is interleaved with what and whichever operations fail, every profile is the
replay of a prefix.
-/

namespace Loyalty

open History Simulation

/-- What was saved stays saved. -/
theorem Exchange.saved_subset {heard more : List Exchange} (h : heard ⊆ more) :
    heard.flatMap saved ⊆ more.flatMap saved := by
  intro e he
  obtain ⟨x, hx, he⟩ := List.mem_flatMap.1 he
  exact List.mem_flatMap.2 ⟨x, h hx, he⟩

namespace Projection

/-- The event has been saved, and it is the first of its user or there is a profile. -/
def ToDeliver (heard : List Exchange) (e : Event) : Prop :=
  e ∈ heard.flatMap Exchange.saved ∧
    (e.version = 1 ∨ ∃ x ∈ heard, x.ShowsProfile e.aggregateId)

/-- The event has been loaded by somebody who found that the projection has to catch up, and it is
the first of all events or there is a profile. -/
def ToCatchUp (heard : List Exchange) (e : Event) : Prop :=
  ∃ id current missing, ⟨.isSynced 0 id, false⟩ ∈ heard ∧
    ⟨.loadAfter id current, .ok missing⟩ ∈ heard ∧ e ∈ missing ∧
    ((current = 0 ∧ ∃ rest, sorted missing = e :: rest) ∨
      ∃ x ∈ heard, x.ShowsProfile id ∨ ∃ e' ∈ missing, x.ShowsProfile e'.aggregateId)

/-- There are grounds for what is written. For other requests none are needed. -/
def Grounds (heard : List Exchange) : Request → Prop
  | .write wr => ∃ e, writeFor e = .ok wr ∧ (ToDeliver heard e ∨ ToCatchUp heard e)
  | _ => True

theorem grounds_of_isNoWrite {r : Request} (hr : r.IsNoWrite) (heard : List Exchange) :
    Grounds heard r := by
  cases r <;> trivial

theorem lasting_grounds : Activity.Lasting Grounds := by
  intro heard more r hmore hr
  cases r with
  | write wr =>
    obtain ⟨e, hwr, ⟨hmem, hfirst⟩ | ⟨id, current, missing, hsynced, hload, he, hfirst⟩⟩ := hr
    · exact ⟨e, hwr, .inl ⟨Exchange.saved_subset hmore hmem,
        hfirst.imp_right fun ⟨x, hx, h⟩ => ⟨x, hmore hx, h⟩⟩⟩
    · exact ⟨e, hwr, .inr ⟨id, current, missing, hmore hsynced, hmore hload, he,
        hfirst.imp_right fun ⟨x, hx, h⟩ => ⟨x, hmore hx, h⟩⟩⟩
  | save | load | loadAfter | user | userByReferralCode | now | stopwatch | freshCode | freshId
    | isSynced | markSynced | outside => trivial

end Projection

namespace Activity

open Projection

variable {heard : List Exchange} {e : Event}

/-! ## The projection -/

/-- An event that has been saved is delivered. -/
theorem heeds_handle (he : e ∈ heard.flatMap Exchange.saved) :
    (Projection.handler.handle e).Heeds Grounds heard := by
  refine heeds_ofCalls (fun said r k hafter => ?_) fun _ _ _ => True.intro
  cases r with
  | write wr =>
    obtain ⟨hwr, hfirst⟩ := heard_of_handle_write hafter
    refine ⟨e, hwr, .inl ⟨by simp [he], hfirst.imp_right ?_⟩⟩
    rintro ⟨x, hx, hshows⟩
    exact ⟨x, List.mem_append_right _ hx, hshows⟩
  | save | load | loadAfter | user | userByReferralCode | now | stopwatch | freshCode | freshId
    | isSynced | markSynced | outside => trivial

/-- The projection catches up. -/
theorem heeds_sync {id : String} (hsynced : ⟨.isSynced 0 id, false⟩ ∈ heard) :
    (Projection.handler.sync id).Heeds Grounds heard := by
  refine heeds_ofCalls (fun said r k hafter => ?_) fun _ _ _ => True.intro
  cases r with
  | write wr =>
    obtain ⟨current, missing, e, hload, he, hwr, hfirst⟩ := heard_of_sync_write hafter
    refine ⟨e, hwr, .inr ⟨id, current, missing, List.mem_append_left _ hsynced,
      List.mem_append_right _ hload, he, hfirst.imp_right ?_⟩⟩
    rintro ⟨x, hx, hshows⟩
    exact ⟨x, List.mem_append_right _ hx, hshows⟩
  | save | load | loadAfter | user | userByReferralCode | now | stopwatch | freshCode | freshId
    | isSynced | markSynced | outside => trivial

/-! ## Delivery -/

/-- Delivering an event through a subscription, however often that is repeated. -/
theorem heeds_deliver {s : Subscription}
    (hhandle : ∀ more, heard ⊆ more → (s.handler.handle e).Heeds Grounds more)
    (hsync : ∀ more, ⟨.isSynced s.number e.aggregateId, false⟩ ∈ more →
      (s.handler.sync e.aggregateId).Heeds Grounds more) (b : Bus) :
    (b.deliver e s).Heeds Grounds heard := by
  refine Heeds.mapFailure (heeds_retrying (fun _ => True.intro) (fun more hmore => ?_) _) _
  refine ⟨True.intro, fun synced => ?_⟩
  have hlater : ∀ late, more ++ [⟨.isSynced s.number e.aggregateId, synced⟩] ⊆ late →
      (s.handler.handle e).Heeds Grounds late := by
    intro late hlate
    refine hhandle late (List.Subset.trans hmore ?_)
    exact List.Subset.trans (List.subset_append_left _ _) hlate
  cases synced with
  | true => exact hlater _ (List.Subset.refl _)
  | false =>
    refine (hsync _ (by simp)).andThen fun late hlate => ⟨True.intro, fun _ => hlater _ ?_⟩
    exact List.Subset.trans hlate (List.subset_append_left _ _)

/-- Delivering an event to the projection. -/
theorem heeds_deliver_projection (he : e ∈ heard.flatMap Exchange.saved) (b : Bus) :
    (b.deliver e ⟨0, Projection.handler⟩).Heeds Grounds heard :=
  heeds_deliver (fun _ hmore => heeds_handle (Exchange.saved_subset hmore he))
    (fun _ hsynced => heeds_sync hsynced) b

variable {d : Command → Activity}

/-- The rewards write nothing themselves. -/
theorem heeds_reward (hd : ∀ c : Command, c.kind ≠ .createUser → ∀ more, (d c).Heeds Grounds more) :
    (Reward.handle d e).Heeds Grounds heard := by
  have hcarryOut : ∀ cs : List Command, (∀ c ∈ cs, c.kind ≠ .createUser) →
      ∀ more, (Reward.carryOut d cs).Heeds Grounds more := by
    intro cs hcs
    induction cs with
    | nil => exact fun _ => True.intro
    | cons c cs ih =>
      intro more
      exact (hd c (hcs c List.mem_cons_self) more).andThen fun late _ =>
        ih (fun c' hc' => hcs c' (List.mem_cons_of_mem c hc')) late
  rw [Reward.handle]
  split
  · trivial
  · rw [Reward.rewardSignUp]
    split
    · exact hcarryOut _ (fun c hc => Reward.kind_of_mem_planWithoutCode hc) _
    · refine ⟨True.intro, fun x => ?_⟩
      cases x with
      | ok referrer => exact hcarryOut _ (fun c hc => Reward.kind_of_mem_planWithCode hc) _
      | error f => trivial
  · trivial

/-! ## Commands -/

variable (policy : RetryPolicy)

/-- A command is carried out, and its event is published once it has been saved. -/
theorem heeds_dispatch_over {c : Command}
    (hpublish : ∀ (e : Event) (b : Execution.Basis) (more : List Exchange), b.decide c = .ok [e] →
      Text.isBlank e.aggregateId = false → e ∈ more.flatMap Exchange.saved →
      (((Wiring.standard policy).busOver d).publish [e]).Heeds Grounds more) :
    (((Wiring.standard policy).dispatcherOver
      ((Wiring.standard policy).busOver d)).dispatch c).Heeds Grounds heard := by
  rw [Wiring.dispatch_over]
  split
  · trivial
  refine Heeds.mapFailure (heeds_ofCalls (fun said r k hafter => ?_) fun said x hafter => ?_) _
  · exact grounds_of_isNoWrite (hafter.allowed (Execution.noProjection_persist c)).isNoWrite _
  · rcases Execution.heard_of_persist hafter with
      ⟨e, b, rfl, hsaved, hdecided, -, hsound⟩ | ⟨f, rfl, -⟩
    · have hid := (Repository.batchFault?_eq_none_iff.1 hsound).1
      exact hpublish e b _ hdecided hid (by simp [hsaved])
    · trivial

theorem heeds_dispatch_of_ne {c : Command} (hc : c.kind ≠ .createUser) :
    (((Wiring.standard policy).dispatcherOver
      ((Wiring.standard policy).busOver d)).dispatch c).Heeds Grounds heard := by
  refine heeds_dispatch_over policy fun e b more hdecided hid he => ?_
  rw [Wiring.publish_of_not_created policy d hid (Execution.Basis.not_created_of_decide hc hdecided)]
  exact (heeds_deliver_projection he _).andThen fun _ _ => True.intro

/-- Whatever is dispatched, nothing is written without grounds. -/
theorem heeds_dispatch (c : Command) :
    ((Wiring.standard policy).dispatch c).Heeds Grounds heard := by
  refine heeds_dispatch_over policy (d := (Wiring.standard policy).dispatchReward)
    fun e b more hdecided hid he => ?_
  by_cases htype : e.type = .userCreated
  · rw [Wiring.publish_of_created policy _ hid htype]
    refine Heeds.andThen ⟨heeds_deliver_projection he _, ?_, fun _ _ _ => True.intro⟩
      fun _ _ => True.intro
    refine heeds_deliver (s := ⟨1, Reward.handler _⟩) (fun _ _ => heeds_reward fun c hc more => ?_)
      (fun _ _ => True.intro) _
    exact heeds_dispatch_of_ne policy (d := (Wiring.standard policy).dispatchWithin 0) hc
  · rw [Wiring.publish_of_not_created policy _ hid htype]
    exact (heeds_deliver_projection he _).andThen fun _ _ => True.intro

end Activity

/-! ## Runs -/

namespace Projection

/-- What there are grounds to write is a stored event. -/
theorem stores_of_grounds {log : Log} (ht : log.Truthful) {wr : Write}
    (h : Grounds log.heard (.write wr)) : Stores log wr := by
  have hplace : ∀ {x}, x ∈ log.heard → ∃ π, (π, x) ∈ log := by
    intro x hx
    obtain ⟨⟨π, y⟩, hy, rfl⟩ := List.mem_map.1 hx
    exact ⟨π, hy⟩
  have hshown : ∀ {shows : Exchange → Prop}, (∃ x ∈ log.heard, shows x) →
      ∃ π x, (π, x) ∈ log ∧ shows x := by
    rintro shows ⟨x, hx, h⟩
    obtain ⟨π, hπ⟩ := hplace hx
    exact ⟨π, x, hπ, h⟩
  obtain ⟨e, hwr, ⟨he, hfirst⟩ | ⟨id, current, missing, -, hload, he, hfirst⟩⟩ := h
  · rw [Log.heard, List.flatMap_map] at he
    exact stores_of_delivered he hwr (hfirst.imp_right hshown)
  · obtain ⟨π, hπ⟩ := hplace hload
    exact (stores_of_loaded ht hπ he hwr (hfirst.imp_right hshown)).1

variable (policy : RetryPolicy)

/-- In every pool of the whole program there were grounds for all that was written. -/
theorem heedful_run (w : World) (moves : List (Move Command)) :
    ((Pool.empty w).run World.surroundings (Wiring.standard policy).dispatch moves).Heedful Grounds :=
  (Pool.heedful_empty w).run lasting_grounds _
    (fun c => ⟨Activity.family_uncrowded.wiring_dispatch policy c,
      fun _ => Activity.heeds_dispatch policy c⟩) moves

end Projection

/-- **Profiles are replays of prefixes**, whatever the program does with them. -/
theorem Runtime.inStep_reached (policy : RetryPolicy) {w : World} (hmodel : w.readModel = .empty)
    (moves : List (Move Command)) : Projection.InStep (reached policy w moves) := by
  have hfaithful : ∀ moves, (reached policy w moves).Faithful :=
    fun moves => (Pool.faithful_empty rfl).run _ moves
  induction moves using List.reverseRecOn with
  | nil => exact Projection.inStep_empty hmodel
  | append_singleton moves move ih =>
    have hmoved : Pool.Moved World.surroundings (reached policy w moves)
        (reached policy w (moves ++ [move])) := by
      rw [reached_append]
      exact Pool.moved_step _ _ _ move
    have hgrounded := (Projection.heedful_run policy { w with store := .empty }
      (moves ++ [move])).grounded
    refine ih.moved hmoved (hfaithful moves).truthful fun π wr y hlog => ?_
    change (reached policy w (moves ++ [move])).log.Grounded _ at hgrounded
    rw [hlog] at hgrounded
    exact Projection.stores_of_grounds (hfaithful moves).truthful hgrounded.of_concat.2

end Loyalty
