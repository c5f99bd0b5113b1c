import Loyalty.Proofs.ReadModel.CatchingUp

/-!
# The newest event is projected

In a world without faults an event has just been saved, and the read model shows the history of its
user, and those of all others, as they were before. Then the event is delivered to the projection.
So the projection lacks no event but this one, and there is nothing that it could fail at but a
history that cannot be replayed.

Main statement: when the delivery is over the read model shows all histories as they are.
-/

namespace Loyalty

open Function (update)
open History Simulation Projection

namespace Simulation.World

/-- A world without faults. What was saved is `saved`, all of it in order, and the read model shows
the histories as they were when `shown` was saved. -/
structure At (saved shown : List Event) (w : World) : Prop where
  /-- no operation is going to fail -/
  faultFree : w.FaultFree
  /-- the events are in the store -/
  store_eq : w.store = .holding saved
  /-- all histories have grown in order -/
  grown : ∀ id, Grown id (ofUser id saved)
  /-- the read model shows what it has to show -/
  current : ∀ id, Profile.Current id (ofUser id shown) (w.readModel.find? id)

variable {w : World} {es shown : List Event} {e : Event}

theorem At.showing (h : At es shown w) (hshown : shown <+: es) :
    Showing es (fun id => ofUser id shown) w :=
  ⟨h.faultFree, h.store_eq, h.grown, fun _ => hshown.filter _, h.current⟩

/-- The read model shows all of all histories. -/
theorem Showing.at (h : Showing (es ++ [e])
    (update (fun id => ofUser id es) e.aggregateId (ofUser e.aggregateId (es ++ [e]))) w) :
    At (es ++ [e]) (es ++ [e]) w := by
  refine ⟨h.faultFree, h.store_eq, h.grown, fun id => ?_⟩
  have hcurrent := h.current id
  by_cases hid : id = e.aggregateId
  · subst hid
    rwa [Function.update_self] at hcurrent
  · rwa [Function.update_of_ne hid, ← ofUser_concat_of_ne es hid] at hcurrent

/-- Whoever saves and writes nothing leaves the world as it should be. -/
theorem At.answer (h : At es es w) {r : Request} (hsave : r.IsNoSave) (hwrite : r.IsNoWrite) :
    At es es (w.answer r).2 :=
  have h' := (h.showing List.prefix_rfl).answer hsave hwrite
  ⟨h'.faultFree, h'.store_eq, h'.grown, h'.current⟩

/-- The delivery of the newest event to the projection succeeds at the first attempt, without a
pause. -/
theorem At.prompt_deliver (h : At (es ++ [e]) es w) {v : User}
    (hv : User.ofHistory e.aggregateId (ofUser e.aggregateId (es ++ [e])) = .ok v) (b : Bus)
    (number : Nat) :
    ∃ w', (b.deliver e ⟨number, Projection.handler⟩).Prompt surroundings w (.ok ()) w' ∧
      At (es ++ [e]) (es ++ [e]) w' := by
  obtain ⟨w', hprompt, hw', -⟩ := (h.showing (List.prefix_append _ _)).prompt_deliver number
    (ofUser_concat_self es e) hv (.inr rfl) b
  exact ⟨w', hprompt, hw'.at⟩

/-- **The newest event is projected.** When its delivery to the projection is over, the read model
shows all histories as they are. -/
theorem At.delivered (h : At (es ++ [e]) es w) (b : Bus) (number : Nat) :
    At (es ++ [e]) (es ++ [e])
      ((b.deliver e ⟨number, Projection.handler⟩).run surroundings w).2 := by
  have hdelivered := (h.showing (List.prefix_append _ _)).delivered number
    (ofUser_concat_self es e) List.prefix_rfl b
  generalize (b.deliver e ⟨number, Projection.handler⟩).run surroundings w = r at hdelivered ⊢
  cases hdelivered with
  | upToDate _ hw' => exact hw'.at
  | behind hready => exact absurd (.inr rfl) hready

end Simulation.World

end Loyalty
