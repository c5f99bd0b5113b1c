import Loyalty.Proofs.Simulation.Profiles
import Loyalty.Proofs.Simulation.Sincerity
import Loyalty.Proofs.Simulation.Turns

/-!
# From one world to the next

Whatever happens in the simulated world, happens by requests that are answered and by time that goes
by. What that can change is known without looking at what happens: faults are used up and no new
ones come, the read model changes by writes only, subscriptions remember what they are told to, newly
made codes are counted, and no answer takes time.

Main statements: in a world without faults there will be none; a world in which nothing is written
keeps its read model; codes are counted up, and come from the same supply; and the clock goes on
only while time goes by.
-/

namespace Loyalty

open Simulation

/-- A process that runs alone has heard what its surroundings answered. -/
theorem Calls.hears_run {σ α : Type} (s : Surroundings σ) (p : Calls α) (w : σ) :
    ∃ heard, p.After heard (.done (p.run s w).1) ∧ s.Hears w heard (p.run s w).2 := by
  induction p generalizing w with
  | done a => exact ⟨[], .start _, .start w⟩
  | call r k ih =>
    obtain ⟨heard, hafter, hhears⟩ := ih (s.answer r w).1 (s.answer r w).2
    exact ⟨_, .heard hafter, ((Surroundings.Hears.start w).answered r).trans hhears⟩

/-- What a process was answered it had asked for. -/
theorem Calls.After.asked {α : Type} {p q : Calls α} {heard : List Exchange}
    (h : p.After heard q) {x : Exchange} (hx : x ∈ heard) :
    ∃ before k, p.After before (.call x.request k) := by
  induction h with
  | start => cases hx
  | @heard r k a rest q h ih =>
    rcases List.mem_cons.1 hx with rfl | hx
    · exact ⟨[], k, .start _⟩
    · obtain ⟨before, k', hbefore⟩ := ih hx
      exact ⟨_, k', .heard hbefore⟩

/-- A process that writes nothing has heard of nothing that was written. -/
theorem Calls.Only.written_eq_nil {α : Type} {p q : Calls α} (hp : p.Only Request.IsNoWrite)
    {heard : List Exchange} (h : p.After heard q) : ∀ x ∈ heard, x.written = [] := by
  intro x hx
  obtain ⟨before, k, hasked⟩ := h.asked hx
  rcases x.written_eq with hnone | ⟨wr, rfl⟩
  · exact hnone
  · exact False.elim (hasked.allowed hp)

namespace Simulation.World

/-! ## Faults -/

theorem FaultFree.hears {w w' : World} (hw : w.FaultFree) {heard : List Exchange}
    (h : surroundings.Hears w heard w') : w'.FaultFree := by
  induction h with
  | start => exact hw
  | passed _ nanos ih => exact ih
  | answered _ r ih =>
    intro op
    refine List.eq_nil_iff_forall_not_mem.2 fun x hx => ?_
    have hbefore := mem_faults_of_answer hx
    rw [ih op] at hbefore
    cases hbefore

/-! ## The read model -/

/-- The read model stays as it is while nothing is written. -/
theorem readModel_of_hears {w w' : World} {heard : List Exchange}
    (h : surroundings.Hears w heard w') (hheard : ∀ x ∈ heard, x.written = []) :
    w'.readModel = w.readModel := by
  induction h with
  | start => rfl
  | passed _ nanos ih => exact ih hheard
  | @answered w' heard _ r ih =>
    have hbefore : w'.readModel = w.readModel := ih fun x hx => hheard x (List.mem_append_left _ hx)
    have hlast := hheard ⟨r, (w'.answer r).1⟩
      (List.mem_append_right _ (List.mem_singleton_self _))
    have hbecomes := becomes_answer w' r
    show (w'.answer r).2.readModel = _
    generalize (w'.answer r).1 = a at hlast hbecomes
    generalize (w'.answer r).2.readModel = m at hbecomes ⊢
    cases hbecomes with
    | wrote h => cases hlast
    | same => exact hbefore

/-! ## What subscriptions remember -/

/-- Using up a fault leaves all else as it is, so only the operation itself is to be looked at. -/
theorem gated_related {α : Type} (R : World → World → Prop)
    (htrans : ∀ {u v w}, R u v → R v w → R u w) (hfault : ∀ op w, R w (w.fault op).2) {op : Operation}
    {perform : World → Except Failure α × World} (h : ∀ w, R w (perform w).2) (w : World) :
    R w (gated op perform w).2 := by
  rw [gated_eq]
  cases (w.fault op).1 with
  | some f => exact hfault op w
  | none => exact htrans (hfault op w) (h _)

theorem gated_synced {α : Type} {op : Operation} {perform : World → Except Failure α × World}
    (h : ∀ w, w.synced = (perform w).2.synced) (w : World) :
    w.synced = (gated op perform w).2.synced := by
  refine gated_related (fun v w => v.synced = w.synced) Eq.trans (fun op w => ?_) h w
  rw [fault]
  split <;> rfl

/-- What subscriptions remember changes only when they are told to. -/
theorem synced_answer (w : World) (r : Request) :
    (w.answer r).2.synced =
      match r with
      | .markSynced subscription id => (subscription, id) :: w.synced
      | _ => w.synced := by
  symm
  cases r with
  | save es =>
    refine gated_synced (fun w => ?_) (w.note (.saving es))
    rw [saveInStore]
    split <;> rfl
  | write wr =>
    refine gated_synced (fun w => ?_) w
    simp only [readClock]
    split <;> rfl
  | load | loadAfter | user | userByReferralCode => exact gated_synced (fun _ => rfl) w
  | now | stopwatch | freshCode | freshId | isSynced | markSynced => rfl
  | outside handler errand =>
    rw [answer, entrust]
    simp only
    split <;> rfl

/-- They forget nothing. -/
theorem mem_synced_answer {w : World} {x : Nat × String} (hx : x ∈ w.synced) (r : Request) :
    x ∈ (w.answer r).2.synced := by
  rw [synced_answer]
  split
  · exact List.mem_cons_of_mem _ hx
  · exact hx

/-- What subscriptions remember stays as it is while they are told nothing. -/
theorem synced_of_hears {w w' : World} {heard : List Exchange} (h : surroundings.Hears w heard w')
    (hheard : ∀ x ∈ heard, ∀ subscription id, x.request ≠ .markSynced subscription id) :
    w'.synced = w.synced := by
  induction h with
  | start => rfl
  | passed _ nanos ih => exact ih hheard
  | @answered w' heard _ r ih =>
    have hlast := hheard ⟨r, (w'.answer r).1⟩
      (List.mem_append_right _ (List.mem_singleton_self _))
    refine Eq.trans ?_ (ih fun x hx => hheard x (List.mem_append_left _ hx))
    rw [surroundings, synced_answer]
    split
    · exact absurd rfl (hlast _ _)
    · rfl

/-! ## What is newly made -/

/-- The supply is the same, and no fewer codes were made. -/
structure Onward (w w' : World) : Prop where
  /-- codes and identities come from where they came from -/
  supply_eq : w'.supply = w.supply
  /-- codes are counted up -/
  codes_le : w.codes ≤ w'.codes

theorem Onward.refl (w : World) : w.Onward w :=
  ⟨rfl, Nat.le_refl _⟩

theorem Onward.trans {w w' w'' : World} (h : w.Onward w') (h' : w'.Onward w'') : w.Onward w'' :=
  ⟨h'.supply_eq.trans h.supply_eq, Nat.le_trans h.codes_le h'.codes_le⟩

theorem onward_gated {α : Type} {op : Operation} {perform : World → Except Failure α × World}
    (h : ∀ w : World, w.Onward (perform w).2) (w : World) : w.Onward (gated op perform w).2 := by
  refine gated_related Onward Onward.trans (fun op w => ?_) h w
  rw [fault]
  split <;> exact ⟨rfl, Nat.le_refl _⟩

theorem onward_answer (w : World) (r : Request) : w.Onward (w.answer r).2 := by
  cases r with
  | save es =>
    have hnote : w.Onward (w.note (.saving es)) := ⟨rfl, Nat.le_refl _⟩
    refine hnote.trans (onward_gated (fun w => ?_) _)
    rw [saveInStore]
    split <;> exact ⟨rfl, Nat.le_refl _⟩
  | write wr =>
    refine onward_gated (fun w => ?_) w
    simp only [readClock]
    split <;> exact ⟨rfl, Nat.le_refl _⟩
  | load | loadAfter | user | userByReferralCode => exact onward_gated .refl w
  | freshCode => exact ⟨rfl, Nat.le_succ _⟩
  | now | stopwatch | freshId | isSynced | markSynced => exact ⟨rfl, Nat.le_refl _⟩
  | outside handler errand =>
    rw [answer, entrust]
    simp only
    split <;> exact ⟨rfl, Nat.le_refl _⟩

theorem onward_of_hears {w w' : World} {heard : List Exchange}
    (h : surroundings.Hears w heard w') : w.Onward w' := by
  induction h with
  | start => exact .refl w
  | passed _ nanos ih => exact ⟨ih.supply_eq, ih.codes_le⟩
  | answered _ r ih => exact ih.trans (onward_answer _ r)

/-! ## Time -/

/-- The time, and whether the stopwatch shows it. -/
def clock (w : World) : Nat × Bool :=
  (w.time, w.stopwatchRuns)

theorem gated_clock {α : Type} {op : Operation} {perform : World → Except Failure α × World}
    (h : ∀ w, w.clock = (perform w).2.clock) (w : World) :
    w.clock = (gated op perform w).2.clock := by
  refine gated_related (fun v w => v.clock = w.clock) Eq.trans (fun op w => ?_) h w
  rw [fault]
  split <;> rfl

/-- No answer takes time. -/
theorem clock_answer (w : World) (r : Request) : (w.answer r).2.clock = w.clock := by
  symm
  cases r with
  | save es =>
    refine gated_clock (fun w => ?_) (w.note (.saving es))
    rw [saveInStore]
    split <;> rfl
  | write wr =>
    refine gated_clock (fun w => ?_) w
    simp only [readClock]
    split <;> rfl
  | load | loadAfter | user | userByReferralCode => exact gated_clock (fun _ => rfl) w
  | now | stopwatch | freshCode | freshId | isSynced | markSynced => rfl
  | outside handler errand =>
    rw [answer, entrust]
    simp only
    split <;> rfl

theorem pass_pass (m n : Nat) (w : World) : (w.pass m).pass n = w.pass (m + n) := by
  rw [pass, pass, pass, Nat.add_assoc]

end Simulation.World

end Loyalty
