import Loyalty.Proofs.Process.Hearing
import Loyalty.Proofs.Process.Settlement

/-!
# Sincere worlds

A world is sincere when no operation is going to fail as a delivery does. Operations do not fail so
by themselves, so whatever happens in such a world, what is heard of the event store is sincere, and
the world stays so.

Main statements: what is heard in a sincere world is sincere; and whatever is heard, the store has
grown by what was saved.
-/

namespace Loyalty

open Simulation

/-! ## Failures of the store -/

theorem EventStore.not_isPublish_of_save {s : EventStore} {es : List Event} {f : Failure}
    (h : s.save es = .error f) : ¬ f.IsPublish := by
  cases es with
  | nil =>
    cases h
    exact not_false
  | cons e es =>
    rw [save] at h
    split at h
    · cases h
      exact not_false
    · have hversions : ∀ (fs : List Event) (current : Nat) (f : Failure),
          checkVersions e.aggregateId current fs = .error f → ¬ f.IsPublish := by
        intro fs
        induction fs with
        | nil => rintro _ _ ⟨⟩
        | cons x fs ih =>
          intro current g hg
          rw [checkVersions] at hg
          split at hg
          · exact ih _ _ hg
          · cases hg
            exact not_false
      cases hcheck : checkVersions e.aggregateId (s.lastVersion e.aggregateId) (e :: es) with
      | ok u =>
        rw [hcheck] at h
        cases h
      | error g =>
        rw [hcheck] at h
        cases h
        exact hversions _ _ _ hcheck

theorem EventRecord.not_isPublish_of_toEvents {rs : List EventRecord} {f : Failure}
    (h : toEvents rs = .error f) : ¬ f.IsPublish := by
  induction rs generalizing f with
  | nil => cases h
  | cons r rs ih =>
    rw [toEvents, List.mapM_cons] at h
    cases hr : r.toEvent with
    | error g =>
      rw [hr] at h
      cases h
      rw [toEvent, EventType.parse] at hr
      split at hr
      · cases hr
      · cases hr
        exact not_false
    | ok e =>
      rw [hr] at h
      cases hrs : rs.mapM toEvent with
      | error g =>
        rw [hrs] at h
        cases h
        exact ih hrs
      | ok es =>
        rw [hrs] at h
        cases h

/-! ## The world -/

namespace Simulation.World

/-- No operation is going to fail as a delivery does. -/
def Sincere (w : World) : Prop :=
  ∀ op f, some f ∈ w.faults op → ¬ f.IsPublish

theorem mem_of_fault {op : Operation} {w : World} {f : Failure} (h : (w.fault op).1 = some f) :
    some f ∈ w.faults op := by
  rw [fault] at h
  split at h
  · cases h
  · next g gs hfaults =>
    cases h
    rw [hfaults]
    exact List.mem_cons_self

theorem mem_faults_of_fault {op op' : Operation} {w : World} {x : Option Failure}
    (h : x ∈ (w.fault op).2.faults op') : x ∈ w.faults op' := by
  rw [fault] at h
  split at h
  · exact h
  · next g gs hfaults =>
    dsimp only at h
    split at h
    · next heq =>
      rw [heq, hfaults]
      exact List.mem_cons_of_mem g h
    · exact h

/-- Faults are used up, and no new ones come. -/
theorem mem_faults_of_gated {α : Type} {op op' : Operation}
    {perform : World → Except Failure α × World} (hperform : ∀ w, (perform w).2.faults = w.faults)
    {w : World} {x : Option Failure} (h : x ∈ (gated op perform w).2.faults op') :
    x ∈ w.faults op' := by
  rw [gated_eq] at h
  cases hf : (w.fault op).1 with
  | some f =>
    rw [hf] at h
    exact mem_faults_of_fault h
  | none =>
    rw [hf] at h
    simp only [hperform] at h
    exact mem_faults_of_fault h

theorem mem_faults_of_answer {w : World} {r : Request} {op : Operation} {x : Option Failure}
    (h : x ∈ (w.answer r).2.faults op) : x ∈ w.faults op := by
  cases r with
  | save es =>
    have hnote : x ∈ (w.note (.saving es)).faults op := by
      refine mem_faults_of_gated (fun w => ?_) h
      rw [saveInStore]
      split <;> rfl
    exact hnote
  | write wr =>
    refine mem_faults_of_gated (fun w => ?_) h
    simp only [readClock]
    split <;> rfl
  | load | loadAfter | user | userByReferralCode => exact mem_faults_of_gated (fun _ => rfl) h
  | now | stopwatch | freshCode | freshId | isSynced | markSynced => exact h
  | outside handler errand =>
    rw [answer, entrust] at h
    simp only at h
    split at h <;> exact h

theorem Sincere.answer {w : World} (hw : w.Sincere) (r : Request) : (w.answer r).2.Sincere :=
  fun op f hf => hw op f (mem_faults_of_answer hf)

/-- An operation that fails in no other way than by faults and as it would by itself. -/
theorem Sincere.gated {w : World} (hw : w.Sincere) {α : Type} {op : Operation}
    {perform : World → Except Failure α × World} {f : Failure}
    (h : (World.gated op perform w).1 = .error f)
    (hperform : ∀ w', (perform w').1 = .error f → ¬ f.IsPublish) : ¬ f.IsPublish := by
  rw [gated_eq] at h
  cases hf : (w.fault op).1 with
  | some g =>
    rw [hf] at h
    cases h
    exact hw op f (mem_of_fault hf)
  | none =>
    rw [hf] at h
    exact hperform _ h

/-- What such a world answers. -/
theorem Sincere.exchange {w : World} (hw : w.Sincere) (r : Request) :
    Exchange.Sincere ⟨r, (w.answer r).1⟩ := by
  cases r with
  | save es =>
    have hnote : (w.note (.saving es)).Sincere := hw
    cases hx : (w.save es).1 with
    | ok u =>
      show Exchange.Sincere ⟨.save es, (w.save es).1⟩
      rw [hx]
      exact True.intro
    | error f =>
      show Exchange.Sincere ⟨.save es, (w.save es).1⟩
      rw [hx]
      refine hnote.gated hx fun w' h => ?_
      rw [saveInStore_eq] at h
      split at h
      · next hs =>
        cases h
        exact EventStore.not_isPublish_of_save hs
      · cases h
  | load id =>
    cases hx : (w.load id).1 with
    | ok es =>
      show Exchange.Sincere ⟨.load id, (w.load id).1⟩
      rw [hx]
      exact True.intro
    | error f =>
      show Exchange.Sincere ⟨.load id, (w.load id).1⟩
      rw [hx]
      exact hw.gated hx fun w' h => EventRecord.not_isPublish_of_toEvents h
  | loadAfter | write | user | userByReferralCode | now | stopwatch | freshCode | freshId
    | isSynced | markSynced | outside => exact True.intro

/-- Whatever happens in such a world. -/
theorem Sincere.hears {w w' : World} (hw : w.Sincere) {heard : List Exchange}
    (h : surroundings.Hears w heard w') : w'.Sincere ∧ ∀ x ∈ heard, x.Sincere := by
  induction h with
  | start => exact ⟨hw, fun x hx => absurd hx List.not_mem_nil⟩
  | passed _ nanos ih => exact ih
  | answered _ r ih =>
    refine ⟨ih.1.answer r, fun x hx => ?_⟩
    rcases List.mem_append.1 hx with hx | hx
    · exact ih.2 x hx
    · obtain rfl := List.mem_singleton.1 hx
      exact ih.1.exchange r

/-- The store has grown by what was saved. -/
theorem store_of_hears {w w' : World} {heard : List Exchange}
    (h : surroundings.Hears w heard w') :
    w'.store = w.store.adding ((heard.flatMap Exchange.saved).map Event.toRecord) := by
  induction h with
  | start => rfl
  | passed _ nanos ih => exact ih
  | @answered w' heard _ r ih =>
    have htells := (tells_answer w' r).store_eq
    show (w'.answer r).2.store = _
    rw [htells, ih, List.flatMap_append, List.flatMap_cons, List.flatMap_nil, List.append_nil,
      List.map_append, EventStore.adding_append]
    rfl

theorem records_of_hears {w w' : World} {heard : List Exchange}
    (h : surroundings.Hears w heard w') :
    w'.store.records = w.store.records ++ (heard.flatMap Exchange.saved).map Event.toRecord := by
  rw [store_of_hears h, EventStore.records_adding]

end Simulation.World

end Loyalty
