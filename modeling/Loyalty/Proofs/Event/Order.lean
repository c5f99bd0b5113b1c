import Mathlib.Data.List.Nodup
import Loyalty.Event.History

/-!
# The order of a history

The order of a history is by version, and among events of the same version it is the order in which
they were given. `History.InOrder` says so without sorting anything. There is one such order for each
history, and it is what sorting comes to.

How a history is given makes no difference to its order when no version occurs twice. And when no
event of one history comes after an event of another, the order of both together is the order of the
one and then the order of the other, even where the last versions of the one are the first of the
other.
-/

namespace Loyalty

namespace History

/-- The events of a history in its order. -/
structure InOrder (history es : List Event) : Prop where
  /-- versions never go down -/
  ascending : es.Pairwise fun a b => a.version ≤ b.version
  /-- the events of each version stand as they stand in the history -/
  stable : ∀ v, (es.filter fun e => e.version = v) = history.filter fun e => e.version = v

theorem inOrder_sorted (history : List Event) : InOrder history (sorted history) := by
  refine ⟨pairwise_sorted history, fun v => ?_⟩
  have hsame : (history.filter fun e => e.version = v).Pairwise fun a b => notAfter a b := by
    refine List.pairwise_of_forall_mem_list fun a ha b hb => ?_
    have hav : a.version = v := by simpa using (List.mem_filter.1 ha).2
    have hbv : b.version = v := by simpa using (List.mem_filter.1 hb).2
    simp [notAfter, hav, hbv]
  -- The sort is stable: what is in order already stands within its result as it stood.
  have hsub : (history.filter fun e => e.version = v).Sublist (sorted history) := by
    rw [sorted_eq_mergeSort]
    exact List.sublist_mergeSort notAfter_trans notAfter_total hsame List.filter_sublist
  have hwithin := hsub.filter fun e => decide (e.version = v)
  simp only [List.filter_filter, Bool.and_self] at hwithin
  exact (hwithin.eq_of_length ((sorted_perm history).symm.filter _).length_eq).symm

/-- There is only one order. -/
theorem eq_of_ascending {es es' : List Event}
    (hes : es.Pairwise fun a b => a.version ≤ b.version)
    (hes' : es'.Pairwise fun a b => a.version ≤ b.version)
    (h : ∀ v, (es.filter fun e => e.version = v) = es'.filter fun e => e.version = v) :
    es = es' := by
  induction es generalizing es' with
  | nil =>
    cases es' with
    | nil => rfl
    | cons b es' => simpa using h b.version
  | cons a es ih =>
    cases es' with
    | nil => simpa using h a.version
    | cons b es' =>
      obtain ⟨ha, hrest⟩ := List.pairwise_cons.1 hes
      obtain ⟨hb, hrest'⟩ := List.pairwise_cons.1 hes'
      -- Each of the first events stands in the other list too, so neither has the lower version.
      have hab : a.version ≤ b.version := by
        have hmem : b ∈ (a :: es).filter fun e => e.version = b.version := by
          rw [h]
          simp
        rcases List.mem_cons.1 (List.mem_filter.1 hmem).1 with rfl | hmem
        · exact Nat.le_refl _
        · exact ha b hmem
      have hba : b.version ≤ a.version := by
        have hmem : a ∈ (b :: es').filter fun e => e.version = a.version := by
          rw [← h]
          simp
        rcases List.mem_cons.1 (List.mem_filter.1 hmem).1 with rfl | hmem
        · exact Nat.le_refl _
        · exact hb a hmem
      have hversion : b.version = a.version := Nat.le_antisymm hba hab
      obtain rfl : a = b := by
        have hhead := h a.version
        simp only [List.filter_cons, hversion, decide_true, if_true] at hhead
        exact (List.cons.inj hhead).1
      refine congrArg (a :: ·) (ih hrest hrest' fun v => ?_)
      have hv := h v
      simp only [List.filter_cons] at hv
      split at hv
      · exact (List.cons.inj hv).2
      · exact hv

theorem InOrder.eq_sorted {history es : List Event} (h : InOrder history es) :
    es = sorted history :=
  eq_of_ascending h.ascending (inOrder_sorted history).ascending fun v =>
    (h.stable v).trans ((inOrder_sorted history).stable v).symm

theorem inOrder_iff {history es : List Event} : InOrder history es ↔ es = sorted history :=
  ⟨InOrder.eq_sorted, fun h => h ▸ inOrder_sorted history⟩

/-! ## Two histories -/

/-- Events of different versions have one order, in whatever order they are given. -/
theorem sorted_eq_of_perm {es es' : List Event} (hperm : es'.Perm es)
    (hversions : (es.map Event.version).Nodup) : sorted es' = sorted es := by
  have hsame : (sorted es').Perm (sorted es) :=
    (sorted_perm es').trans (hperm.trans (sorted_perm es).symm)
  refine hsame.eq_of_pairwise (fun a b ha hb hab hba => ?_) (pairwise_sorted es')
    (pairwise_sorted es)
  have ha' : a ∈ es := hperm.mem_iff.1 ((sorted_perm es').mem_iff.1 ha)
  have hb' : b ∈ es := (sorted_perm es).mem_iff.1 hb
  exact List.inj_on_of_nodup_map hversions ha' hb' (Nat.le_antisymm hab hba)

/-- The order of events that are given from the last to the first. -/
theorem sorted_reverse {es : List Event} (h : es.Pairwise fun a b => a.version < b.version) :
    sorted es.reverse = es := by
  have hversions : (es.map Event.version).Nodup :=
    List.pairwise_map.2 (h.imp fun hab => Nat.ne_of_lt hab)
  rw [sorted_eq_of_perm (List.reverse_perm es) hversions]
  exact sorted_eq_self (h.imp fun hab => Nat.le_of_lt hab)

/-- The order of two histories, of which the second does not begin before the first ends. -/
theorem sorted_append {es fs : List Event} (h : ∀ a ∈ es, ∀ b ∈ fs, a.version ≤ b.version) :
    sorted (es ++ fs) = sorted es ++ sorted fs := by
  have hes : InOrder es (sorted es) := inOrder_sorted es
  have hfs : InOrder fs (sorted fs) := inOrder_sorted fs
  have hboth : InOrder (es ++ fs) (sorted es ++ sorted fs) := by
    refine ⟨List.pairwise_append.2 ⟨hes.ascending, hfs.ascending, fun a ha b hb => ?_⟩,
      fun v => ?_⟩
    · exact h a ((sorted_perm es).mem_iff.1 ha) b ((sorted_perm fs).mem_iff.1 hb)
    · rw [List.filter_append, List.filter_append, hes.stable, hfs.stable]
  exact hboth.eq_sorted.symm

end History

end Loyalty
