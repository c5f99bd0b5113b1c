import Loyalty.Event.Stored

/-!
# Histories

A history is a list of events. Its *order* is by version; events of the same version stay in the
order in which they stand in the list.
-/

namespace Loyalty.History

/-- The first event does not come after the second. -/
def notAfter (a b : Event) : Bool :=
  a.version ≤ b.version

/-- Puts an event before the first one that it may come before. -/
def insert (e : Event) : List Event → List Event
  | [] => [e]
  | x :: xs => if notAfter e x then e :: x :: xs else x :: insert e xs

/-- The same events in ascending order of version. Histories are nearly in order as they come, so each
event is put before those behind it. -/
def sorted : List Event → List Event
  | [] => []
  | e :: es => insert e (sorted es)

/-- The version of the event that stands last, 0 when there is none. -/
def lastVersion (es : List Event) : Nat :=
  match es.getLast? with
  | none => 0
  | some e => e.version

theorem notAfter_trans (a b c : Event) (hab : notAfter a b) (hbc : notAfter b c) :
    notAfter a c := by
  simp only [notAfter, decide_eq_true_eq] at *
  omega

theorem notAfter_total (a b : Event) : notAfter a b || notAfter b a := by
  simp only [notAfter, Bool.or_eq_true, decide_eq_true_eq]
  omega

/-- An event passes by the events that it must come after, and by no others. -/
theorem insert_append {e : Event} {before after : List Event}
    (hbefore : ∀ x ∈ before, notAfter e x = false)
    (hafter : ∀ x ∈ after, notAfter e x = true) :
    insert e (before ++ after) = before ++ e :: after := by
  induction before with
  | nil =>
    cases after with
    | nil => rfl
    | cons x xs => exact if_pos (hafter x List.mem_cons_self)
  | cons x xs ih =>
    obtain ⟨hx, hxs⟩ := List.forall_mem_cons.1 hbefore
    rw [List.cons_append, insert, hx, ih hxs]
    rfl

/-- Sorting is stable: it does the same as sorting by merging. -/
theorem sorted_eq_mergeSort (es : List Event) : sorted es = es.mergeSort notAfter := by
  induction es with
  | nil => exact List.mergeSort_nil.symm
  | cons e es ih =>
    obtain ⟨before, after, hcons, hsorted, hbefore⟩ :=
      List.mergeSort_cons notAfter_trans notAfter_total e es
    have hpairwise := @List.pairwise_mergeSort _ notAfter notAfter_trans notAfter_total (e :: es)
    rw [hcons] at hpairwise ⊢
    rw [sorted, ih, hsorted]
    refine insert_append (fun x hx => ?_) fun x hx => ?_
    · simpa using hbefore x hx
    · exact List.rel_of_pairwise_cons (List.pairwise_append.1 hpairwise).2.1 hx

theorem sorted_perm (es : List Event) : (sorted es).Perm es := by
  rw [sorted_eq_mergeSort]
  exact List.mergeSort_perm es notAfter

/-- In the order of a history versions never go down. -/
theorem pairwise_sorted (es : List Event) :
    (sorted es).Pairwise fun a b => a.version ≤ b.version := by
  have h := @List.pairwise_mergeSort _ notAfter notAfter_trans notAfter_total es
  rw [sorted_eq_mergeSort]
  exact h.imp fun hab => by simpa [notAfter] using hab

/-- A history that is in order stays as it is. -/
theorem sorted_eq_self {es : List Event} (h : es.Pairwise fun a b => a.version ≤ b.version) :
    sorted es = es := by
  rw [sorted_eq_mergeSort]
  exact List.mergeSort_of_pairwise (h.imp fun hab => by simpa [notAfter] using hab)

/-- Putting a history in order twice is the same as doing it once. -/
@[simp] theorem sorted_sorted (es : List Event) : sorted (sorted es) = sorted es :=
  sorted_eq_self (pairwise_sorted es)

end Loyalty.History
