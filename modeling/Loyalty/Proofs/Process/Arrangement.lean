import Loyalty.Proofs.Process.Company

/-!
# One course for many

`Activity.course` makes one course out of activities that go on side by side. `Course.Arranges` says
that a course does so: it goes through what its companions do, each when it is his turn, and when
nobody is awake it waits until the next one wakes up. What happens in such a course is what happens
when its companions go on together, and nothing else can happen then.

Main statement: the course of activities in order gives them their turns as they stand in the list.
-/

namespace Loyalty

open Companion

variable {ι σ : Type}

namespace Course

/-- A course goes through what companions do from the time `t` on. If `fifo` holds, those who wake
up at once have their turns as they fell asleep. -/
inductive Arranges (fifo : Bool) : Nat → Course → List (Companion ι) → Prop where
  /-- all have ended -/
  | finish (t : Nat) (xs : List (List Nat × (ι × Outcome))) :
    Arranges fifo t (done (.ofResults (xs.map Prod.snd))) (xs.map ended)
  /-- somebody makes a request -/
  | call {t : Nat} {before after : List (Companion ι)} {who : ι} {slept : List Nat}
    (hturn : HasTurn before slept after) {r : Request} {k f : r.Answer → Course}
    (h : ∀ x, Arranges fifo t (f x) (before ++ ⟨who, 0, k x, slept⟩ :: after)) :
    Arranges fifo t (call r f) (before ++ ⟨who, 0, call r k, slept⟩ :: after)
  /-- somebody goes to sleep -/
  | sleep {t : Nat} {before after : List (Companion ι)} {who : ι} {slept : List Nat}
    (hturn : HasTurn before slept after) {n : Nat} {c d : Course}
    (h : Arranges fifo t d
      (before ++ ⟨who, n, c, if fifo then t :: slept else slept⟩ :: after)) :
    Arranges fifo t (alarm n d) (before ++ ⟨who, 0, alarm n (wait n c), slept⟩ :: after)
  /-- time goes by until somebody wakes up -/
  | pass {t : Nat} {ms : List (Companion ι)} (n : Nat) (hrest : ∀ m ∈ ms, m.RestsFor (n + 1))
    (hwakes : ∃ m ∈ ms, m.rest = n + 1) {d : Course}
    (h : Arranges fifo (t + (n + 1)) d (ms.map (later (n + 1)))) :
    Arranges fifo t (wait (n + 1) d) ms

namespace Arranges

variable {fifo : Bool} {t : Nat} {c d : Course} {ms : List (Companion ι)}
  {allowed : Request → Prop}

/-! ## What happens -/

/-- What happens in the course happens when the companions go on together. -/
theorem together (s : Surroundings σ) (h : Arranges fifo t d ms) (w : σ) :
    ∃ results, Together s fifo t ms w results (d.run s w).2 ∧
      (d.run s w).1 = .ofResults results := by
  induction h generalizing w with
  | finish t xs => exact ⟨_, .finish t xs w, rfl⟩
  | @call _ _ _ _ _ hturn r _ _ _ ih =>
    obtain ⟨results, htogether, ho⟩ := ih (s.answer r w).1 (s.answer r w).2
    exact ⟨results, .call hturn htogether, ho⟩
  | sleep hturn _ ih =>
    obtain ⟨results, htogether, ho⟩ := ih w
    exact ⟨results, .sleep hturn htogether, ho⟩
  | pass n hrest _ _ ih =>
    obtain ⟨results, htogether, ho⟩ := ih (s.pass (n + 1) w)
    exact ⟨results, .pass n hrest htogether, ho⟩

/-- **Nothing else can happen.** Where waiting bit by bit is waiting at once, companions can only do
what they do in the course. Afterwards more time may go by. -/
theorem unique {s : Surroundings σ} (hzero : ∀ w, s.pass 0 w = w)
    (hadd : ∀ n k w, s.pass k (s.pass n w) = s.pass (n + k) w) (h : Arranges fifo t d ms) {w : σ}
    {results results' : List (ι × Outcome)} {v v' : σ}
    (htogether : Together s fifo t ms w results v)
    (htogether' : Together s fifo t ms w results' v') :
    results = results' ∧ ∃ n n', v = s.pass n (d.run s w).2 ∧ v' = s.pass n' (d.run s w).2 := by
  induction h generalizing w with
  | finish t xs =>
    obtain ⟨rfl, n, hv⟩ := htogether.of_finish hzero hadd
    obtain ⟨rfl, n', hv'⟩ := htogether'.of_finish hzero hadd
    exact ⟨rfl, n, n', hv, hv'⟩
  | call hturn _ ih => exact ih _ (htogether.of_call hturn) (htogether'.of_call hturn)
  | sleep hturn _ ih => exact ih (htogether.of_sleep hturn) (htogether'.of_sleep hturn)
  | pass n hrest hwakes _ ih =>
    exact ih (htogether.of_pass hadd hrest hwakes) (htogether'.of_pass hadd hrest hwakes)

/-! ## In order -/

/-- A course for itself. -/
theorem self (hc : c.Solo allowed) (who : ι) (t : Nat) :
    Arranges false t c [⟨who, 0, c, []⟩] := by
  induction hc generalizing t with
  | done o =>
    have hover : Arranges false t (done (.ofResults [(who, o)])) [ended ([], who, o)] :=
      .finish t [([], who, o)]
    cases o <;> exact hover
  | call _ _ ih => exact .call (hasTurn_alone []) fun x => ih x t
  | sleep n _ ih =>
    refine .sleep (hasTurn_alone []) (.pass n ?_ ⟨_, List.mem_singleton_self _, rfl⟩ ?_)
    · exact List.forall_mem_singleton.2 (.inl (Nat.le_refl _))
    · rw [List.map_singleton, later, Nat.sub_self]
      exact ih _

/-- It is the turn of the first in the list if he has never been asleep. -/
theorem hasTurn_first (ms : List (Companion ι)) : HasTurn [] [] ms where
  before _ h := absurd h List.not_mem_nil
  after m _ := .inr (List.not_lt_nil m.slept)

/-- Whoever does not want to go on may stand in front. -/
theorem hasTurn_cons {before after : List (Companion ι)} {slept : List Nat}
    (h : HasTurn before slept after) {m : Companion ι} (hm : m.RestsFor 1) :
    HasTurn (m :: before) slept after where
  before := List.forall_mem_cons.2 ⟨.inl hm, h.before⟩
  after := h.after

/-- Somebody who has ended keeps nobody waiting. -/
theorem beside_done (h : Arranges false t d ms) (who : ι) (o : Outcome) :
    Arranges false t (Course.beside done (done o) d) (⟨who, 0, done o, []⟩ :: ms) := by
  have hrests (n : Nat) : (ended ([], who, o)).RestsFor n := restsFor_ended n _
  induction h with
  | finish t xs => exact .finish t (([], who, o) :: xs)
  | call hturn _ ih => exact .call (hasTurn_cons hturn (hrests 1)) ih
  | sleep hturn _ ih => exact .sleep (hasTurn_cons hturn (hrests 1)) ih
  | pass n hrest hwakes _ ih =>
    obtain ⟨m, hm, hn⟩ := hwakes
    refine .pass n (List.forall_mem_cons.2 ⟨hrests _, hrest⟩)
      ⟨m, List.mem_cons_of_mem _ hm, hn⟩ ?_
    rw [List.map_cons, later_ended]
    exact ih

/-- The rest of a pause in which nobody is awake. -/
theorem rest {n k : Nat} (hrest : ∀ m ∈ ms, m.RestsFor (n + k))
    (hwakes : ∃ m ∈ ms, m.rest = n + k)
    (h : Arranges fifo (t + (n + k)) d (ms.map (later (n + k)))) :
    Arranges fifo (t + n) (after k d) (ms.map (later n)) := by
  cases k with
  | zero => exact h
  | succ k =>
    obtain ⟨m, hm, hk⟩ := hwakes
    refine .pass k ?_ ⟨_, List.mem_map_of_mem hm, ?_⟩ ?_
    · exact List.forall_mem_map.2 fun m hm => (hrest m hm).later
    · show m.rest - n = k + 1
      omega
    · rwa [map_later_later, Nat.add_assoc]

/-- Somebody sleeps, and the others go on. -/
theorem besideSleeper {wake : Course → Course} {who : ι}
    (hwake : ∀ {t : Nat} {d : Course} {ms : List (Companion ι)}, Arranges false t d ms →
      Arranges false t (wake d) (⟨who, 0, c, []⟩ :: ms))
    (h : Arranges false t d ms) (n : Nat) :
    Arranges false t (Course.besideSleeper wake (n + 1) d) (⟨who, n + 1, c, []⟩ :: ms) := by
  have hrests {n k : Nat} (hle : k ≤ n) : (Companion.mk who n c []).RestsFor k := .inl hle
  induction h generalizing n with
  | finish t xs =>
    have hover := hwake (Arranges.finish (t + (n + 1)) xs)
    refine .pass n (List.forall_mem_cons.2 ⟨hrests (Nat.le_refl _), ?_⟩)
      ⟨_, List.mem_cons_self, rfl⟩ ?_
    · exact List.forall_mem_map.2 fun x _ => restsFor_ended _ x
    · rw [List.map_cons, map_later_ended, later, Nat.sub_self]
      exact hover
  | call hturn _ ih => exact .call (hasTurn_cons hturn (hrests (Nat.le_add_left 1 n))) fun x => ih x n
  | sleep hturn _ ih => exact .sleep (hasTurn_cons hturn (hrests (Nat.le_add_left 1 n))) (ih n)
  | @pass t ms k hrest hwakes d hd ih =>
    simp only [Course.besideSleeper]
    split
    · next hle =>
      -- The sleeper is the first to wake up.
      obtain ⟨j, hj⟩ := Nat.exists_eq_add_of_le hle
      rw [hj] at hrest hwakes hd ⊢
      rw [Nat.add_sub_cancel_left]
      have hshort : ∀ m ∈ ms, m.RestsFor (n + 1) :=
        fun m hm => (hrest m hm).of_le (Nat.le_add_right _ j)
      refine .pass n (List.forall_mem_cons.2 ⟨hrests (Nat.le_refl _), hshort⟩)
        ⟨_, List.mem_cons_self, rfl⟩ ?_
      rw [List.map_cons, later, Nat.sub_self]
      exact hwake (rest hrest hwakes hd)
    · next hle =>
      obtain ⟨j, hj⟩ : ∃ j, n + 1 = k + 1 + (j + 1) := ⟨n - k - 1, by omega⟩
      obtain ⟨m, hm, hk⟩ := hwakes
      refine .pass k (List.forall_mem_cons.2 ⟨hrests (by omega), hrest⟩)
        ⟨m, List.mem_cons_of_mem _ hm, hk⟩ ?_
      rw [List.map_cons, later, hj, Nat.add_sub_cancel_left]
      exact ih j

/-- A course for itself before those of others. -/
theorem beside (hc : c.Solo allowed) (who : ι) (h : Arranges false t d ms) :
    Arranges false t (Course.beside done c d) (⟨who, 0, c, []⟩ :: ms) := by
  induction hc generalizing t d ms with
  | done o => exact h.beside_done who o
  | @call r hr k hk ih =>
    have hcall : Arranges false t (Course.call r fun x => Course.beside done (k x) d)
        ([] ++ ⟨who, 0, Course.call r k, []⟩ :: ms) :=
      .call (hasTurn_first ms) fun x => ih x h
    exact hcall
  | @sleep n c hc ih =>
    have hsleep : Arranges false t
        (alarm (n + 1) (Course.besideSleeper (fun d => Course.beside done c d) (n + 1) d))
        ([] ++ ⟨who, 0, alarm (n + 1) (wait (n + 1) c), []⟩ :: ms) :=
      .sleep (hasTurn_first ms) (besideSleeper ih h n)
    exact hsleep

end Arranges

end Course

/-- **In order.** Activities side by side have their turns as they stand in the list. -/
theorem Activity.arranges_inOrder {allowed : ι → Request → Prop} {as : List (ι × Activity)}
    (has : ∀ x ∈ as, x.2.Solo (allowed x.1)) :
    (inOrder (as.map Prod.snd)).course.Arranges false 0 (beginning as) := by
  induction as with
  | nil => exact .finish 0 []
  | cons x as ih =>
    rw [List.forall_mem_cons] at has
    cases as with
    | nil => exact .self has.1.course x.1 0
    | cons y as => exact (ih has.2).beside has.1.course x.1

end Loyalty
