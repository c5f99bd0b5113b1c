import Loyalty.Proofs.Event.Order
import Loyalty.Proofs.User.Replay
import Loyalty.Simulation.Supply

/-!
# Replays in disorder and in parts

A replay puts the history in order before it applies anything. So the list in which a history is
given stands for its order only, and a replay can be interrupted wherever no event that is still to
come belongs before one that was applied: going on later from the user who was reached comes to the
same as never having stopped. Both hold of replays that fail as well, for the failure and for the
user who is left behind.

Main statement: a replay is the same for every list of the same events with different versions, and
the same in one go as in parts.
-/

namespace Loyalty

open Simulation.Supply (clock)

namespace User

/-- Replays another history onto the user whom a replay has reached, unless something has stopped
it. -/
def Replayed.resume (r : Replayed) (history : List Event) : Replayed :=
  match r.failure? with
  | none => r.user.apply history
  | some _ => r

theorem apply_nil (u : User) : u.apply [] = ⟨u, none⟩ := by
  rw [apply, History.sorted_eq_self List.Pairwise.nil, applyInOrder]

/-- Putting a history in order first makes no difference. -/
theorem apply_sorted (u : User) (history : List Event) :
    u.apply (History.sorted history) = u.apply history := by
  rw [apply, apply, History.sorted_sorted]

/-- Events of different versions may be given in any order. -/
theorem apply_perm (u : User) {history history' : List Event}
    (hversions : (history.map Event.version).Nodup) (hperm : history'.Perm history) :
    u.apply history' = u.apply history := by
  rw [apply, apply, History.sorted_eq_of_perm hperm hversions]

/-- A history in two parts, of which the second does not begin before the first ends. -/
theorem apply_append (u : User) {earlier later : List Event}
    (h : ∀ a ∈ earlier, ∀ b ∈ later, a.version ≤ b.version) :
    u.apply (earlier ++ later) = (u.apply earlier).resume later := by
  rw [apply, History.sorted_append h, applyInOrder_append, Replayed.resume]
  rfl

/-- A history in any number of parts. -/
theorem apply_flatten (u : User) {parts : List (List Event)}
    (h : parts.Pairwise fun es fs => ∀ a ∈ es, ∀ b ∈ fs, a.version ≤ b.version) :
    u.apply parts.flatten = parts.foldl Replayed.resume ⟨u, none⟩ := by
  -- The induction is from the last part, which is resumed from what the others come to.
  induction parts using List.reverseRecOn with
  | nil => exact u.apply_nil
  | append_singleton parts last ih =>
    obtain ⟨hparts, -, hlast⟩ := List.pairwise_append.1 h
    have hbetween : ∀ a ∈ parts.flatten, ∀ b ∈ last, a.version ≤ b.version := by
      intro a ha b hb
      obtain ⟨es, hes, ha⟩ := List.mem_flatten.1 ha
      exact hlast es hes last (List.mem_singleton_self last) a ha b hb
    rw [List.flatten_append, List.flatten_singleton, u.apply_append hbetween, ih hparts,
      List.foldl_append, List.foldl_cons, List.foldl_nil]

end User

/-- **Replays in disorder and in parts.** A history has one order, which keeps its events and leaves
those of the same version as they stand, and replaying it in that order is replaying it. A replay is
the same for every list of the same events when no version occurs twice. And a replay in one go is
the same as a replay in parts, two or more, when no part begins before the one before it ends. -/
theorem replay_resumes :
    (∀ history : List Event, (History.sorted history).Perm history ∧
      (∀ es, History.InOrder history es ↔ es = History.sorted history) ∧
      ∀ u : User, u.apply (History.sorted history) = u.apply history) ∧
    (∀ (u : User) (history history' : List Event), (history.map Event.version).Nodup →
      history'.Perm history → u.apply history' = u.apply history) ∧
    (∀ (u : User) (earlier later : List Event),
      (∀ a ∈ earlier, ∀ b ∈ later, a.version ≤ b.version) →
      u.apply (earlier ++ later) = (u.apply earlier).resume later) ∧
    ∀ (u : User) (parts : List (List Event)),
      (parts.Pairwise fun es fs => ∀ a ∈ es, ∀ b ∈ fs, a.version ≤ b.version) →
      u.apply parts.flatten = parts.foldl User.Replayed.resume ⟨u, none⟩ := by
  refine ⟨fun history => ⟨History.sorted_perm history, fun es => History.inOrder_iff,
    fun u => u.apply_sorted history⟩, fun u history history' hversions hperm => ?_,
    fun u earlier later h => ?_, fun u parts h => ?_⟩
  · exact u.apply_perm hversions hperm
  · exact u.apply_append h
  · exact u.apply_flatten h

/-- How someone began who refers a friend. -/
def History.beginning : List Event :=
  [.ofChange "u" 1 (.created ⟨"ann", "a@x", "A", none⟩) (clock 1),
    .ofChange "u" 2 (.referralCreated ⟨"r", "A", "b@x", .sent⟩) (clock 2)]

/-- How it went on: another event of the version at which the beginning ends, and all points that
there are. -/
def History.windfall : List Event :=
  [.ofChange "u" 2 (.referralCompleted "r") (clock 3),
    .ofChange "u" 3 (.pointsEarned 4294967295) (clock 4)]

/-- One point more. -/
def Event.excess : Event :=
  .ofChange "u" 4 (.pointsEarned 1) (clock 5)

/-- All that came after the beginning. -/
def History.overflowing : List Event :=
  windfall ++ [.excess]

/-- Whom that leaves behind. -/
def User.brimful : User where
  id := "u"
  version := 3
  username := "ann"
  email := "a@x"
  points := 4294967295
  referralCode := some "A"
  referredByCode := none
  referrals := [⟨"r", "A", "b@x", .completed, clock 2, clock 3⟩]
  createdAt := some (clock 1)
  updatedAt := some (clock 4)
  deletedAt := none

/-- Why it went no further. -/
def Failure.tooManyPoints : Failure :=
  .invalidPayload "u" .pointsEarned "points balance overflow"

theorem overflowing_resumes :
    ((History.overflowing.map Event.version).Nodup ∧
      History.overflowing.reverse.Perm History.overflowing ∧
      ((User.new "u").apply History.beginning).user.apply History.overflowing.reverse =
        ((User.new "u").apply History.beginning).user.apply History.overflowing) ∧
    ((∀ a ∈ History.beginning.reverse, ∀ b ∈ History.overflowing.reverse,
        a.version ≤ b.version) ∧
      ((User.new "u").apply History.beginning.reverse).resume History.overflowing.reverse =
        ⟨.brimful, some .tooManyPoints⟩) ∧
    [History.beginning.reverse, [], History.overflowing.reverse].Pairwise
        (fun es fs => ∀ a ∈ es, ∀ b ∈ fs, a.version ≤ b.version) ∧
      [History.beginning.reverse, [], History.overflowing.reverse].foldl User.Replayed.resume
        ⟨User.new "u", none⟩ = ⟨.brimful, some .tooManyPoints⟩ := by
  have hversions : (History.overflowing.map Event.version).Nodup := by decide
  have hbetween : ∀ a ∈ History.beginning.reverse, ∀ b ∈ History.overflowing.reverse,
      a.version ≤ b.version := by
    decide
  have hparts : [History.beginning.reverse, [], History.overflowing.reverse].Pairwise
      fun es fs => ∀ a ∈ es, ∀ b ∈ fs, a.version ≤ b.version := by
    decide
  have hwhole : (User.new "u").apply (History.beginning.reverse ++ History.overflowing.reverse) =
      ⟨.brimful, some .tooManyPoints⟩ := by
    rw [User.apply, History.sorted_append hbetween, History.sorted_reverse (by decide),
      History.sorted_reverse (by decide)]
    decide +kernel
  refine ⟨⟨hversions, List.reverse_perm _, ?_⟩, ⟨hbetween, ?_⟩, hparts, ?_⟩
  · exact replay_resumes.2.1 _ _ _ hversions (List.reverse_perm _)
  · rw [← replay_resumes.2.2.1 _ _ _ hbetween]
    exact hwhole
  · rw [← replay_resumes.2.2.2 _ _ hparts]
    exact hwhole

end Loyalty
