import Mathlib.Logic.Function.Basic
import Loyalty.Proofs.Process.Transcript

/-!
# Interleavings

`Activity.run` lets an activity happen in one order. Here it may happen in any order: whoever is
free to go on may be the next to do so, request by request. A *place* says who that is within an
activity: which side of a fork, which member of a crowd, and so on inwards. `Activity.advance` lets
an activity go on at one place by one step. A pause may be over at any time.

A `Pool` is a number of activities that go on side by side in common surroundings. Somebody may
start another one at any time. `Pool.run` takes a pool through a list of moves; as a list may hold
any moves in any order, what holds after every list of moves holds for every interleaving. The log
of a pool says who asked for what and what the answer was, in the order in which it happened.

Main statement: every change of the surroundings is the answer to a request in the log, or time
that goes by.
-/

namespace Loyalty

open Function (update)

/-- Where within an activity something happens, from the outside inwards: 0 and 1 for the sides of
a fork, the number of a member for a crowd. -/
abbrev Place : Type := List Nat

/-- What happened in the order in which it happened: where, and what was asked and answered. -/
abbrev Log : Type := List (Place × Exchange)

namespace Log

/-- What was heard at a place. -/
def heardAt (log : Log) (π : Place) : List Exchange :=
  (log.filter fun x => x.1 = π).map Prod.snd

@[simp] theorem heardAt_nil (π : Place) : heardAt [] π = [] := rfl

theorem heardAt_append (log log' : Log) (π : Place) :
    heardAt (log ++ log') π = heardAt log π ++ heardAt log' π := by
  simp [heardAt]

theorem heardAt_cons (x : Place × Exchange) (log : Log) (π : Place) :
    heardAt (x :: log) π = if x.1 = π then x.2 :: heardAt log π else heardAt log π := by
  by_cases h : x.1 = π <;> simp [heardAt, h]

theorem mem_of_mem_heardAt {log : Log} {π : Place} {x : Exchange} (h : x ∈ log.heardAt π) :
    (π, x) ∈ log := by
  obtain ⟨⟨ρ, y⟩, hy, rfl⟩ := List.mem_map.1 h
  obtain ⟨hmem, hplace⟩ := List.mem_filter.1 hy
  obtain rfl : ρ = π := by simpa using hplace
  exact hmem

/-- Something holds of each exchange of a log, given what happened before it. -/
inductive Each (Q : Log → Place → Exchange → Prop) : Log → Prop where
  /-- nothing has happened -/
  | nil : Each Q []
  /-- one more exchange happened -/
  | more {log : Log} (h : Each Q log) {π : Place} {x : Exchange} (hx : Q log π x) :
    Each Q (log ++ [(π, x)])

variable {Q : Log → Place → Exchange → Prop}

theorem Each.of_append {log : Log} (h : Each Q log) {before after : Log}
    (hlog : log = before ++ after) : Each Q before := by
  induction h generalizing after with
  | nil =>
    obtain rfl : before = [] := (List.append_eq_nil_iff.1 hlog.symm).1
    exact .nil
  | more h hx ih =>
    rcases List.eq_nil_or_concat after with rfl | ⟨after, y, rfl⟩
    · rw [List.append_nil] at hlog
      subst hlog
      exact .more h hx
    · rw [List.concat_eq_append, ← List.append_assoc] at hlog
      exact ih (List.append_inj' hlog rfl).1

/-- What holds of each exchange of a log holds of the last one. -/
theorem Each.of_concat {log : Log} {π : Place} {x : Exchange} (h : Each Q (log ++ [(π, x)])) :
    Each Q log ∧ Q log π x := by
  generalize hlog : log ++ [(π, x)] = log' at h
  cases h with
  | nil => simp at hlog
  | more h hx =>
    obtain ⟨rfl, hlast⟩ := List.append_inj' hlog rfl
    cases hlast
    exact ⟨h, hx⟩

/-- And it holds of any one of them. -/
theorem Each.holds {before after : Log} {π : Place} {x : Exchange}
    (h : Each Q (before ++ (π, x) :: after)) : Q before π x := by
  have hlast : Each Q (before ++ [(π, x)]) := h.of_append (List.append_cons ..)
  exact hlast.of_concat.2

end Log

namespace Activity

variable {σ : Type}

/-- The outcome of an activity that has ended. -/
def outcome? : Activity → Option Outcome
  | done o => some o
  | _ => none

/-- The outcome of a fork of which both sides have ended. -/
def forkOutcome? (first second : Activity) : Option Outcome := do
  some ((← first.outcome?).both (← second.outcome?))

/-- The outcome of a crowd of which all members have ended. -/
def crowdOutcome? {n : Nat} (members : Fin n → Activity) : Option Outcome :=
  (List.ofFn members).foldr (fun a o => do some ((← a.outcome?).both (← o))) (some (.ok ()))

/-- What came of a step: what is left to do, the surroundings, and what was asked and answered, if
anything was. -/
structure Stepped (σ : Type) where
  /-- what is left to do -/
  activity : Activity
  /-- the state of the surroundings -/
  state : σ
  /-- what was asked and answered, and where -/
  exchange? : Option (Place × Exchange)

namespace Stepped

/-- A step in which nothing is asked. -/
def silent (a : Activity) (w : σ) : Stepped σ :=
  ⟨a, w, none⟩

/-- A step of a part, as a step of the whole. -/
def within (i : Nat) (whole : Activity → Activity) (x : Stepped σ) : Stepped σ :=
  ⟨whole x.activity, x.state, x.exchange?.map fun e => (i :: e.1, e.2)⟩

end Stepped

/-- Lets an activity go on at a place. Where nobody is, or nobody is free to go on, nothing
happens. -/
def advance (s : Surroundings σ) (w : σ) : Activity → Place → Stepped σ
  | done o, _ => .silent (done o) w
  | call r k, _ => ⟨k (s.answer r w).1, (s.answer r w).2, some ([], ⟨r, (s.answer r w).1⟩)⟩
  | pause _ next, _ => .silent next w
  | fork a b k, π =>
    match forkOutcome? a b with
    | some o => .silent (k o) w
    | none =>
      match π with
      | [] => .silent (fork a b k) w
      | 0 :: ρ => (a.advance s w ρ).within 0 fun a' => fork a' b k
      | (_ + 1) :: ρ => (b.advance s w ρ).within 1 fun b' => fork a b' k
  | crowd n members k, π =>
    match crowdOutcome? members with
    | some o => .silent (k o) w
    | none =>
      match π with
      | [] => .silent (crowd n members k) w
      | i :: ρ =>
        if h : i < n then
          ((members ⟨i, h⟩).advance s w ρ).within i fun a => crowd n (update members ⟨i, h⟩ a) k
        else .silent (crowd n members k) w

/-- What a step did to the surroundings: nothing, or what the answer to the request did. -/
inductive Stepped.Honest (s : Surroundings σ) (w : σ) : Stepped σ → Prop where
  /-- nothing was asked -/
  | silent (a : Activity) : Honest s w ⟨a, w, none⟩
  /-- a request was answered -/
  | answered (a : Activity) (π : Place) (r : Request) :
      Honest s w ⟨a, (s.answer r w).2, some (π, ⟨r, (s.answer r w).1⟩)⟩

theorem Stepped.Honest.within {s : Surroundings σ} {w : σ} {x : Stepped σ} (h : x.Honest s w)
    (i : Nat) (whole : Activity → Activity) : (x.within i whole).Honest s w := by
  cases h with
  | silent a => exact .silent _
  | answered a π r => exact .answered _ _ r

/-- Nothing changes the surroundings but the answers that they give. -/
theorem advance_honest (s : Surroundings σ) (w : σ) (a : Activity) (π : Place) :
    (a.advance s w π).Honest s w := by
  induction a generalizing π with
  | done o => exact .silent _
  | call r k => exact .answered _ _ r
  | pause n next => exact .silent _
  | fork a b k iha ihb _ =>
    unfold advance
    split
    · exact .silent _
    · split
      · exact .silent _
      · exact (iha _).within 0 _
      · exact (ihb _).within 1 _
  | crowd n members k ih _ =>
    unfold advance
    split
    · exact .silent _
    · split
      · exact .silent _
      · split
        · exact (ih _ _).within _ _
        · exact .silent _

end Activity

/-! ## Pools -/

/-- What may happen next to a pool. -/
inductive Move (ι : Type) where
  /-- somebody starts something -/
  | start (x : ι)
  /-- a member goes on at a place -/
  | go (member : Nat) (place : Place)
  /-- so many nanoseconds go by -/
  | pass (nanos : Nat)

/-- Activities that go on side by side. -/
structure Pool (σ : Type) where
  /-- the state of the surroundings -/
  state : σ
  /-- what each of them has still to do, in the order in which they were started -/
  members : List Activity
  /-- what happened; a place begins with the number of a member -/
  log : Log

namespace Pool

variable {σ ι : Type}

/-- A pool in the beginning. -/
def empty (w : σ) : Pool σ :=
  ⟨w, [], []⟩

/-- A pool in which the member with a number has taken a step. -/
def took (P : Pool σ) (i : Nat) (x : Activity.Stepped σ) : Pool σ where
  state := x.state
  members := P.members.set i x.activity
  log := P.log ++ (x.exchange?.map fun e => (i :: e.1, e.2)).toList

/-- A pool after a move. -/
def step (s : Surroundings σ) (launch : ι → Activity) (P : Pool σ) : Move ι → Pool σ
  | .start x => { P with members := P.members ++ [launch x] }
  | .pass nanos => { P with state := s.pass nanos P.state }
  | .go i π =>
    match P.members[i]? with
    | none => P
    | some a => P.took i (a.advance s P.state π)

/-- A pool after a list of moves. -/
def run (s : Surroundings σ) (launch : ι → Activity) (P : Pool σ) (moves : List (Move ι)) :
    Pool σ :=
  moves.foldl (step s launch) P

/-- What a move did to the surroundings and to the log: nothing, or time went by, or a request was
answered. -/
inductive Moved (s : Surroundings σ) (P Q : Pool σ) : Prop where
  /-- nothing happened that others can see -/
  | silent (hstate : Q.state = P.state) (hlog : Q.log = P.log)
  /-- time went by -/
  | passed (nanos : Nat) (hstate : Q.state = s.pass nanos P.state) (hlog : Q.log = P.log)
  /-- a request was answered -/
  | answered (π : Place) (r : Request) (hstate : Q.state = (s.answer r P.state).2)
    (hlog : Q.log = P.log ++ [(π, ⟨r, (s.answer r P.state).1⟩)])

theorem moved_step (s : Surroundings σ) (launch : ι → Activity) (P : Pool σ) (move : Move ι) :
    Moved s P (P.step s launch move) := by
  cases move with
  | start x => exact .silent rfl rfl
  | pass nanos => exact .passed nanos rfl rfl
  | go i π =>
    rw [step]
    split
    · exact .silent rfl rfl
    · next a _ =>
      have hhonest := a.advance_honest s P.state π
      generalize a.advance s P.state π = x at hhonest
      cases hhonest with
      | silent a => exact .silent rfl (List.append_nil _)
      | answered a ρ r => exact .answered (i :: ρ) r rfl rfl

theorem Moved.log_grows {s : Surroundings σ} {P Q : Pool σ} (h : Moved s P Q) :
    P.log <+: Q.log := by
  cases h with
  | silent _ hlog => exact hlog ▸ List.prefix_rfl
  | passed _ _ hlog => exact hlog ▸ List.prefix_rfl
  | answered π r _ hlog => exact hlog ▸ List.prefix_append _ _

/-- Further moves add to the log. -/
theorem log_run (s : Surroundings σ) (launch : ι → Activity) (P : Pool σ)
    (moves : List (Move ι)) : P.log <+: (P.run s launch moves).log := by
  induction moves generalizing P with
  | nil => exact List.prefix_rfl
  | cons move moves ih => exact (moved_step s launch P move).log_grows.trans (ih _)

end Pool

end Loyalty
