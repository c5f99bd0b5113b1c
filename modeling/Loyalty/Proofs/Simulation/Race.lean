import Mathlib.Logic.Function.Basic
import Loyalty.Simulation.Run

/-!
# Races

Any number of processes go on side by side, each under a name of its own, and take turns in any
order: a *schedule* is the list of the names in the order of the turns. With a turn a process makes
one request. It begins with its first turn, and `Race.ended` lists those that have ended, and with
what, in the order in which they did.

Main statement: the race in which all take their first turns before any of them takes a second one
is the one with the schedule that says so.
-/

namespace Loyalty.Simulation

open Function (update)
open History Repository

variable {ι α : Type}

/-- Processes that go on side by side. -/
structure Race (ι α : Type) where
  /-- what each of them has still to do -/
  processes : ι → Calls α
  /-- the world in which they are -/
  world : World
  /-- those that have ended, and with what, in the order in which they ended -/
  ended : List (ι × α)

theorem World.advanceAll_cons (p : Calls α) (ps : List (Calls α)) (w : World) :
    advanceAll (p :: ps) w =
      ((advance p w).1 :: (advanceAll ps (advance p w).2).1, (advanceAll ps (advance p w).2).2) :=
  rfl

theorem World.finishAll_append (ps qs : List (Calls α)) (w : World) :
    finishAll (ps ++ qs) w =
      ((finishAll ps w).1 ++ (finishAll qs (finishAll ps w).2).1,
        (finishAll qs (finishAll ps w).2).2) := by
  induction ps generalizing w with
  | nil => rfl
  | cons p ps ih => simp [finishAll, ih]

namespace Race

/-- The names of those that have ended. -/
def names (R : Race ι α) : List ι :=
  R.ended.map Prod.fst

theorem mem_names {R : Race ι α} {i : ι} : i ∈ R.names ↔ ∃ a, (i, a) ∈ R.ended := by
  simp [names]

variable [DecidableEq ι]

/-- A race in which somebody has taken a turn. -/
def step (R : Race ι α) (i : ι) : Race ι α :=
  let (p, w) := World.advance (R.processes i) R.world
  { processes := update R.processes i p
    world := w
    ended := match p with
      | .done a => if i ∈ R.names then R.ended else R.ended ++ [(i, a)]
      | .call .. => R.ended }

/-- A race after a schedule. -/
def run (R : Race ι α) (schedule : List ι) : Race ι α :=
  schedule.foldl step R

theorem run_append (R : Race ι α) (schedule later : List ι) :
    R.run (schedule ++ later) = (R.run schedule).run later :=
  List.foldl_append

/-- A turn changes nothing for the others. -/
theorem step_of_ne (R : Race ι α) {i j : ι} (h : j ≠ i) :
    (R.step i).processes j = R.processes j :=
  Function.update_of_ne h _ _

theorem step_self (R : Race ι α) (i : ι) :
    (R.step i).processes i = (World.advance (R.processes i) R.world).1 :=
  Function.update_self i _ _

theorem run_of_notMem (R : Race ι α) {schedule : List ι} {j : ι} (h : j ∉ schedule) :
    (R.run schedule).processes j = R.processes j := by
  induction schedule generalizing R with
  | nil => rfl
  | cons i schedule ih =>
    obtain ⟨hne, hrest⟩ := not_or.1 (List.mem_cons.not.1 h)
    exact (ih _ hrest).trans (R.step_of_ne hne)

/-- Everybody takes one turn. -/
theorem advanceAll_eq (R : Race ι α) {schedule : List ι} (h : schedule.Nodup) :
    World.advanceAll (schedule.map R.processes) R.world =
      (schedule.map (R.run schedule).processes, (R.run schedule).world) := by
  induction schedule generalizing R with
  | nil => rfl
  | cons i schedule ih =>
    obtain ⟨hi, hrest⟩ := List.nodup_cons.1 h
    have hothers : schedule.map R.processes = schedule.map (R.step i).processes := by
      refine List.map_congr_left fun j hj => (R.step_of_ne ?_).symm
      rintro rfl
      exact hi hj
    -- Nobody is named twice, so what the first one has still to do is left alone from now on.
    have hself : ((R.step i).run schedule).processes i = (World.advance (R.processes i) R.world).1 :=
      ((R.step i).run_of_notMem hi).trans (R.step_self i)
    rw [List.map_cons, World.advanceAll_cons, hothers]
    show (_ :: (World.advanceAll _ (R.step i).world).1, (World.advanceAll _ (R.step i).world).2) = _
    rw [ih _ hrest, ← hself]
    rfl

/-- Those who have ended stay so, with what they ended. -/
theorem ended_step (R : Race ι α) (i : ι) : R.ended <+: (R.step i).ended := by
  rw [step]
  rcases World.advance (R.processes i) R.world with ⟨p, w⟩
  cases p with
  | call r k => exact List.prefix_rfl
  | done a =>
    simp only
    split
    · exact List.prefix_rfl
    · exact List.prefix_append _ _

theorem ended_run (R : Race ι α) (schedule : List ι) : R.ended <+: (R.run schedule).ended := by
  induction schedule generalizing R with
  | nil => exact List.prefix_rfl
  | cons i schedule ih => exact (R.ended_step i).trans (ih _)

/-- Who has ended takes idle turns. -/
theorem step_of_mem {R : Race ι α} {i : ι} {a : α} (hdone : R.processes i = .done a)
    (hi : i ∈ R.names) : R.step i = R := by
  rw [step, hdone, World.advance]
  simp only
  rw [if_pos hi, ← hdone, Function.update_eq_self]

/-- Who goes on after a turn has not ended. -/
theorem ended_of_call {R : Race ι α} {i : ι} {r : Request} {k : r.Answer → Calls α} {w : World}
    (h : World.advance (R.processes i) R.world = (.call r k, w)) :
    (R.step i).ended = R.ended := by
  rw [step, h]

/-- Who is done after a turn has ended with it. -/
theorem ended_of_done {R : Race ι α} {i : ι} {a : α} {w : World}
    (h : World.advance (R.processes i) R.world = (.done a, w)) (hi : i ∉ R.names) :
    (R.step i).ended = R.ended ++ [(i, a)] := by
  rw [step, h]
  exact if_neg hi

/-! ## Batches -/

/-- The processes that store batches, in the beginning. -/
def storing (batches : ι → List Event) (w : World) : Race ι (Except Failure Applied) where
  processes i := (apply (batches i)).run
  world := w
  ended := []

/-- `World.race` is a race with one of the many schedules. -/
theorem race_eq (batches : ι → List Event) {schedule : List ι} (h : schedule.Nodup) (w : World) :
    World.race (schedule.map batches) w =
      let R := (storing batches w).run (schedule ++ schedule)
      World.finishAll (schedule.map R.processes) R.world := by
  have hstart : (schedule.map batches).map (fun es => (apply es).run) =
      schedule.map (storing batches w).processes := List.map_map ..
  have hfirst : World.advanceAll (schedule.map (storing batches w).processes) w = _ :=
    (storing batches w).advanceAll_eq h
  have hsecond := ((storing batches w).run schedule).advanceAll_eq h
  rw [World.race, hstart]
  simp only [run_append, hfirst, hsecond]

end Race

end Loyalty.Simulation
