import Loyalty.Process.Crowd

/-!
# The schedule of an activity

`Activity.course` puts an activity into one order, and `Activity.run` lets it happen in that order.
The two sides of a fork are `Course.beside` each other, and those of a crowd are a `Crowd`.

No pause goes on for more than thirty years: whoever wanted to sleep for longer wakes up then.

Main statement: an activity that follows another one happens after it.
-/

namespace Loyalty.Activity

variable {σ : Type}

/-- The longest time for which a pause goes on, in nanoseconds: thirty years of 365 days. -/
def longestSleep : Nat :=
  30 * 365 * 86400 * Time.nanosPerSecond

/-- The course of an activity. -/
def course : Activity → Course
  | done o => .done o
  | call r k => .call r fun x => (k x).course
  | pause n a => .sleep (min n longestSleep) a.course
  | fork a b k => .beside (fun o => (k o).course) a.course b.course
  | crowd _ members k =>
    (Crowd.ofList (List.ofFn fun i => (members i).course)).course fun o => (k o).course

/-- Lets an activity happen. -/
def run (s : Surroundings σ) (a : Activity) (w : σ) : Outcome × σ :=
  a.course.run s w

@[simp] theorem run_done (s : Surroundings σ) (o : Outcome) (w : σ) :
    (done o).run s w = (o, w) := rfl

@[simp] theorem run_call (s : Surroundings σ) (r : Request) (k : r.Answer → Activity) (w : σ) :
    (call r k).run s w = (k (s.answer r w).1).run s (s.answer r w).2 := rfl

@[simp] theorem run_pause_zero (s : Surroundings σ) (a : Activity) (w : σ) :
    (pause 0 a).run s w = a.run s w := rfl

/-- A pause that has a length takes that time, up to the longest. -/
theorem run_pause (s : Surroundings σ) {n : Nat} (hn : 0 < n) (a : Activity) (w : σ) :
    (pause n a).run s w = a.run s (s.pass (min n longestSleep) w) := by
  have hpos : 0 < min n longestSleep := by
    rw [longestSleep, Time.nanosPerSecond]
    omega
  exact Course.run_sleep s hpos a.course w

theorem course_bind (a : Activity) (g : Outcome → Activity) :
    (a.bind g).course = a.course.bind fun o => (g o).course := by
  induction a with
  | done o => rfl
  | call r k ih => exact congrArg (Course.call r) (funext ih)
  | pause n a ih => simp only [Activity.bind, course, Course.sleep_bind, ih]
  | fork a b k _ _ ih =>
    simp only [Activity.bind, course, Course.beside_bind]
    exact congrArg (fun h => Course.beside h a.course b.course) (funext ih)
  | crowd n members k _ ih =>
    simp only [Activity.bind, course, Crowd.course_bind]
    exact congrArg (fun h => Crowd.course h _) (funext ih)

/-- An activity that follows another one happens after it, in the state that the other one
leaves. -/
theorem run_bind (s : Surroundings σ) (a : Activity) (g : Outcome → Activity) (w : σ) :
    (a.bind g).run s w = (g (a.run s w).1).run s (a.run s w).2 := by
  simp only [run, course_bind, Course.run_bind]

end Loyalty.Activity
