import Loyalty.Process.Activity

/-!
# Courses

A `Course` is an activity put into one order: nothing goes on side by side any more, and the pauses
are those of the whole. Before a course waits, alarms are set. It waits until the first of them goes
off, and there may be others that go on running; so it is known how long each sleeper of the whole
has been asleep, which matters to those who wake up in its company.

`Course.beside` lets two courses go on side by side. Requests take no time; only pauses do. The
first side goes on until it waits or ends, then the second does, and then time goes by until the
earlier of the two is woken. When both are woken at once, the first side goes on first.
-/

namespace Loyalty

/-- Requests and pauses, one after the other. -/
inductive Course : Type where
  /-- the end -/
  | done (o : Outcome)
  /-- a request, and how it goes on with the answer -/
  | call (r : Request) (k : r.Answer → Course)
  /-- an alarm is set that goes off after so many nanoseconds -/
  | alarm (nanos : Nat) (next : Course)
  /-- so many nanoseconds in which nothing is asked, until the first alarm goes off -/
  | wait (nanos : Nat) (next : Course)

namespace Course

/-- A course after the rest of a pause, of which nothing may be left. -/
def after : Nat → Course → Course
  | 0, c => c
  | n + 1, c => wait (n + 1) c

/-- A course after a pause, for which an alarm is set unless it has no length. -/
def sleep : Nat → Course → Course
  | 0, c => c
  | n + 1, c => alarm (n + 1) (wait (n + 1) c)

/-- Goes on after a course. -/
def bind : Course → (Outcome → Course) → Course
  | done o, g => g o
  | call r k, g => call r fun x => (k x).bind g
  | alarm n c, g => alarm n (c.bind g)
  | wait n c, g => wait n (c.bind g)

/-- The second side of a fork goes on while the first sleeps for another `nanos`. `wake` tells how
it goes on when the first side wakes up and finds the second in a given place. -/
def besideSleeper (wake : Course → Course) : Nat → Course → Course
  | nanos, done o => after nanos (wake (done o))
  | nanos, call r k => call r fun x => besideSleeper wake nanos (k x)
  | nanos, alarm n c => alarm n (besideSleeper wake nanos c)
  | nanos, wait n c =>
    if nanos ≤ n then after nanos (wake (after (n - nanos) c))
    else wait n (besideSleeper wake (nanos - n) c)

/-- Two courses side by side, and how it goes on with the outcome of both. -/
def beside (k : Outcome → Course) : Course → Course → Course
  | done o, second => second.bind fun p => k (o.both p)
  | call r f, second => call r fun x => beside k (f x) second
  | alarm n c, second => alarm n (beside k c second)
  | wait n c, second => besideSleeper (fun s => beside k c s) n second

variable {σ : Type}

/-- Lets a course happen. -/
def run (s : Surroundings σ) : Course → σ → Outcome × σ
  | done o, w => (o, w)
  | call r k, w => (k (s.answer r w).1).run s (s.answer r w).2
  | alarm _ c, w => c.run s w
  | wait n c, w => c.run s (s.pass n w)

theorem run_bind (s : Surroundings σ) (c : Course) (g : Outcome → Course) (w : σ) :
    (c.bind g).run s w = (g (c.run s w).1).run s (c.run s w).2 := by
  induction c generalizing w with
  | done o => rfl
  | call r k ih => exact ih _ _
  | alarm n c ih => exact ih _
  | wait n c ih => exact ih _

theorem bind_assoc (c : Course) (f g : Outcome → Course) :
    (c.bind f).bind g = c.bind fun o => (f o).bind g := by
  induction c with
  | done o => rfl
  | call r k ih => exact congrArg (call r) (funext ih)
  | alarm n c ih => exact congrArg (alarm n) ih
  | wait n c ih => exact congrArg (wait n) ih

theorem after_bind (n : Nat) (c : Course) (g : Outcome → Course) :
    (after n c).bind g = after n (c.bind g) := by
  cases n <;> rfl

theorem sleep_bind (n : Nat) (c : Course) (g : Outcome → Course) :
    (sleep n c).bind g = sleep n (c.bind g) := by
  cases n <;> rfl

/-- A pause that has a length takes that time. -/
theorem run_sleep (s : Surroundings σ) {n : Nat} (hn : 0 < n) (c : Course) (w : σ) :
    (sleep n c).run s w = c.run s (s.pass n w) := by
  cases n with
  | zero => exact absurd hn (Nat.lt_irrefl 0)
  | succ n => rfl

theorem besideSleeper_bind {wake wake' : Course → Course} {g : Outcome → Course}
    (h : ∀ c, (wake c).bind g = wake' c) (c : Course) (n : Nat) :
    (besideSleeper wake n c).bind g = besideSleeper wake' n c := by
  induction c generalizing n with
  | done o => simp only [besideSleeper, after_bind, h]
  | call r k ih => exact congrArg (call r) (funext fun x => ih x n)
  | alarm m c ih => exact congrArg (alarm m) (ih n)
  | wait m c ih =>
    simp only [besideSleeper]
    split
    · rw [after_bind, h]
    · exact congrArg (wait m) (ih _)

theorem beside_bind (k g : Outcome → Course) (c d : Course) :
    (beside k c d).bind g = beside (fun o => (k o).bind g) c d := by
  induction c generalizing d with
  | done o => simp only [beside, bind_assoc]
  | call r f ih => exact congrArg (call r) (funext fun x => ih x d)
  | alarm n c ih => exact congrArg (alarm n) (ih d)
  | wait n c ih => exact besideSleeper_bind ih d n

end Course

end Loyalty
