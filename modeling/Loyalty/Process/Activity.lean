import Loyalty.Process.Calls

/-!
# Activities

An `Activity` is what a handler does: it makes requests, it pauses, and it may let other activities
go on side by side and wait until all of them have ended. It ends with an outcome.

The tree keeps the sides of a fork and the members of a crowd apart, so it does not fix in which
order their requests are made. One order is that of `Activity.course`: the sides of a fork go on in
the order of their places, the members of a crowd in the order in which they fell asleep.
-/

namespace Loyalty

namespace Outcome

/-- The outcome of two activities together: the failure of the first, if it failed, and otherwise
the outcome of the second. -/
def both : Outcome → Outcome → Outcome
  | .error f, _ => .error f
  | .ok (), o => o

end Outcome

/-- What a handler does. -/
inductive Activity : Type where
  /-- the activity ends -/
  | done (o : Outcome)
  /-- the activity makes a request and goes on with the answer -/
  | call (r : Request) (k : r.Answer → Activity)
  /-- the activity pauses for so many nanoseconds -/
  | pause (nanos : Nat) (next : Activity)
  /-- two activities go on side by side, and the activity goes on when both have ended -/
  | fork (first second : Activity) (k : Outcome → Activity)
  /-- many activities go on side by side, and the activity goes on when all have ended -/
  | crowd (size : Nat) (members : Fin size → Activity) (k : Outcome → Activity)

namespace Activity

/-- The activity that does nothing. -/
def idle : Activity := done (.ok ())

/-- The activity that fails at once. -/
def fail (f : Failure) : Activity := done (.error f)

/-- Goes on after an activity, whatever its outcome. -/
def bind : Activity → (Outcome → Activity) → Activity
  | done o, g => g o
  | call r k, g => call r fun x => (k x).bind g
  | pause n a, g => pause n (a.bind g)
  | fork a b k, g => fork a b fun o => (k o).bind g
  | crowd n members k, g => crowd n members fun o => (k o).bind g

/-- Goes on after an activity that succeeded. -/
def andThen (a b : Activity) : Activity :=
  a.bind fun
    | .ok () => b
    | .error f => fail f

/-- An activity that describes its failure in another way. -/
def mapFailure (describe : Failure → Failure) (a : Activity) : Activity :=
  a.bind fun
    | .ok () => idle
    | .error f => fail (describe f)

/-- Activities side by side, who go on in the order of the list when several are free to. The
outcome is the failure of the first of them that failed. -/
def inOrder : List Activity → Activity
  | [] => idle
  | [a] => a
  | a :: as => fork a (inOrder as) done

/-- How many activities go on in the order of a list. More of them form a crowd. -/
def mostInOrder : Nat := 30

/-- All activities side by side. The outcome is the failure of the first of them that failed. -/
def all (as : List Activity) : Activity :=
  if as.length ≤ mostInOrder then inOrder as
  else crowd as.length as.get done

/-- Makes requests and goes on with their result. -/
def ofCalls {α : Type} : Calls α → (α → Activity) → Activity
  | .done a, g => g a
  | .call r k, g => call r fun x => ofCalls (k x) g

/-- An attempt, as an activity. -/
def ofAttempt (m : Attempt Unit) : Activity :=
  ofCalls m.run done

/-- Makes an attempt and goes on with its result when it succeeded. -/
def attempt {α : Type} (m : Attempt α) (g : α → Activity) : Activity :=
  ofCalls m.run fun
    | .ok a => g a
    | .error f => fail f

theorem bind_done (a : Activity) : a.bind done = a := by
  induction a with
  | done o => rfl
  | call r k ih => exact congrArg (call r) (funext ih)
  | pause n a ih => exact congrArg (pause n) ih
  | fork a b k _ _ ih => exact congrArg (fork a b) (funext ih)
  | crowd n members k _ ih => exact congrArg (crowd n members) (funext ih)

end Activity

end Loyalty
