import Loyalty.Process.Request

/-!
# Processes that only make requests

`Calls α` is a process that makes requests one after the other, each depending on the answers
before it, and ends with an `α`. It is a tree: a node for every request, a branch for every
answer. Nothing is said about who answers, or about what others do between two requests; a
statement about a process that runs alone uses `Calls.run`, and one about processes that run side
by side takes their trees apart request by request.

`Attempt α` is such a process that may fail.
-/

namespace Loyalty

open Time

/-- A process that makes requests and ends with a value. -/
inductive Calls (α : Type) : Type where
  /-- the process ends -/
  | done (a : α)
  /-- the process makes a request and goes on with the answer -/
  | call (r : Request) (k : r.Answer → Calls α)

namespace Calls

variable {α β γ σ : Type}

/-- One process after the other. -/
protected def bind : Calls α → (α → Calls β) → Calls β
  | done a, g => g a
  | call r k, g => call r fun x => (k x).bind g

instance : Monad Calls where
  pure := done
  bind := Calls.bind

@[simp] theorem pure_eq (a : α) : (pure a : Calls α) = done a := rfl

@[simp] theorem done_bind (a : α) (g : α → Calls β) : done a >>= g = g a := rfl

@[simp] theorem call_bind (r : Request) (k : r.Answer → Calls α) (g : α → Calls β) :
    call r k >>= g = call r fun x => k x >>= g := rfl

theorem bind_done (m : Calls α) : m >>= done = m := by
  induction m with
  | done a => rfl
  | call r k ih => exact congrArg (call r) (funext ih)

theorem bind_assoc (m : Calls α) (f : α → Calls β) (g : β → Calls γ) :
    m >>= f >>= g = m >>= fun a => f a >>= g := by
  induction m with
  | done a => rfl
  | call r k ih => exact congrArg (call r) (funext ih)

/-- Runs a process alone. -/
def run (s : Surroundings σ) : Calls α → σ → α × σ
  | done a, w => (a, w)
  | call r k, w => (k (s.answer r w).1).run s (s.answer r w).2

@[simp] theorem run_done (s : Surroundings σ) (a : α) (w : σ) : (done a).run s w = (a, w) := rfl

@[simp] theorem run_call (s : Surroundings σ) (r : Request) (k : r.Answer → Calls α) (w : σ) :
    (call r k).run s w = (k (s.answer r w).1).run s (s.answer r w).2 := rfl

theorem run_bind (s : Surroundings σ) (m : Calls α) (g : α → Calls β) (w : σ) :
    (m >>= g).run s w = (g (m.run s w).1).run s (m.run s w).2 := by
  induction m generalizing w with
  | done a => rfl
  | call r k ih => exact ih _ _

/-- A single request. -/
def ask (r : Request) : Calls r.Answer :=
  call r done

end Calls

/-- A process that may fail. -/
abbrev Attempt (α : Type) : Type :=
  ExceptT Failure Calls α

namespace Attempt

/-- Fails or goes on, as already decided. -/
def ofExcept {α : Type} (x : Except Failure α) : Attempt α :=
  Calls.done x

/-- An attempt whose result is `a` when what it looks for is not there. -/
def orAbsent {α : Type} (a : α) (m : Attempt α) : Attempt α :=
  tryCatch m fun f => if f.isNotFound then pure a else throw f

/-- Asks what time it is. -/
def now : Attempt Timestamp :=
  ExceptT.lift (Calls.ask .now)

/-- Has a new code made. -/
def freshCode : Attempt String :=
  ExceptT.lift (Calls.ask .freshCode)

/-- Has a new identity made. -/
def freshId : Attempt String :=
  ExceptT.lift (Calls.ask .freshId)

/-- Saves a batch of events. -/
def save (events : List Event) : Attempt Unit :=
  Calls.ask (.save events)

/-- Loads all events of an aggregate. -/
def load (aggregateId : String) : Attempt (List Event) :=
  Calls.ask (.load aggregateId)

/-- Loads the events of an aggregate beyond a version. -/
def loadAfter (aggregateId : String) (version : Nat) : Attempt (List Event) :=
  Calls.ask (.loadAfter aggregateId version)

/-- Writes to the read model. -/
def write (w : Write) : Attempt Unit :=
  Calls.ask (.write w)

/-- Looks up the profile of a user. -/
def user (userId : String) : Attempt Profile :=
  Calls.ask (.user userId)

/-- Looks up the profile of the user with this code. -/
def userByReferralCode (code : String) : Attempt Profile :=
  Calls.ask (.userByReferralCode code)

end Attempt

end Loyalty
