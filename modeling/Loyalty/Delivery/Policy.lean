import Loyalty.Delivery.Pause
import Loyalty.Failure
import Loyalty.Text.Numeral
import Loyalty.Time.Duration

/-!
# The retry policy

How often, after what pauses and for how long the delivery of an event to a handler is repeated.
The settings come from three variables of the environment; a variable that is not set leaves the
default. Lengths of time are given in milliseconds there.

The first retry follows after the initial interval, and each further one after twice the pause
before it, doubled in single precision. No pause is longer than the longest retry time, unless the
initial interval is.
-/

namespace Loyalty

open Time Text

/-- A retry policy. -/
structure RetryPolicy where
  /-- the pause before the first retry -/
  initialInterval : Duration
  /-- how long after the first attempt a retry is considered -/
  maxElapsedTime : Duration
  /-- how many attempts may follow the first -/
  maxRetry : Nat
  deriving DecidableEq

namespace RetryPolicy

/-- Used where nothing is set. -/
def standard : RetryPolicy where
  initialInterval := .ofMillis 100 (by decide)
  maxElapsedTime := .ofMillis 500 (by decide)
  maxRetry := 3

/-! ## Settings -/

/-- The variables that hold settings. -/
inductive Setting where
  /-- the pause before the first retry, in milliseconds -/
  | initialInterval
  /-- how long retries are considered, in milliseconds -/
  | maxElapsedTime
  /-- how many retries there may be -/
  | maxRetry
  deriving DecidableEq, Repr

/-- The name of a variable. -/
def Setting.variable : Setting → String
  | initialInterval => "EVENT_BUS_BACKOFF_INITIAL_INTERVAL"
  | maxElapsedTime => "EVENT_BUS_BACKOFF_MAX_ELAPSED_TIME"
  | maxRetry => "EVENT_BUS_BACKOFF_MAX_RETRY"

/-- A number that fits in 64 bits. -/
abbrev Word : Type := { n : Nat // n < word64 }

/-- Reads the value of a variable: a whole number with white space around it. -/
def Setting.read (s : Setting) (raw : String) : Except Failure Word :=
  match h : readNumeral word64 (trimChars raw.toList) with
  | .ok n => .ok ⟨n, readNumeral_lt h⟩
  | .error fault =>
    .error (.configuration
      (s.variable ++ "=" ++ quoted raw ++ " is not a whole number: " ++ fault.message))

/-- The value of a variable in an environment, `none` when it is not set. -/
def Setting.lookup (s : Setting) (environment : String → Option String) :
    Except Failure (Option Word) :=
  match environment s.variable with
  | none => .ok none
  | some raw => (s.read raw).map some

/-- So many milliseconds. -/
def Word.millis (n : Word) : Duration :=
  .ofMillis n.1 n.2

/-- The policy that an environment describes. The first variable that cannot be read decides the
failure. -/
def ofEnvironment (environment : String → Option String) : Except Failure RetryPolicy := do
  let interval ← Setting.initialInterval.lookup environment
  let elapsed ← Setting.maxElapsedTime.lookup environment
  let retry ← Setting.maxRetry.lookup environment
  .ok {
    initialInterval := (interval.map Word.millis).getD standard.initialInterval
    maxElapsedTime := (elapsed.map Word.millis).getD standard.maxElapsedTime
    maxRetry := (retry.map Subtype.val).getD standard.maxRetry }

/-- The policy with another pause before the first retry. -/
def withInitialInterval (p : RetryPolicy) (d : Duration) : RetryPolicy :=
  { p with initialInterval := d }

/-- The policy with another longest retry time. -/
def withMaxElapsedTime (p : RetryPolicy) (d : Duration) : RetryPolicy :=
  { p with maxElapsedTime := d }

/-- The policy with another number of retries. -/
def withMaxRetry (p : RetryPolicy) (n : Nat) : RetryPolicy :=
  { p with maxRetry := n }

/-! ## In JSON -/

/-- The fields of a policy, in order. -/
def fieldNames : List String :=
  ["initial_interval", "max_elapsed_time", "max_retry"]

/-- The JSON value of a policy. -/
def toJson (p : RetryPolicy) : Json :=
  .record [("initial_interval", p.initialInterval.toJson),
    ("max_elapsed_time", p.maxElapsedTime.toJson), ("max_retry", .nat p.maxRetry)]

/-- Reads the JSON value of a policy. -/
def ofJson? (j : Json) : Option RetryPolicy := do
  let fs ← Json.fields? fieldNames 0 j
  some {
    initialInterval := ← fs.required "initial_interval" Duration.ofJson?
    maxElapsedTime := ← fs.required "max_elapsed_time" Duration.ofJson?
    maxRetry := ← fs.required "max_retry" (Json.toNat? word64) }

/-! ## Retrying -/

/-- The longest pause, in nanoseconds. -/
def longestPause (p : RetryPolicy) : Nat :=
  max p.maxElapsedTime.nanos p.initialInterval.nanos

/-- The pause after a pause: twice as long, but not longer than the longest one. The longest pause
is kept as it is, while twice a pause is only as exact as `Pause.twice`. -/
def nextPause (p : RetryPolicy) (pause : Nat) : Nat :=
  if pause < p.longestPause then min (Pause.twice pause) p.longestPause else p.longestPause

/-- A retry is considered after a failure when the failure may pass, and when less than the
longest retry time has gone by since the first attempt. -/
def considers (p : RetryPolicy) (failure : Failure) (elapsed : Nat) : Bool :=
  failure.isRetryable && elapsed < p.maxElapsedTime.nanos

end RetryPolicy

end Loyalty
