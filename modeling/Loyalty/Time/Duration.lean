import Loyalty.Json.Shape
import Loyalty.Text.Numeral
import Loyalty.Time.Timestamp

/-!
# Durations

A length of time in nanoseconds, of less than `2 ^ 64` seconds. In JSON it is a record of whole
seconds and the nanoseconds that remain. On reading, whole seconds among the nanoseconds are
carried over; a record with any other field is refused.
-/

namespace Loyalty.Time

open Loyalty.Text

/-- A length of time. -/
structure Duration where
  /-- the length in nanoseconds -/
  nanos : Nat
  /-- whole seconds fit in 64 bits -/
  nanos_lt : nanos < word64 * nanosPerSecond
  deriving DecidableEq

namespace Duration

/-- So many milliseconds. Any number of 64 bits of them is a duration. -/
def ofMillis (n : Nat) (h : n < word64) : Duration :=
  ⟨n * 1000000, by simp only [nanosPerSecond] at *; omega⟩

/-- The whole seconds. -/
def seconds (d : Duration) : Nat :=
  d.nanos / nanosPerSecond

/-- The nanoseconds beyond the whole seconds. -/
def subsecond (d : Duration) : Nat :=
  d.nanos % nanosPerSecond

/-- So many seconds and nanoseconds, `none` when that is too long. -/
def ofParts? (seconds nanos : Nat) : Option Duration :=
  if h : seconds * nanosPerSecond + nanos < word64 * nanosPerSecond then some ⟨_, h⟩ else none

theorem ofParts?_seconds_subsecond (d : Duration) :
    ofParts? d.seconds d.subsecond = some d := by
  have h : d.seconds * nanosPerSecond + d.subsecond = d.nanos := by
    rw [seconds, subsecond, Nat.mul_comm]
    exact Nat.div_add_mod _ _
  simp [ofParts?, h, d.nanos_lt]

/-- The record of a duration. -/
def toJson (d : Duration) : Json :=
  .record [("secs", .nat d.seconds), ("nanos", .nat d.subsecond)]

/-- Reads the record of a duration. -/
def ofJson? (j : Json) : Option Duration := do
  let fs ← Json.strictFields? ["secs", "nanos"] j
  let seconds ← fs.required "secs" (Json.toNat? word64)
  let nanos ← fs.required "nanos" (Json.toNat? word32)
  ofParts? seconds nanos

end Duration

end Loyalty.Time
