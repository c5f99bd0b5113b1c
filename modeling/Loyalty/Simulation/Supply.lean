import Loyalty.Time.Timestamp
import Loyalty.User.ReferralCode

/-!
# Supplies

Where times, codes and identities come from when the program runs in a simulation: the `n`-th time
the clock is read, the `n`-th code and the `n`-th identity. The same run gets the same ones again.
-/

namespace Loyalty.Simulation

open Time

/-- What is handed out, by the number of times that something was asked for before. -/
structure Supply where
  /-- what the clock shows -/
  time : Nat → Timestamp
  /-- new codes -/
  code : Nat → String
  /-- new identities -/
  id : Nat → String

namespace Supply

/-- The first day of the simulation. It lies later than what any history tells of. -/
def firstDay : Date :=
  ⟨200000, 1, 1, by decide, by decide, by decide⟩

/-- Time on the first day, a nanosecond later at every reading of the clock. -/
def clock (n : Nat) : Timestamp where
  date := firstDay
  hour := n / (3600 * nanosPerSecond) % 24
  minute := n / (60 * nanosPerSecond) % 60
  second := n / nanosPerSecond % 60
  nano := n % nanosPerSecond
  hour_lt := Nat.mod_lt _ (by decide)
  minute_lt := Nat.mod_lt _ (by decide)
  second_lt := Nat.mod_lt _ (by decide)
  nano_lt := Nat.lt_trans (Nat.mod_lt _ (by decide)) (by decide)

/-- Spreads the numbers below the 48th power of 2 over each other, so that numbers that lie close
together make codes that look nothing like each other. -/
def spread (n : Nat) : Nat :=
  (n * 181783497276653 + 109582176453211) % 281474976710656

/-- The digits of a number in base 64, as bytes, the least significant one first. -/
def bytes : Nat → Nat → List UInt8
  | 0, _ => []
  | count + 1, n => UInt8.ofNat (n % 64) :: bytes count (n / 64)

/-- The `n`-th code. -/
def codeNumber (n : Nat) : String :=
  ReferralCode.ofBytes (bytes ReferralCode.length (spread n))

/-- The `n`-th identity. -/
def idNumber (n : Nat) : String :=
  String.ofList ("01990000-0000-7000-8000-".toList ++ Text.padded 12 n)

/-- The supply of a simulation. -/
def standard : Supply := ⟨clock, codeNumber, idNumber⟩

end Supply

end Loyalty.Simulation
