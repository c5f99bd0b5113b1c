import Loyalty.Rounding
import Loyalty.Time.Timestamp

/-!
# Pauses that grow

A pause between two attempts is twice the one before it. Doubling is done in seconds and in single
precision, that is with 24 significant bits. The whole seconds and the part of a second are rounded
to that precision each, and their sum once more; twice the sum is then exact, and is taken to the
nearest nanosecond.

Main statement: a pause of eighths of a second is doubled exactly up to `2 ^ 21` seconds, which is
more than three weeks.
-/

namespace Loyalty.Pause

open Time Rounding

/-- Parts of a second are counted in grains while they have single precision. The shortest part, a
nanosecond, is more than `2 ^ 23` of them, so that no rounding asks for less than one. -/
def grainsPerSecond : Nat := 9007199254740992

/-- The number of single precision nearest to a quotient. -/
def single (num den : Nat) : Nat :=
  significant 24 num den

/-- A length of so many nanoseconds as a number of seconds in single precision, in grains. -/
def inSeconds (nanos : Nat) : Nat :=
  let whole := single (nanos / nanosPerSecond) 1 * grainsPerSecond
  let part := single (single (nanos % nanosPerSecond) 1 * grainsPerSecond) nanosPerSecond
  single (whole + part) 1

/-- Twice a pause, both in nanoseconds. -/
def twice (nanos : Nat) : Nat :=
  quotient (2 * inSeconds nanos * nanosPerSecond) grainsPerSecond

/-! ## Where doubling is exact -/

theorem single_eq_self {m : Nat} (k den : Nat) (hm : m < 16777216) (hden : 0 < den) :
    single (m * Nat.pow 2 k * den) den = m * Nat.pow 2 k :=
  significant_eq_self (show m < Nat.pow 2 24 from hm) hden

/-- So many eighths of a second, in grains. -/
theorem inSeconds_eighths {n : Nat} (h : n < 16777216) :
    inSeconds (n * 125000000) = n * 1125899906842624 := by
  have hwhole : n * 125000000 / nanosPerSecond = n / 8 := by
    rw [nanosPerSecond]
    omega
  have hpart : n * 125000000 % nanosPerSecond = n % 8 * 125000000 := by
    rw [nanosPerSecond]
    omega
  have hseconds : single (n / 8) 1 = n / 8 := by
    have := single_eq_self 0 1 (show n / 8 < 16777216 by omega) (by decide)
    simpa using this
  have hnanos : single (n % 8 * 125000000) 1 = n % 8 * 125000000 := by
    have := single_eq_self 6 1 (show n % 8 * 1953125 < 16777216 by omega) (by decide)
    have hsix : n % 8 * 1953125 * Nat.pow 2 6 = n % 8 * 125000000 := by
      rw [Nat.mul_assoc]
    rwa [hsix, Nat.mul_one] at this
  have hgrains : single (n % 8 * 125000000 * grainsPerSecond) nanosPerSecond =
      n % 8 * 1125899906842624 := by
    have := single_eq_self 50 nanosPerSecond (show n % 8 < 16777216 by omega) (by decide)
    have hfifty : n % 8 * Nat.pow 2 50 * nanosPerSecond =
        n % 8 * 125000000 * grainsPerSecond := by
      rw [Nat.mul_assoc, Nat.mul_assoc]
      rfl
    rwa [hfifty] at this
  have hsum : n / 8 * grainsPerSecond + n % 8 * 1125899906842624 = n * 1125899906842624 := by
    rw [grainsPerSecond]
    omega
  rw [inSeconds, hwhole, hpart, hseconds, hnanos, hgrains]
  simp only [hsum]
  have := single_eq_self 50 1 h (by decide)
  simpa using this

/-- Eighths of a second are doubled exactly while there are fewer than `2 ^ 24` of them. -/
theorem twice_eighths {n : Nat} (h : n < 16777216) :
    twice (n * 125000000) = 2 * (n * 125000000) := by
  have hscaled : 2 * (n * 1125899906842624) * nanosPerSecond =
      2 * (n * 125000000) * grainsPerSecond := by
    rw [nanosPerSecond, grainsPerSecond]
    omega
  rw [twice, inSeconds_eighths h, hscaled, quotient_mul (by decide)]

end Loyalty.Pause
