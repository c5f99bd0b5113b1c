/-!
# Rounding

A quotient of natural numbers as a whole number, and as a number of so many significant bits: the
nearest one each time, and of two that are equally near the even one.

Main statement: a number that has no more significant bits than asked for is kept as it is.
-/

namespace Loyalty.Rounding

/-- The whole number nearest to a quotient, of two that are equally near the even one. -/
def quotient (num den : Nat) : Nat :=
  let below := num / den
  let rest := num % den
  if 2 * rest < den ∨ (2 * rest = den ∧ below % 2 = 0) then below else below + 1

/-- A quotient without a rest is kept as it is. -/
theorem quotient_mul {den : Nat} (h : 0 < den) (a : Nat) : quotient (a * den) den = a := by
  simp [quotient, Nat.mul_div_cancel a h, h]

theorem quotient_zero (den : Nat) : quotient 0 den = 0 := by
  rcases Nat.eq_zero_or_pos den with h | h <;> simp [quotient, h]

/-- What the last of the first `bits` binary digits of a number stands for, one when the number
has no more digits than that. -/
def lastBit (bits n : Nat) : Nat :=
  Nat.pow 2 (n.log2 + 1 - bits)

/-- The number of at most `bits` significant bits nearest to a quotient, of two that are equally
near the one whose last bit is zero. Only whole numbers are considered, so a quotient that has
fewer binary digits before the point should be scaled up first. -/
def significant (bits num den : Nat) : Nat :=
  let unit := lastBit bits (num / den)
  quotient num (den * unit) * unit

/-- A number of no more than `bits` significant bits is kept as it is. -/
theorem significant_eq_self {bits m k den : Nat} (hm : m < Nat.pow 2 bits) (hden : 0 < den) :
    significant bits (m * Nat.pow 2 k * den) den = m * Nat.pow 2 k := by
  by_cases hzero : m = 0
  · simp [hzero, significant, quotient_zero]
  have hne : m * Nat.pow 2 k ≠ 0 :=
    Nat.mul_ne_zero hzero (Nat.ne_of_gt (Nat.pow_pos (by decide)))
  have hlt : m * Nat.pow 2 k < 2 ^ (bits + k) := by
    rw [Nat.pow_add]
    exact Nat.mul_lt_mul_of_pos_right hm (Nat.pow_pos (by decide))
  have hlog := (Nat.log2_lt hne).2 hlt
  rw [significant, Nat.mul_div_cancel _ hden, lastBit]
  generalize he : (m * Nat.pow 2 k).log2 + 1 - bits = e
  have hsplit : Nat.pow 2 k = Nat.pow 2 (k - e) * Nat.pow 2 e :=
    (Nat.pow_sub_mul_pow 2 (by omega)).symm
  have hunit : 0 < den * Nat.pow 2 e := Nat.mul_pos hden (Nat.pow_pos (by decide))
  have hwhole : m * Nat.pow 2 k * den = m * Nat.pow 2 (k - e) * (den * Nat.pow 2 e) := by
    rw [hsplit]
    simp only [Nat.mul_assoc, Nat.mul_left_comm, Nat.mul_comm]
  simp only [hwhole, quotient_mul hunit]
  rw [Nat.mul_assoc, ← hsplit]

end Loyalty.Rounding
