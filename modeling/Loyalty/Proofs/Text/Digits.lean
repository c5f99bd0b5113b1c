import Mathlib.Algebra.Group.Nat.Defs
import Loyalty.Text.Blank
import Loyalty.Text.Numeral

/-!
# Digits

What the decimal digits of a number look like, with or without zeros in front: they are digits and
nothing else, there is at least one, and their value is the number. This is all that a reader of
numbers needs to know about a writer of numbers.
-/

namespace Loyalty.Text

/-- The decimal digits stand together in the table of characters, and nothing among them is white
space. So trimming leaves them alone. -/
theorem isSpace_of_isDigit {c : Char} (h : c.isDigit = true) : isSpace c = false := by
  have hrange : 48 ≤ c.toNat ∧ c.toNat ≤ 57 := by
    simpa [Char.isDigit, UInt32.le_iff_toNat_le] using h
  -- Every range of white space lies on one side of the digits.
  simp only [isSpace, Bool.or_eq_false_iff, Bool.and_eq_false_iff, decide_eq_false_iff_not,
    beq_eq_false_iff_ne]
  omega

/-- The digits of a number are digits, and neither signs nor letters. -/
theorem isDigit_of_mem_digits {n : Nat} {c : Char} (h : c ∈ digits n) : c.isDigit = true :=
  Nat.isDigit_of_mem_toDigits (by decide) (by decide) h

/-- There is at least one digit: the digits of 0 are not nothing but a zero. -/
theorem digits_ne_nil (n : Nat) : digits n ≠ [] :=
  Nat.toDigits_ne_nil

/-- The value of the digits is the number: a reader that adds them up finds what was written. -/
theorem ofDigitChars_digits (n : Nat) : Nat.ofDigitChars 10 (digits n) 0 = n :=
  Nat.ofDigitChars_ten_toDigits

/-- A number of more than one digit does not begin with a zero, so a reader that wants no zeros in
front accepts what is written. -/
theorem digits_ne_zero_cons (n : Nat) (d : Char) (ds : List Char) : digits n ≠ '0' :: d :: ds := by
  -- The first digit of `n` is the first digit of `n / 10`, down to a number of one digit.
  induction n using Nat.strongRecOn generalizing d ds with
  | ind n ih =>
    intro h
    by_cases hn : n < 10
    · rw [digits, Nat.toDigits_of_lt_base hn] at h
      simp at h
    · have hdiv : digits n = digits (n / 10) ++ [Nat.digitChar (n % 10)] :=
        Nat.toDigits_of_base_le (by decide) (by omega)
      rw [hdiv] at h
      rcases hds : digits (n / 10) with _ | ⟨a, _ | ⟨b, bs⟩⟩
      · exact digits_ne_nil _ hds
      · -- A zero alone would be all of `n / 10`, and then `n` has one digit only.
        rw [hds] at h
        obtain rfl : a = '0' := (List.cons.inj h).1
        have hval := ofDigitChars_digits (n / 10)
        rw [hds] at hval
        have hzero : n / 10 = 0 := by
          rw [← hval]
          rfl
        omega
      · rw [hds] at h
        obtain rfl : a = '0' := (List.cons.inj h).1
        exact ih (n / 10) (by omega) b bs hds

/-! ## With zeros in front -/

/-- The zeros in front are digits, too. -/
theorem isDigit_of_mem_padded {width n : Nat} {c : Char} (h : c ∈ padded width n) :
    c.isDigit = true := by
  rcases List.mem_append.1 h with h | h
  · obtain ⟨-, rfl⟩ := List.mem_replicate.1 h
    decide
  · exact isDigit_of_mem_digits h

/-- Zeros are put in front of digits that are there already. -/
theorem padded_ne_nil (width n : Nat) : padded width n ≠ [] := by
  intro h
  exact digits_ne_nil n (List.append_eq_nil_iff.1 h).2

/-- Zeros in front add nothing to the value, whatever the width. -/
theorem ofDigitChars_padded (width n : Nat) : Nat.ofDigitChars 10 (padded width n) 0 = n := by
  rw [padded, Nat.ofDigitChars_append, Nat.ofDigitChars_replicate_zero, Nat.mul_zero,
    ofDigitChars_digits]

/-- A number that fits in the width takes exactly the width, so a reader finds what comes after it in a
fixed place. -/
theorem length_padded {width n : Nat} (hw : 0 < width) (hn : n < 10 ^ width) :
    (padded width n).length = width := by
  have hlen : (digits n).length ≤ width := (Nat.length_toDigits_le_iff (by decide) hw).2 hn
  rw [padded, List.length_append, List.length_replicate]
  omega

end Loyalty.Text
