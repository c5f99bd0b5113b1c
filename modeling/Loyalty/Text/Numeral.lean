/-!
# Whole numbers in text

How a whole number is written (decimal digits, no sign, no leading zeros) and how one is read: an
optional plus sign and at least one ASCII digit, leading zeros allowed, the value below a limit.

A text that is no such number is refused for one of three reasons. Reading goes from left to
right and stops at the first character at fault, so of a number that is too large and then goes
wrong the size is what counts.
-/

namespace Loyalty.Text

/-- The number of values of a word of 32 bits. -/
def word32 : Nat := 4294967296

/-- The number of values of a word of 64 bits. -/
def word64 : Nat := 18446744073709551616

/-- Why a text is not a whole number. -/
inductive NumeralFault where
  /-- there is nothing to read -/
  | empty
  /-- a character that is not a decimal digit, or a sign alone -/
  | invalidDigit
  /-- the value does not stay below the limit -/
  | tooLarge
  deriving DecidableEq, Repr

namespace NumeralFault

/-- The fault in words. -/
def message : NumeralFault → String
  | empty => "cannot parse integer from empty string"
  | invalidDigit => "invalid digit found in string"
  | tooLarge => "number too large to fit in target type"

end NumeralFault

/-- The decimal digits of a number. -/
def digits (n : Nat) : List Char :=
  Nat.toDigits 10 n

/-- The value of a decimal digit. -/
def digitValue (c : Char) : Nat :=
  c.toNat - '0'.toNat

theorem ofDigitChars_cons (acc : Nat) (c : Char) (cs : List Char) :
    Nat.ofDigitChars 10 (c :: cs) acc = Nat.ofDigitChars 10 cs (acc * 10 + digitValue c) := by
  rw [Nat.ofDigitChars_cons, digitValue, Nat.mul_comm]

/-- A value only grows by further digits. -/
theorem le_ofDigitChars (acc : Nat) (cs : List Char) : acc ≤ Nat.ofDigitChars 10 cs acc := by
  induction cs generalizing acc with
  | nil => simp
  | cons c cs ih =>
    rw [ofDigitChars_cons]
    exact Nat.le_trans (by omega) (ih _)

/-- Reads digits onto the value `acc` of the digits before them. -/
def readDigits (limit : Nat) : Nat → List Char → Except NumeralFault Nat
  | acc, [] => .ok acc
  | acc, c :: cs =>
    if c.isDigit then
      if acc * 10 + digitValue c < limit then readDigits limit (acc * 10 + digitValue c) cs
      else .error .tooLarge
    else .error .invalidDigit

/-- Reads a whole number below `limit`: an optional plus sign, then digits. -/
def readNumeral (limit : Nat) : List Char → Except NumeralFault Nat
  | [] => .error .empty
  | ['+'] => .error .invalidDigit
  | '+' :: cs => readDigits limit 0 cs
  | cs => readDigits limit 0 cs

theorem readDigits_lt {limit acc n : Nat} {cs : List Char} (h : acc < limit ∨ cs ≠ [])
    (hr : readDigits limit acc cs = .ok n) : n < limit := by
  induction cs generalizing acc with
  | nil =>
    obtain rfl : acc = n := by simpa [readDigits] using hr
    simpa using h
  | cons c cs ih =>
    by_cases hc : c.isDigit = true
    · by_cases hl : acc * 10 + digitValue c < limit
      · exact ih (.inl hl) (by simpa [readDigits, hc, hl] using hr)
      · simp [readDigits, hc, hl] at hr
    · simp [readDigits, hc] at hr

/-- What is read stays below the limit. -/
theorem readNumeral_lt {limit n : Nat} {cs : List Char} (hr : readNumeral limit cs = .ok n) :
    n < limit := by
  unfold readNumeral at hr
  split at hr
  · simp at hr
  · simp at hr
  · rename_i rest hrest
    exact readDigits_lt (.inr fun h => hrest (by rw [h])) hr
  · rename_i hne _ _
    exact readDigits_lt (.inr hne) hr

/-- Writes a number with zeros in front until it has at least `width` digits. -/
def padded (width n : Nat) : List Char :=
  List.replicate (width - (digits n).length) '0' ++ digits n

end Loyalty.Text
