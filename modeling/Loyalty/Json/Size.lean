import Loyalty.Rounding
import Loyalty.Text.Numeral

/-!
# The size of a number literal

A number that is kept for later is kept as a floating-point double, and one that is too large for
a double cannot be kept. How large it is comes from two rounded parts: the leading digits, as many
as a word of 64 bits holds, and a power of ten that stands for the exponent and for the digits of
the whole part that were left out. Each is rounded to a double before they are multiplied, so
that of the literals at the very end of the range some are refused although a double is near.

Main statement: digits whose value is a word are never too large.
-/

namespace Loyalty.Json

/-! ## Doubles -/

/-- The whole number of double precision, 53 significant bits, nearest to a number. -/
def nearestDouble (n : Nat) : Nat :=
  Rounding.significant 53 n 1

/-- Sizes from here on round to no finite double: halfway between the largest one and the number
that would follow it. -/
def doubleLimit : Nat := Nat.pow 2 1024 - Nat.pow 2 970

/-- The product of a significand and a power of ten, each rounded to a double, is a finite double.
An exponent that is not positive makes nothing larger, and behind 308 there is no power of ten
that is a double. -/
def scaledFinite (significand : Nat) (exponent : Int) : Bool :=
  if significand = 0 then true
  else if exponent ≤ 0 then true
  else if 308 < exponent then false
  else
    nearestDouble significand * nearestDouble (Nat.pow 10 exponent.natAbs) < doubleLimit

/-! ## Digits -/

/-- Reads digits onto the value `acc` of the digits before them for as long as the value is a word
of 64 bits. Gives the value and the digits that are left out, the first of which does not fit. -/
def takeDigits : Nat → List Char → Nat × List Char
  | acc, [] => (acc, [])
  | acc, c :: cs =>
    if acc * 10 + Text.digitValue c < Text.word64 then
      takeDigits (acc * 10 + Text.digitValue c) cs
    else (acc, c :: cs)

/-- A double can hold the number with the given digits before and after the point and the given
exponent. A digit of the whole part that is left out counts as a power of ten; a digit of the
fraction that is left out counts for nothing. -/
def digitsFinite (whole fraction : List Char) (exponent : Int) : Bool :=
  let (acc, leftOut) := takeDigits 0 whole
  let (significand, unread) := takeDigits acc fraction
  let places : Int := fraction.length - unread.length
  scaledFinite significand (exponent + leftOut.length - places)

/-- Digits whose value is a word are all taken. -/
theorem takeDigits_eq {acc : Nat} {cs : List Char}
    (h : Nat.ofDigitChars 10 cs acc < Text.word64) :
    takeDigits acc cs = (Nat.ofDigitChars 10 cs acc, []) := by
  induction cs generalizing acc with
  | nil => simp [takeDigits]
  | cons c cs ih =>
    rw [Text.ofDigitChars_cons] at h ⊢
    rw [takeDigits, if_pos (Nat.lt_of_le_of_lt (Text.le_ofDigitChars _ _) h), ih h]

/-- The digits of a word stand for a number that a double can hold. -/
theorem digitsFinite_digits {n : Nat} (h : n < Text.word64) :
    digitsFinite (Text.digits n) [] 0 = true := by
  have hn : Nat.ofDigitChars 10 (Text.digits n) 0 = n :=
    Nat.ofDigitChars_toDigits (by decide) (by decide)
  rw [digitsFinite, takeDigits_eq (by rw [hn]; exact h)]
  simp [takeDigits, scaledFinite]

end Loyalty.Json
