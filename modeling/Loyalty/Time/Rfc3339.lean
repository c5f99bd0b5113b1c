import Loyalty.Json.Shape
import Loyalty.Text.Blank
import Loyalty.Text.Numeral
import Loyalty.Time.Timestamp

/-!
# Timestamps in text

A timestamp is written as RFC 3339 has it, in universal time and with the letter `Z`: the date,
the letter `T`, the time, and a fraction of the second only when there is one, in the fewest of
three, six or nine digits that give it exactly. A year that does not lie between 0 and 9999 has a
sign and at least four digits.

More is read than is written. White space may stand in front of each number, in front of the signs
between them, in front of the zone and at both ends; numbers may have fewer digits; the `T` may be
small or a single space; the fraction may have any number of digits, of which nine count; the zone
may be `Z` or `UTC` in any case or an offset in hours and minutes, with any colons and white space
between the two.
-/

namespace Loyalty.Time.Rfc3339

open Loyalty.Text

/-! ## Writing -/

/-- A year: four digits where they suffice, else a sign and at least four digits. -/
def writeYear (year : Int) : List Char :=
  if 0 ≤ year ∧ year ≤ 9999 then padded 4 year.natAbs
  else (if year < 0 then '-' else '+') :: padded 4 year.natAbs

/-- The fraction of a second with its point, nothing when it is zero. -/
def writeFraction (nano : Nat) : List Char :=
  if nano = 0 then []
  else if nano % 1000000 = 0 then '.' :: padded 3 (nano / 1000000)
  else if nano % 1000 = 0 then '.' :: padded 6 (nano / 1000)
  else '.' :: padded 9 nano

/-- A date. -/
def writeDate (d : Date) : List Char :=
  writeYear d.year ++ '-' :: padded 2 d.month ++ '-' :: padded 2 d.day

/-- A timestamp. -/
def writeChars (t : Timestamp) : List Char :=
  writeDate t.date ++ 'T' :: padded 2 t.hour ++ ':' :: padded 2 t.minute ++
    ':' :: padded 2 t.writtenSecond ++ writeFraction t.writtenNano ++ ['Z']

/-- A timestamp. -/
def write (t : Timestamp) : String :=
  String.ofList (writeChars t)

/-! ## Reading -/

/-- Splits off the digits at the front, at most `most` of them. -/
def spanAtMost : (most : Nat) → List Char → List Char × List Char
  | 0, cs => ([], cs)
  | _ + 1, [] => ([], [])
  | most + 1, c :: cs =>
    if c.isDigit then ((c :: (spanAtMost most cs).1), (spanAtMost most cs).2) else ([], c :: cs)

/-- The number at the front, of at least one and at most `most` digits. -/
def number (most : Nat) (cs : List Char) : Option (Nat × List Char) :=
  match spanAtMost most cs with
  | ([], _) => none
  | (ds, rest) => some (Nat.ofDigitChars 10 ds 0, rest)

/-- A number in front of which white space may stand. -/
def spacedNumber (most : Nat) (cs : List Char) : Option (Nat × List Char) :=
  number most (dropSpace cs)

/-- A sign in front of which white space may stand. -/
def spacedSign (sign : Char) (cs : List Char) : Option (List Char) :=
  match dropSpace cs with
  | c :: rest => if c = sign then some rest else none
  | [] => none

/-- A year: at most four digits, or a sign and any number of digits. -/
def year (cs : List Char) : Option (Int × List Char) :=
  match dropSpace cs with
  | '-' :: rest => (number rest.length rest).map fun r => (-(r.1 : Int), r.2)
  | '+' :: rest => (number rest.length rest).map fun r => ((r.1 : Int), r.2)
  | rest => (number 4 rest).map fun r => ((r.1 : Int), r.2)

/-- What stands between the date and the time: a `T` of either case or one space. -/
def separator : List Char → Option (List Char)
  | 'T' :: rest => some rest
  | 't' :: rest => some rest
  | ' ' :: rest => some rest
  | _ => none

/-- The fraction of a second in nanoseconds, zero when there is none. Digits behind the ninth are
passed over. -/
def fraction : List Char → Option (Nat × List Char)
  | '.' :: cs =>
    match spanAtMost 9 cs with
    | ([], _) => none
    | (ds, rest) =>
      some (Nat.ofDigitChars 10 ds 0 * Nat.pow 10 (9 - ds.length), rest.dropWhile Char.isDigit)
  | cs => some (0, cs)

/-- Two digits. -/
def twoDigits : List Char → Option (Nat × List Char)
  | a :: b :: rest =>
    if a.isDigit && b.isDigit then some (digitValue a * 10 + digitValue b, rest) else none
  | _ => none

/-- The sign of an offset: a plus, a hyphen or the minus sign. -/
def offsetSign : List Char → Option (Int × List Char)
  | '+' :: rest => some (1, rest)
  | '-' :: rest => some (-1, rest)
  | '−' :: rest => some (-1, rest)
  | _ => none

/-- An offset from universal time in minutes, of less than a day. -/
def offset (cs : List Char) : Option (Int × List Char) := do
  let (sign, cs) ← offsetSign cs
  let (hours, cs) ← twoDigits cs
  let (minutes, cs) ← twoDigits (cs.dropWhile fun c => c == ':' || isSpace c)
  if hours < 24 ∧ minutes < 60 then some (sign * (hours * 60 + minutes : Nat), cs) else none

/-- A letter of either case. -/
def isLetter (lower upper c : Char) : Bool :=
  c == lower || c == upper

/-- A zone as minutes ahead of universal time. -/
def zone (cs : List Char) : Option (Int × List Char) :=
  match dropSpace cs with
  | 'Z' :: rest => some (0, rest)
  | 'z' :: rest => some (0, rest)
  | u :: t :: c :: rest =>
    if isLetter 'u' 'U' u && isLetter 't' 'T' t && isLetter 'c' 'C' c then some (0, rest)
    else offset (u :: t :: c :: rest)
  | rest => offset rest

/-- Reads a timestamp. -/
def readChars (cs : List Char) : Option Timestamp := do
  let (year, cs) ← year cs
  let cs ← spacedSign '-' cs
  let (month, cs) ← spacedNumber 2 cs
  let cs ← spacedSign '-' cs
  let (day, cs) ← spacedNumber 2 cs
  let cs ← separator cs
  let (hour, cs) ← spacedNumber 2 cs
  let cs ← spacedSign ':' cs
  let (minute, cs) ← spacedNumber 2 cs
  let cs ← spacedSign ':' cs
  let (second, cs) ← spacedNumber 2 cs
  let (nano, cs) ← fraction cs
  let (minutes, cs) ← zone cs
  if dropSpace cs ≠ [] then none
  else
    let date ← Date.mk? year month day
    let clock ← Timestamp.mk? date hour minute second nano
    clock.ofLocal? minutes

/-- Reads a timestamp. -/
def read? (s : String) : Option Timestamp :=
  readChars s.toList

/-! ## In JSON -/

/-- The string that stands for a timestamp. -/
def toJson (t : Timestamp) : Json :=
  .text (write t)

/-- Reads the string that stands for a timestamp. -/
def ofJson? (j : Json) : Option Timestamp :=
  j.toString?.bind read?

end Loyalty.Time.Rfc3339
