import Loyalty.Json.Value
import Loyalty.Text.Numeral

/-!
# Writing JSON

The one way in which the program writes a value: no blanks, members in their order, numbers by
their digits. In a string only what must be escaped is escaped: the quote, the backslash and the
characters below the space, these by their short form where there is one.

The two kinds of literal that are not kept in full detail are written as some literal of their
kind, so that reading gives the value back for every value.
-/

namespace Loyalty.Json

/-- A hexadecimal digit, in lower case. -/
def hexDigit (n : Nat) : Char :=
  Nat.digitChar n

/-- One character as it stands in a string literal. -/
def escapedChar (c : Char) : List Char :=
  if c = '"' then ['\\', '"']
  else if c = '\\' then ['\\', '\\']
  else if c = '\x08' then ['\\', 'b']
  else if c = '\x0c' then ['\\', 'f']
  else if c = '\n' then ['\\', 'n']
  else if c = '\r' then ['\\', 'r']
  else if c = '\t' then ['\\', 't']
  else if c.toNat < 0x20 then
    ['\\', 'u', '0', '0', hexDigit (c.toNat / 16), hexDigit (c.toNat % 16)]
  else [c]

/-- A string literal. -/
def writeText : Text → List Char
  | some s => '"' :: s.toList.flatMap escapedChar ++ ['"']
  | none => "\"\\ud800\"".toList

/-- A number literal. -/
def Number.write : Number → List Char
  | .natural n => Text.digits n
  | .other true => ['-', '1']
  | .other false => ['1', 'e', '9', '9', '9']

mutual

/-- The text of a value. -/
def write : Json → List Char
  | .null => ['n', 'u', 'l', 'l']
  | .bool true => ['t', 'r', 'u', 'e']
  | .bool false => ['f', 'a', 'l', 's', 'e']
  | .number n => n.write
  | .string s => writeText s
  | .array items => '[' :: writeItems items ++ [']']
  | .object members => '\x7b' :: writeMembers members ++ ['\x7d']

/-- The items of an array, with commas between them. -/
def writeItems : List Json → List Char
  | [] => []
  | [j] => write j
  | j :: js => write j ++ ',' :: writeItems js

/-- The members of an object, with commas between them. -/
def writeMembers : List (Text × Json) → List Char
  | [] => []
  | [(k, j)] => writeText k ++ ':' :: write j
  | (k, j) :: ms => writeText k ++ ':' :: write j ++ ',' :: writeMembers ms

end

/-- The text of a value. -/
def toText (j : Json) : String :=
  String.ofList (write j)

end Loyalty.Json
