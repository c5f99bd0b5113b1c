import Loyalty.Json.Size

/-!
# JSON values

What a JSON text says, as far as the program asks. Members of an object keep their order and may
repeat a name, since a repeated name is for the one who reads the object to refuse.

Two kinds of literal are kept in less than full detail.

* A text may spell half of a surrogate pair, which is no character. Such a `Text` is `none`: it
  can be skipped, but not read.
* A number is read only when it is a natural number and is written as one: digits, no sign, no
  fraction, no exponent. All that matters of any other number is whether a floating-point double
  can hold it, since a number too large for that cannot be kept for later.
-/

namespace Loyalty

/-- The text of a string literal, `none` when the literal spells half of a surrogate pair. -/
abbrev Json.Text : Type := Option String

/-- A number literal. -/
inductive Json.Number where
  /-- digits alone -/
  | natural (value : Nat)
  /-- a number with a sign, a fraction or an exponent; `finite` when a double can hold it -/
  | other (finite : Bool)
  deriving DecidableEq, Repr

/-- A JSON value. -/
inductive Json where
  /-- the null literal -/
  | null
  /-- a truth value -/
  | bool (value : Bool)
  /-- a number -/
  | number (value : Json.Number)
  /-- a string -/
  | string (value : Json.Text)
  /-- an array -/
  | array (items : List Json)
  /-- an object, its members in the order of the text -/
  | object (members : List (Json.Text × Json))

namespace Json

/-- A readable string. -/
def text (s : String) : Json :=
  .string (some s)

/-- A natural number. -/
def nat (n : Nat) : Json :=
  .number (.natural n)

/-- An optional value, missing when null. -/
def option {α : Type} (write : α → Json) : Option α → Json
  | none => .null
  | some a => write a

/-- An object whose member names are given as texts. -/
def record (members : List (String × Json)) : Json :=
  .object (members.map fun m => (some m.1, m.2))

/-! ## Nesting -/

mutual

/-- How many containers stand inside one another at the deepest place. -/
def depth : Json → Nat
  | .null => 0
  | .bool _ => 0
  | .number _ => 0
  | .string _ => 0
  | .array items => depthItems items + 1
  | .object members => depthMembers members + 1

/-- The greatest depth among the items of an array. -/
def depthItems : List Json → Nat
  | [] => 0
  | j :: js => max (depth j) (depthItems js)

/-- The greatest depth among the members of an object. -/
def depthMembers : List (Text × Json) → Nat
  | [] => 0
  | (_, j) :: ms => max (depth j) (depthMembers ms)

end

/-! ## Keeping a value for later -/

/-- A double can hold the number. -/
def Number.isFinite : Number → Bool
  | .natural n => digitsFinite (Text.digits n) [] 0
  | .other finite => finite

theorem Number.isFinite_natural {n : Nat} (h : n < Text.word64) :
    (Number.natural n).isFinite = true :=
  digitsFinite_digits h

mutual

/-- All texts can be read and no number is too large for a double, down to the last member, so
that the value can be kept before its meaning is known. -/
def keepable : Json → Bool
  | .null => true
  | .bool _ => true
  | .number n => n.isFinite
  | .string s => s.isSome
  | .array items => keepableItems items
  | .object members => keepableMembers members

/-- All items of an array can be kept. -/
def keepableItems : List Json → Bool
  | [] => true
  | j :: js => keepable j && keepableItems js

/-- All members of an object can be kept, their names included. -/
def keepableMembers : List (Text × Json) → Bool
  | [] => true
  | (k, j) :: ms => k.isSome && keepable j && keepableMembers ms

end

end Json

end Loyalty
