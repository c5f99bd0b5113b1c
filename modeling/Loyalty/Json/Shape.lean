import Loyalty.Json.Value

/-!
# Reading values of a given shape

From a JSON value to a value of the domain, or `none` when the shape does not fit.

A *record* has a fixed list of fields. It may be written in two ways: as an object, where the
fields come in any order, names that are not among the fields are passed over and no field may
come twice; or as an array of the fields in their order, which must be complete. Records whose
last fields may be missing even from the array say how many.

In an object a field that is optional may be missing or null. An array has no names, so there an
optional field is present and may be null.
-/

namespace Loyalty.Json

/-! ## Plain values -/

/-- Reads a string. -/
def toString? : Json → Option String
  | .string s => s
  | _ => none

/-- Reads a natural number below a limit. -/
def toNat? (limit : Nat) : Json → Option Nat
  | .number (.natural n) => if n < limit then some n else none
  | _ => none

/-- Reads a value that may be null. -/
def toOption? {α : Type} (read : Json → Option α) : Json → Option (Option α)
  | .null => some none
  | j => (read j).map some

/-- Reads an array of values of one shape. -/
def toList? {α : Type} (read : Json → Option α) : Json → Option (List α)
  | .array items => items.mapM read
  | _ => none

/-- Reads one of finitely many names: the name as a string, or an object with the name as its only
member and null as the value. -/
def toName? {α : Type} (ofName? : String → Option α) : Json → Option α
  | .string (some s) => ofName? s
  | .object [(some s, .null)] => ofName? s
  | _ => none

/-! ## Records -/

/-- The fields of a record that are present. -/
abbrev Fields : Type := List (String × Json)

/-- The members of an object with readable names, `none` when a name cannot be read. -/
def readNames? : List (Text × Json) → Option Fields
  | [] => some []
  | (none, _) :: _ => none
  | (some k, j) :: ms => (readNames? ms).map ((k, j) :: ·)

/-- No name comes twice. -/
def distinctNames (fs : Fields) : Bool :=
  (fs.map Prod.fst).Nodup

/-- The fields of a record with the given names. In the array form up to `spare` fields may be
missing at the end. -/
def fields? (names : List String) (spare : Nat) : Json → Option Fields
  | .array items =>
    if names.length - spare ≤ items.length ∧ items.length ≤ names.length then
      some (names.zip items)
    else none
  | .object members => do
    let known := (← readNames? members).filter fun f => names.contains f.1
    if distinctNames known then some known else none
  | _ => none

/-- The fields of a record that admits no further names. -/
def strictFields? (names : List String) (j : Json) : Option Fields := do
  match j with
  | .object members =>
    if (← readNames? members).all fun f => names.contains f.1 then fields? names 0 j else none
  | _ => fields? names 0 j

/-- Reads a field that must be present. -/
def Fields.required {α : Type} (fs : Fields) (name : String) (read : Json → Option α) :
    Option α :=
  (fs.lookup name).bind read

/-- Reads a field that may be missing or null. -/
def Fields.optional {α : Type} (fs : Fields) (name : String) (read : Json → Option α) :
    Option (Option α) :=
  match fs.lookup name with
  | none => some none
  | some j => toOption? read j

end Loyalty.Json
