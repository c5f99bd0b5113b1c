import Loyalty.Json.Token

/-!
# Reading JSON

The second half of reading a JSON text: tokens to a value. The containers that are still open are
kept in a list, innermost first, so that reading is again a fold and the nesting of a text is
bounded by nothing but its length.

Nothing may follow the value but blanks.
-/

namespace Loyalty.Json

namespace Reader

/-- An open container that waits for the value now being read. Items and members are kept newest
first. -/
inductive Frame where
  /-- an array with its items so far -/
  | array (items : List Json)
  /-- an object with its members so far and the name whose value is being read -/
  | object (members : List (Text × Json)) (name : Text)

/-- What the reader expects next, and the open containers around it. -/
inductive State where
  /-- a value -/
  | value (up : List Frame)
  /-- an item, or the end of an array that was just opened -/
  | firstItem (up : List Frame)
  /-- a name, or the end of an object that was just opened -/
  | firstName (up : List Frame)
  /-- a name -/
  | name (members : List (Text × Json)) (up : List Frame)
  /-- the colon after a name -/
  | colon (members : List (Text × Json)) (name : Text) (up : List Frame)
  /-- a comma or the end of an array -/
  | afterItem (items : List Json) (up : List Frame)
  /-- a comma or the end of an object -/
  | afterMember (members : List (Text × Json)) (up : List Frame)
  /-- nothing more -/
  | done (value : Json)

/-- The state after a value is complete. -/
def plug (j : Json) : List Frame → State
  | [] => .done j
  | .array items :: up => .afterItem (j :: items) up
  | .object members name :: up => .afterMember ((name, j) :: members) up

/-- A token where a value may start. -/
def stepValue (up : List Frame) : Token → Option State
  | .null => some (plug .null up)
  | .bool b => some (plug (.bool b) up)
  | .number n => some (plug (.number n) up)
  | .string s => some (plug (.string s) up)
  | .openArray => some (.firstItem up)
  | .openObject => some (.firstName up)
  | _ => none

/-- One more token. -/
def step : State → Token → Option State
  | .value up, t => stepValue up t
  | .firstItem up, .closeArray => some (plug (.array []) up)
  | .firstItem up, t => stepValue (.array [] :: up) t
  | .firstName up, .closeObject => some (plug (.object []) up)
  | .firstName up, .string s => some (.colon [] s up)
  | .name members up, .string s => some (.colon members s up)
  | .colon members name up, .colon => some (.value (.object members name :: up))
  | .afterItem items up, .comma => some (.value (.array items :: up))
  | .afterItem items up, .closeArray => some (plug (.array items.reverse) up)
  | .afterMember members up, .comma => some (.name members up)
  | .afterMember members up, .closeObject => some (plug (.object members.reverse) up)
  | _, _ => none

/-- The value of a text that ends here. -/
def finish : State → Option Json
  | .done j => some j
  | _ => none

end Reader

/-- The value that a list of tokens spells. -/
def ofTokens? (ts : List Token) : Option Json :=
  (ts.foldlM Reader.step (.value [])).bind Reader.finish

/-- Reads a JSON text. -/
def parse? (s : String) : Option Json :=
  (tokens? s.toList).bind ofTokens?

end Loyalty.Json
