import Loyalty.Json.Value
import Loyalty.Text.Numeral

/-!
# JSON tokens

The first half of reading a JSON text: characters to tokens. `Lexer.step` takes one character at
a time, so that reading is a fold over the text and what two texts do one after the other is what
they do when joined.

Blanks between tokens are the space, the tab and the two line ends, and no other white space. A
token ends where a character comes that cannot belong to it. Tokens that stand against each other
without a blank are told apart by this except where no JSON text has them side by side.
-/

namespace Loyalty.Json

/-- A token. -/
inductive Token where
  /-- `[` -/
  | openArray
  /-- `]` -/
  | closeArray
  /-- an opening brace -/
  | openObject
  /-- a closing brace -/
  | closeObject
  /-- `,` -/
  | comma
  /-- `:` -/
  | colon
  /-- the null literal -/
  | null
  /-- a truth value -/
  | bool (value : Bool)
  /-- a number -/
  | number (value : Number)
  /-- a string -/
  | string (value : Text)
  deriving DecidableEq, Repr

/-! ## Numbers -/

/-- Splits off the digits at the front. -/
def spanDigits (cs : List Char) : List Char × List Char :=
  (cs.takeWhile Char.isDigit, cs.dropWhile Char.isDigit)

/-- The value of a run of digits. -/
def digitsValue (cs : List Char) : Nat :=
  Nat.ofDigitChars 10 cs 0

/-- Splits off the fraction at the front, a point and at least one digit, when there is one. -/
def spanFraction : List Char → Option (List Char × List Char)
  | '.' :: cs =>
    match spanDigits cs with
    | ([], _) => none
    | (ds, rest) => some (ds, rest)
  | cs => some ([], cs)

/-- Splits off the exponent at the front, with its sign, when there is one. -/
def spanExponent : List Char → Option (Option Int × List Char)
  | [] => some (none, [])
  | c :: cs =>
    if c = 'e' ∨ c = 'E' then
      let (negative, cs) : Bool × List Char := match cs with
        | '-' :: cs => (true, cs)
        | '+' :: cs => (false, cs)
        | cs => (false, cs)
      match spanDigits cs with
      | ([], _) => none
      | (ds, rest) =>
        let size : Int := digitsValue ds
        some (some (if negative then -size else size), rest)
    else some (none, c :: cs)

/-- Reads a number literal: an optional minus sign, an integer part without a zero in front, an
optional fraction, an optional exponent. -/
def Number.ofChars? (cs : List Char) : Option Number :=
  let (negative, cs) : Bool × List Char := match cs with
    | '-' :: cs => (true, cs)
    | cs => (false, cs)
  match spanDigits cs with
  | ([], _) => none
  | ('0' :: _ :: _, _) => none
  | (whole, rest) => do
    let (fraction, rest) ← spanFraction rest
    let (exponent, rest) ← spanExponent rest
    if rest ≠ [] then none
    else if negative = false ∧ fraction = [] ∧ exponent = none then
      some (.natural (digitsValue whole))
    else
      some (.other (digitsFinite whole fraction (exponent.getD 0)))

/-! ## Strings -/

/-- A unit of a string literal: a character, or half of a surrogate pair written by its number. -/
inductive Unit16 where
  /-- a character -/
  | char (c : Char)
  /-- the first half of a pair, its ten bits -/
  | high (bits : Nat)
  /-- the second half of a pair, its ten bits -/
  | low (bits : Nat)
  deriving DecidableEq, Repr

/-- The unit with the given number of at most four hexadecimal digits. -/
def Unit16.ofNumber (n : Nat) : Unit16 :=
  if 0xD800 ≤ n ∧ n < 0xDC00 then .high (n - 0xD800)
  else if 0xDC00 ≤ n ∧ n < 0xE000 then .low (n - 0xDC00)
  else .char (Char.ofNat n)

/-- Joins the halves of surrogate pairs; `none` when a half stands without the other. -/
def joinUnits : List Unit16 → Option (List Char)
  | [] => some []
  | .char c :: us => (joinUnits us).map (c :: ·)
  | .high h :: .low l :: us =>
    (joinUnits us).map (Char.ofNat (0x10000 + h * 0x400 + l) :: ·)
  | .high _ :: _ => none
  | .low _ :: _ => none

/-- The character that a backslash and a letter stand for. -/
def escaped? : Char → Option Char
  | '"' => some '"'
  | '\\' => some '\\'
  | '/' => some '/'
  | 'b' => some '\x08'
  | 'f' => some '\x0c'
  | 'n' => some '\n'
  | 'r' => some '\r'
  | 't' => some '\t'
  | _ => none

/-- The value of a hexadecimal digit of either case. -/
def hexValue? (c : Char) : Option Nat :=
  let n := c.toNat
  if 0x30 ≤ n ∧ n ≤ 0x39 then some (n - 0x30)
  else if 0x61 ≤ n ∧ n ≤ 0x66 then some (n - 0x61 + 10)
  else if 0x41 ≤ n ∧ n ≤ 0x46 then some (n - 0x41 + 10)
  else none

/-! ## The lexer -/

namespace Lexer

/-- What is being read. Runs of characters are kept newest first. -/
inductive Mode where
  /-- nothing: a token may start -/
  | between
  /-- a number literal -/
  | number (read : List Char)
  /-- a literal made of letters -/
  | word (read : List Char)
  /-- a string -/
  | string (read : List Unit16)
  /-- a string, just after a backslash -/
  | escape (read : List Unit16)
  /-- a string, in a character number with so many digits to come -/
  | hex (read : List Unit16) (value missing : Nat)
  deriving DecidableEq, Repr

/-- The tokens read so far, newest first, and what is being read. -/
structure State where
  /-- the complete tokens, newest first -/
  tokens : List Token
  /-- what is being read -/
  mode : Mode
  deriving DecidableEq, Repr

/-- The state before the first character. -/
def start : State := ⟨[], .between⟩

/-- Characters that a number literal may hold. -/
def isNumberChar (c : Char) : Bool :=
  c.isDigit || c = '+' || c = '-' || c = '.' || c = 'e' || c = 'E'

/-- The token that a run of letters stands for. -/
def word? (cs : List Char) : Option Token :=
  if cs = ['n', 'u', 'l', 'l'] then some .null
  else if cs = ['t', 'r', 'u', 'e'] then some (.bool true)
  else if cs = ['f', 'a', 'l', 's', 'e'] then some (.bool false)
  else none

/-- The token that a complete string stands for. -/
def stringToken (read : List Unit16) : Token :=
  .string ((joinUnits read.reverse).map String.ofList)

/-- A character where a token may start. -/
def stepBetween (tokens : List Token) (c : Char) : Option State :=
  if c = ' ' ∨ c = '\n' ∨ c = '\t' ∨ c = '\r' then some ⟨tokens, .between⟩
  else if c = '[' then some ⟨.openArray :: tokens, .between⟩
  else if c = ']' then some ⟨.closeArray :: tokens, .between⟩
  else if c = '\x7b' then some ⟨.openObject :: tokens, .between⟩
  else if c = '\x7d' then some ⟨.closeObject :: tokens, .between⟩
  else if c = ',' then some ⟨.comma :: tokens, .between⟩
  else if c = ':' then some ⟨.colon :: tokens, .between⟩
  else if c = '"' then some ⟨tokens, .string []⟩
  else if c.isDigit ∨ c = '-' then some ⟨tokens, .number [c]⟩
  else if c.isAlpha then some ⟨tokens, .word [c]⟩
  else none

/-- One more character. -/
def step (s : State) (c : Char) : Option State :=
  match s.mode with
  | .between => stepBetween s.tokens c
  | .number read =>
    if isNumberChar c then some ⟨s.tokens, .number (c :: read)⟩
    else do stepBetween (.number (← Number.ofChars? read.reverse) :: s.tokens) c
  | .word read =>
    if c.isAlpha then some ⟨s.tokens, .word (c :: read)⟩
    else do stepBetween ((← word? read.reverse) :: s.tokens) c
  | .string read =>
    if c = '"' then some ⟨stringToken read :: s.tokens, .between⟩
    else if c = '\\' then some ⟨s.tokens, .escape read⟩
    else if c.toNat < 0x20 then none
    else some ⟨s.tokens, .string (.char c :: read)⟩
  | .escape read =>
    if c = 'u' then some ⟨s.tokens, .hex read 0 4⟩
    else do some ⟨s.tokens, .string (.char (← escaped? c) :: read)⟩
  | .hex read value missing => do
    let value := value * 16 + (← hexValue? c)
    if missing ≤ 1 then some ⟨s.tokens, .string (.ofNumber value :: read)⟩
    else some ⟨s.tokens, .hex read value (missing - 1)⟩

/-- The tokens of a text that ends here. -/
def finish (s : State) : Option (List Token) :=
  match s.mode with
  | .between => some s.tokens.reverse
  | .number read => do some ((.number (← Number.ofChars? read.reverse)) :: s.tokens).reverse
  | .word read => do some ((← word? read.reverse) :: s.tokens).reverse
  | _ => none

end Lexer

/-- The tokens of a text, `none` when some character fits no token. -/
def tokens? (cs : List Char) : Option (List Token) :=
  (cs.foldlM Lexer.step Lexer.start).bind Lexer.finish

end Loyalty.Json
