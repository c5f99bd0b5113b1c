import Loyalty.Json.Token
import Loyalty.Json.Writer
import Loyalty.Proofs.Text.Digits

/-!
# The tokens of a written value

`Json.tokens` says which tokens the text of a value consists of. Reading the text one character
after the other gives these tokens, whatever came before.

A number or a word ends only where the next character shows that it has ended, so after the text
of a value the lexer may still be inside its last token. `Lexer.Settles` says that the tokens are
there as soon as a character comes that cannot belong to the last one; all that the writer puts
behind a value is of that sort.

Main statement: a written value is read as its tokens.
-/

namespace Loyalty.Json

/-! ## Strings -/

/-- The half of a surrogate pair that stands for a text that cannot be read. -/
theorem foldlM_writeText_none (ts : List Token) :
    (writeText none).foldlM Lexer.step ⟨ts, .between⟩ = some ⟨.string none :: ts, .between⟩ := by
  rfl

theorem hexValue?_hexDigit {n : Nat} (h : n < 16) : hexValue? (hexDigit n) = some n := by
  have hall : ∀ n < 16, hexValue? (hexDigit n) = some n := by decide
  exact hall n h

/-- A character below the space is the unit with its number. -/
theorem ofNumber_of_lt {c : Char} (h : c.toNat < 0x20) : Unit16.ofNumber c.toNat = .char c := by
  rw [Unit16.ofNumber, if_neg (by omega), if_neg (by omega), Char.ofNat_toNat]

/-- An escaped character is read as that character. -/
theorem foldlM_escapedChar (ts : List Token) (read : List Unit16) (c : Char) :
    (escapedChar c).foldlM Lexer.step ⟨ts, .string read⟩ =
      some ⟨ts, .string (.char c :: read)⟩ := by
  -- Seven characters have an escape of their own, the others below the space are given by number,
  -- and all that is left stands for itself.
  rw [escapedChar]
  split
  · next h => subst h; rfl
  split
  · next h => subst h; rfl
  split
  · next h => subst h; rfl
  split
  · next h => subst h; rfl
  split
  · next h => subst h; rfl
  split
  · next h => subst h; rfl
  split
  · next h => subst h; rfl
  split
  · next h =>
    have hhigh : hexValue? (hexDigit (c.toNat / 16)) = some (c.toNat / 16) :=
      hexValue?_hexDigit (by omega)
    have hlow : hexValue? (hexDigit (c.toNat % 16)) = some (c.toNat % 16) :=
      hexValue?_hexDigit (by omega)
    have hsum : c.toNat / 16 * 16 + c.toNat % 16 = c.toNat := by omega
    have hzero : hexValue? '0' = some 0 := by decide
    simp [Lexer.step, hzero, hhigh, hlow, hsum, ofNumber_of_lt h]
  · next hquote hslash _ _ _ _ _ hlow =>
    simp [Lexer.step, hquote, hslash, hlow]

theorem foldlM_escapedChars (ts : List Token) (cs : List Char) (read : List Unit16) :
    (cs.flatMap escapedChar).foldlM Lexer.step ⟨ts, .string read⟩ =
      some ⟨ts, .string ((cs.map Unit16.char).reverse ++ read)⟩ := by
  induction cs generalizing read with
  | nil => rfl
  | cons c cs ih =>
    rw [List.flatMap_cons, List.foldlM_append, foldlM_escapedChar]
    simpa using ih (.char c :: read)

theorem joinUnits_map_char (cs : List Char) : joinUnits (cs.map Unit16.char) = some cs := by
  induction cs with
  | nil => rfl
  | cons c cs ih => rw [List.map_cons, joinUnits, ih, Option.map_some]

theorem writeText_some (s : String) :
    writeText (some s) = '"' :: (s.toList.flatMap escapedChar ++ ['"']) :=
  rfl

/-- A written string is read as that string. -/
theorem foldlM_writeText (ts : List Token) (s : Text) :
    (writeText s).foldlM Lexer.step ⟨ts, .between⟩ = some ⟨.string s :: ts, .between⟩ := by
  cases s with
  | none => exact foldlM_writeText_none ts
  | some s =>
    have hopen : Lexer.step ⟨ts, .between⟩ '"' = some ⟨ts, .string []⟩ := by
      simp [Lexer.step, Lexer.stepBetween]
    have hclose (read : List Unit16) :
        Lexer.step ⟨ts, .string read⟩ '"' = some ⟨Lexer.stringToken read :: ts, .between⟩ := by
      simp [Lexer.step]
    rw [writeText_some, List.foldlM_cons, hopen, Option.bind_eq_bind, Option.bind_some,
      List.foldlM_append, foldlM_escapedChars]
    simp [hclose, Lexer.stringToken, joinUnits_map_char]

/-! ## Numbers -/

theorem spanDigits_append {ds rest : List Char} (hds : ∀ c ∈ ds, c.isDigit = true)
    (hrest : ∀ c, rest.head? = some c → c.isDigit = false) :
    spanDigits (ds ++ rest) = (ds, rest) := by
  rw [spanDigits, List.takeWhile_append_of_pos hds, List.dropWhile_append_of_pos hds]
  cases rest with
  | nil => simp
  | cons c rest => simp [hrest c rfl]

/-- A written number is the literal of that number. -/
theorem ofChars?_write (n : Number) : Number.ofChars? n.write = some n := by
  cases n with
  | other finite => cases finite <;> rfl
  | natural n =>
    have hdigit : ∀ c ∈ Text.digits n, c.isDigit = true := fun _ => Text.isDigit_of_mem_digits
    have hspan : spanDigits (Text.digits n) = (Text.digits n, []) := by
      have hnil : ∀ c, ([] : List Char).head? = some c → c.isDigit = false := by simp
      simpa using spanDigits_append hdigit hnil
    have hval : digitsValue (Text.digits n) = n := Text.ofDigitChars_digits n
    have hminus : ∀ cs, Text.digits n = '-' :: cs → False := fun cs h =>
      absurd (hdigit '-' (by simp [h])) (by decide)
    rw [Number.write, Number.ofChars?, hspan]
    · split
      · next h => exact absurd (Prod.mk.inj h).1 (Text.digits_ne_nil n)
      · next h => exact absurd (Prod.mk.inj h).1 (Text.digits_ne_zero_cons n _ _)
      · next h =>
        obtain ⟨rfl, rfl⟩ := Prod.mk.inj h
        simp [spanFraction, spanExponent, hval]
    · exact hminus

/-- A literal that begins with a digit or a minus sign is taken in up to its end. -/
theorem foldlM_literal (ts : List Token) {c : Char} {cs : List Char}
    (hc : c.isDigit = true ∨ c = '-') (hcs : ∀ d ∈ cs, Lexer.isNumberChar d = true) :
    (c :: cs).foldlM Lexer.step ⟨ts, .between⟩ = some ⟨ts, .number (c :: cs).reverse⟩ := by
  -- Of the many things that may begin between two tokens only a number begins like this.
  have hne : ∀ d, d.isDigit = false → d ≠ '-' → c ≠ d := by
    rintro d hd hminus rfl
    rcases hc with h | h
    · rw [hd] at h
      cases h
    · exact hminus h
  have hfirst : Lexer.step ⟨ts, .between⟩ c = some ⟨ts, .number [c]⟩ := by
    have hblank : ¬ (c = ' ' ∨ c = '\n' ∨ c = '\t' ∨ c = '\r') := by
      rintro (h | h | h | h) <;> exact hne _ (by decide) (by decide) h
    have harray := hne '[' (by decide) (by decide)
    have harray' := hne ']' (by decide) (by decide)
    have hobject := hne '\x7b' (by decide) (by decide)
    have hobject' := hne '\x7d' (by decide) (by decide)
    have hcomma := hne ',' (by decide) (by decide)
    have hcolon := hne ':' (by decide) (by decide)
    have hquote := hne '"' (by decide) (by decide)
    simp only [Lexer.step, Lexer.stepBetween]
    rw [if_neg hblank, if_neg harray, if_neg harray', if_neg hobject, if_neg hobject',
      if_neg hcomma, if_neg hcolon, if_neg hquote, if_pos hc]
  have hrest : ∀ read : List Char, cs.foldlM Lexer.step ⟨ts, .number read⟩ =
      some ⟨ts, .number (cs.reverse ++ read)⟩ := by
    clear hfirst
    induction cs with
    | nil => simp
    | cons d cs ih =>
      intro read
      have hd : Lexer.step ⟨ts, .number read⟩ d = some ⟨ts, .number (d :: read)⟩ := by
        simp [Lexer.step, hcs d List.mem_cons_self]
      have := ih (fun e he => hcs e (List.mem_cons_of_mem d he)) (d :: read)
      simpa [hd] using this
  rw [List.foldlM_cons, hfirst, Option.bind_eq_bind, Option.bind_some, hrest, List.reverse_cons]

theorem foldlM_writeNumber (ts : List Token) (n : Number) :
    n.write.foldlM Lexer.step ⟨ts, .between⟩ = some ⟨ts, .number n.write.reverse⟩ := by
  cases n with
  | other finite => cases finite <;> rfl
  | natural n =>
    have hdigit : ∀ c ∈ Text.digits n, c.isDigit = true := fun _ => Text.isDigit_of_mem_digits
    rw [Number.write]
    rcases hds : Text.digits n with _ | ⟨d, ds⟩
    · exact absurd hds (Text.digits_ne_nil n)
    · rw [hds] at hdigit
      refine foldlM_literal ts (.inl (hdigit d List.mem_cons_self)) fun c hc => ?_
      simp [Lexer.isNumberChar, hdigit c (List.mem_cons_of_mem d hc)]

/-! ## Where a token ends -/

namespace Lexer

/-- The tokens that are there once a character shows that the last one has ended. -/
inductive Settles : State → List Token → Prop where
  /-- the last token has ended already -/
  | between (ts : List Token) : Settles ⟨ts, .between⟩ ts
  /-- the last token is a number -/
  | number (ts : List Token) {read : List Char} {n : Number}
      (h : Number.ofChars? read.reverse = some n) : Settles ⟨ts, .number read⟩ (.number n :: ts)
  /-- the last token is a word -/
  | word (ts : List Token) {read : List Char} {t : Token} (h : word? read.reverse = some t) :
      Settles ⟨ts, .word read⟩ (t :: ts)

/-- A character that belongs to no number and to no word. -/
def isDelimiter (c : Char) : Bool :=
  !isNumberChar c && !c.isAlpha

theorem Settles.step {st : State} {ts : List Token} (h : Settles st ts) {c : Char}
    (hc : isDelimiter c = true) : Lexer.step st c = stepBetween ts c := by
  obtain ⟨hnumber, halpha⟩ : isNumberChar c = false ∧ c.isAlpha = false := by
    simpa [isDelimiter] using hc
  cases h with
  | between => rfl
  | number ts hn => simp [Lexer.step, hnumber, hn]
  | word ts ht => simp [Lexer.step, halpha, ht]

theorem Settles.finish {st : State} {ts : List Token} (h : Settles st ts) :
    Lexer.finish st = some ts.reverse := by
  cases h with
  | between => rfl
  | number ts hn => simp [Lexer.finish, hn]
  | word ts ht => simp [Lexer.finish, ht]

end Lexer

/-! ## Values -/

mutual

/-- The tokens of which the text of a value consists. -/
def tokens : Json → List Token
  | .null => [.null]
  | .bool b => [.bool b]
  | .number n => [.number n]
  | .string s => [.string s]
  | .array items => .openArray :: tokensItems items ++ [.closeArray]
  | .object members => .openObject :: tokensMembers members ++ [.closeObject]

/-- The tokens of the items of an array. -/
def tokensItems : List Json → List Token
  | [] => []
  | [j] => tokens j
  | j :: js => tokens j ++ .comma :: tokensItems js

/-- The tokens of the members of an object. -/
def tokensMembers : List (Text × Json) → List Token
  | [] => []
  | [(k, j)] => .string k :: .colon :: tokens j
  | (k, j) :: ms => .string k :: .colon :: tokens j ++ .comma :: tokensMembers ms

end

/-- Reading characters adds tokens to those read before. -/
def Lexes (cs : List Char) (new : List Token) : Prop :=
  ∀ ts, ∃ st, cs.foldlM Lexer.step ⟨ts, .between⟩ = some st ∧
    Lexer.Settles st (new.reverse ++ ts)

/-- Reading characters adds tokens, and the last of them has ended. -/
def LexesWhole (cs : List Char) (new : List Token) : Prop :=
  ∀ ts, cs.foldlM Lexer.step ⟨ts, .between⟩ = some ⟨new.reverse ++ ts, .between⟩

theorem LexesWhole.lexes {cs : List Char} {new : List Token} (h : LexesWhole cs new) :
    Lexes cs new :=
  fun ts => ⟨_, h ts, .between _⟩

/-- Text behind a token that has ended. -/
theorem LexesWhole.append {cs ds : List Char} {new new' : List Token} (h : LexesWhole cs new)
    (h' : Lexes ds new') : Lexes (cs ++ ds) (new ++ new') := by
  intro ts
  obtain ⟨st, hst, hsettles⟩ := h' (new.reverse ++ ts)
  refine ⟨st, ?_, ?_⟩
  · rw [List.foldlM_append, h, Option.bind_eq_bind, Option.bind_some, hst]
  · rwa [List.reverse_append, List.append_assoc]

/-- A character that is a token of its own ends the token before it. -/
theorem Lexes.delimiter {cs : List Char} {new : List Token} (h : Lexes cs new) {c : Char}
    {t : Token} (hc : Lexer.isDelimiter c = true)
    (ht : ∀ ts, Lexer.stepBetween ts c = some ⟨t :: ts, .between⟩) :
    LexesWhole (cs ++ [c]) (new ++ [t]) := by
  intro ts
  obtain ⟨st, hst, hsettles⟩ := h ts
  rw [List.foldlM_append, hst]
  simp [hsettles.step hc, ht]

theorem lexes_null : Lexes ['n', 'u', 'l', 'l'] [.null] :=
  fun ts => ⟨⟨ts, .word ['l', 'l', 'u', 'n']⟩, rfl, .word ts rfl⟩

theorem lexes_bool (b : Bool) : Lexes (write (.bool b)) [.bool b] := by
  intro ts
  cases b with
  | true => exact ⟨⟨ts, .word ['e', 'u', 'r', 't']⟩, rfl, .word ts rfl⟩
  | false => exact ⟨⟨ts, .word ['e', 's', 'l', 'a', 'f']⟩, rfl, .word ts rfl⟩

theorem lexes_number (n : Number) : Lexes n.write [.number n] := by
  intro ts
  refine ⟨_, foldlM_writeNumber ts n, .number ts ?_⟩
  rw [List.reverse_reverse]
  exact ofChars?_write n

theorem lexes_writeText (s : Text) : LexesWhole (writeText s) [.string s] :=
  fun ts => foldlM_writeText ts s

/-- A member, given how its value is read. -/
theorem Lexes.member (k : Text) {cs : List Char} {new : List Token} (h : Lexes cs new) :
    Lexes (writeText k ++ ':' :: cs) (.string k :: .colon :: new) := by
  have hname : LexesWhole (writeText k ++ [':']) ([.string k] ++ [.colon]) :=
    (lexes_writeText k).lexes.delimiter rfl fun _ => rfl
  simpa using hname.append h

/-- A container, given how what stands in it is read. -/
theorem Lexes.container {cs : List Char} {new : List Token} (h : Lexes cs new) {c d : Char}
    {t u : Token} (ht : ∀ ts, Lexer.stepBetween ts c = some ⟨t :: ts, .between⟩)
    (hd : Lexer.isDelimiter d = true)
    (hu : ∀ ts, Lexer.stepBetween ts d = some ⟨u :: ts, .between⟩) :
    Lexes (c :: cs ++ [d]) (t :: new ++ [u]) := by
  have hopen : LexesWhole [c] [t] := fun ts => by simp [Lexer.step, ht]
  simpa using hopen.append (h.delimiter hd hu).lexes

mutual

/-- A written value is read as its tokens. -/
theorem lexes_write : ∀ j : Json, Lexes (write j) (tokens j)
  | .null => lexes_null
  | .bool b => lexes_bool b
  | .number n => lexes_number n
  | .string s => (lexes_writeText s).lexes
  | .array items => (lexes_writeItems items).container (fun _ => rfl) rfl fun _ => rfl
  | .object members => (lexes_writeMembers members).container (fun _ => rfl) rfl fun _ => rfl

theorem lexes_writeItems : ∀ js : List Json, Lexes (writeItems js) (tokensItems js)
  | [] => LexesWhole.lexes fun _ => rfl
  | [j] => lexes_write j
  | j :: j' :: js => by
    have hhead : LexesWhole (write j ++ [',']) (tokens j ++ [.comma]) :=
      (lexes_write j).delimiter rfl fun _ => rfl
    simpa [writeItems, tokensItems] using hhead.append (lexes_writeItems (j' :: js))

theorem lexes_writeMembers :
    ∀ ms : List (Text × Json), Lexes (writeMembers ms) (tokensMembers ms)
  | [] => LexesWhole.lexes fun _ => rfl
  | [(k, j)] => .member k (lexes_write j)
  | (k, j) :: m :: ms => by
    have hhead : LexesWhole (writeText k ++ ':' :: write j ++ [','])
        (.string k :: .colon :: tokens j ++ [.comma]) :=
      ((lexes_write j).member k).delimiter rfl fun _ => rfl
    simpa [writeMembers, tokensMembers] using hhead.append (lexes_writeMembers (m :: ms))

end

/-- The text of a value has the tokens of the value. -/
theorem tokens?_write (j : Json) : tokens? (write j) = some (tokens j) := by
  obtain ⟨st, hst, hsettles⟩ := lexes_write j []
  rw [tokens?, Lexer.start, hst, Option.bind_some, hsettles.finish]
  simp

end Loyalty.Json
