import Loyalty.Json.Reader
import Loyalty.Proofs.Json.Lexing

/-!
# Reading back what was written

Once the tokens of a written value are known, reading them is a fold over the value itself: after
the tokens of a value the reader is where it would be had the value been put into the innermost
open container. The induction therefore runs over the value with the open containers arbitrary,
and over the rest of a container with the items read before it arbitrary.

Main statement: reading the text of a value gives that value, for every value.
-/

namespace Loyalty.Json

/-- What the reader needs at the front: no token of a value ends a container. -/
theorem step_firstItem {t : Token} (ht : t ≠ .closeArray) (up : List Reader.Frame) :
    Reader.step (.firstItem up) t = Reader.step (.value (.array [] :: up)) t := by
  cases t <;> first | rfl | exact absurd rfl ht

/-- The text of a value begins with a token that ends no array. -/
theorem tokens_eq_cons (j : Json) : ∃ t ts, tokens j = t :: ts ∧ t ≠ .closeArray := by
  cases j <;> exact ⟨_, _, rfl, by simp⟩

/-- So does a list of items that is not empty. -/
theorem tokensItems_eq_cons (j : Json) (js : List Json) :
    ∃ t ts, tokensItems (j :: js) = t :: ts ∧ t ≠ .closeArray := by
  obtain ⟨t, ts, htokens, ht⟩ := tokens_eq_cons j
  cases js with
  | nil => exact ⟨t, ts, by rw [tokensItems, htokens], ht⟩
  | cons j' js =>
    refine ⟨t, ts ++ .comma :: tokensItems (j' :: js), ?_, ht⟩
    rw [tokensItems, htokens, List.cons_append]
    simp

/-- So does a list of members that is not empty, and the reader takes it for the first name. -/
theorem tokensMembers_eq_cons (k : Text) (j : Json) (ms : List (Text × Json)) :
    ∃ ts, tokensMembers ((k, j) :: ms) = .string k :: ts := by
  cases ms with
  | nil => exact ⟨_, rfl⟩
  | cons m ms => exact ⟨_, rfl⟩

mutual

/-- After the tokens of a value that value is complete. -/
theorem foldlM_tokens : ∀ (j : Json) (up : List Reader.Frame),
    (tokens j).foldlM Reader.step (.value up) = some (Reader.plug j up)
  | .null, _ => rfl
  | .bool _, _ => rfl
  | .number _, _ => rfl
  | .string _, _ => rfl
  | .array [], _ => rfl
  | .array (j :: js), up => by
    obtain ⟨t, ts, htokens, ht⟩ := tokensItems_eq_cons j js
    -- For its first item the reader also allows the end of the array, which this token is not.
    have hitems := foldlM_tokensItems (j :: js) (by simp) [] up
    rw [htokens, List.foldlM_cons, ← step_firstItem ht, ← List.foldlM_cons] at hitems
    have hopen : Reader.step (.value up) .openArray = some (.firstItem up) := rfl
    have hclose : Reader.step (.afterItem ((j :: js).reverse ++ []) up) .closeArray =
        some (Reader.plug (.array (j :: js)) up) := by
      rw [Reader.step, List.append_nil, List.reverse_reverse]
    rw [tokens, htokens, List.cons_append, List.foldlM_cons, hopen, Option.bind_eq_bind,
      Option.bind_some, List.foldlM_append, hitems, Option.bind_eq_bind, Option.bind_some,
      List.foldlM_cons, hclose]
    rfl
  | .object [], _ => rfl
  | .object ((k, j) :: ms), up => by
    obtain ⟨ts, htokens⟩ := tokensMembers_eq_cons k j ms
    have hmembers := foldlM_tokensMembers ((k, j) :: ms) (by simp) [] up
    have hfirst : Reader.step (.name [] up) (.string k) = Reader.step (.firstName up) (.string k) :=
      rfl
    rw [htokens, List.foldlM_cons, hfirst, ← List.foldlM_cons] at hmembers
    have hopen : Reader.step (.value up) .openObject = some (.firstName up) := rfl
    have hclose : Reader.step (.afterMember (((k, j) :: ms).reverse ++ []) up) .closeObject =
        some (Reader.plug (.object ((k, j) :: ms)) up) := by
      rw [Reader.step, List.append_nil, List.reverse_reverse]
    rw [tokens, htokens, List.cons_append, List.foldlM_cons, hopen, Option.bind_eq_bind,
      Option.bind_some, List.foldlM_append, hmembers, Option.bind_eq_bind, Option.bind_some,
      List.foldlM_cons, hclose]
    rfl

/-- After the tokens of the items to come the array holds them behind those read before. -/
theorem foldlM_tokensItems : ∀ js : List Json, js ≠ [] → ∀ (items : List Json)
    (up : List Reader.Frame), (tokensItems js).foldlM Reader.step (.value (.array items :: up)) =
      some (.afterItem (js.reverse ++ items) up)
  | [], h, _, _ => absurd rfl h
  | [j], _, items, up => by
    rw [tokensItems, foldlM_tokens j]
    rfl
  | j :: j' :: js, _, items, up => by
    have hcomma : Reader.step (.afterItem (j :: items) up) .comma =
        some (.value (.array (j :: items) :: up)) := rfl
    have hrest := foldlM_tokensItems (j' :: js) (by simp) (j :: items) up
    rw [tokensItems, List.foldlM_append, foldlM_tokens j]
    · simp [Reader.plug, hcomma, hrest]
    · simp

theorem foldlM_tokensMembers : ∀ ms : List (Text × Json), ms ≠ [] →
    ∀ (members : List (Text × Json)) (up : List Reader.Frame),
    (tokensMembers ms).foldlM Reader.step (.name members up) =
      some (.afterMember (ms.reverse ++ members) up)
  | [], h, _, _ => absurd rfl h
  | [(k, j)], _, members, up => by
    have hname : Reader.step (.name members up) (.string k) = some (.colon members k up) := rfl
    have hcolon : Reader.step (.colon members k up) .colon =
        some (.value (.object members k :: up)) := rfl
    rw [tokensMembers]
    simp [hname, hcolon, foldlM_tokens j, Reader.plug]
  | (k, j) :: m :: ms, _, members, up => by
    have hname : Reader.step (.name members up) (.string k) = some (.colon members k up) := rfl
    have hcolon : Reader.step (.colon members k up) .colon =
        some (.value (.object members k :: up)) := rfl
    have hcomma : Reader.step (.afterMember ((k, j) :: members) up) .comma =
        some (.name ((k, j) :: members) up) := rfl
    have hrest := foldlM_tokensMembers (m :: ms) (by simp) ((k, j) :: members) up
    rw [tokensMembers]
    · simp [hname, hcolon, foldlM_tokens j, Reader.plug, hcomma, hrest]
    · simp

end

/-- Reading the text of a value gives that value. -/
theorem parse?_toText (j : Json) : parse? j.toText = some j := by
  rw [parse?, toText, String.toList_ofList, tokens?_write, Option.bind_some, ofTokens?,
    foldlM_tokens]
  rfl

end Loyalty.Json
