import Loyalty.Proofs.Text.Digits

/-!
# Whole numbers in a text

Which texts are whole numbers, said without a reader. White space at the two ends does not count:
`Trims`. What is left is an optional plus sign and at least one digit, and stands for the value of
the digits: `Numeral`. Any other text has a fault, and a number that does not fit has one as well:
`Refused`. Of several faults the first one counts. A number that is too large is so from the digit on
at which it does not fit any more, whatever comes behind.

Main statements: a text is read as the number that it is, if that is below the limit, and refused for
its fault otherwise.
-/

namespace Loyalty.Text

/-! ## White space at the two ends -/

/-- A text, and what is left of it without the white space at its two ends. -/
inductive Trims : List Char → List Char → Prop where
  /-- there is white space around it, and none at its own ends -/
  | within {front text back : List Char} (hfront : ∀ c ∈ front, isSpace c = true)
    (hback : ∀ c ∈ back, isSpace c = true) (hfirst : ∀ c ∈ text.head?, isSpace c = false)
    (hlast : ∀ c ∈ text.getLast?, isSpace c = false) : Trims (front ++ text ++ back) text

theorem dropSpace_append {front : List Char} (h : ∀ c ∈ front, isSpace c = true)
    (cs : List Char) : dropSpace (front ++ cs) = dropSpace cs :=
  List.dropWhile_append_of_pos h

theorem dropSpace_eq_self {cs : List Char} (h : ∀ c ∈ cs.head?, isSpace c = false) :
    dropSpace cs = cs := by
  cases cs with
  | nil => rfl
  | cons c cs =>
    have hc : isSpace c = false := h c rfl
    exact List.dropWhile_cons_of_neg (by simp [hc])

/-- What is dropped is white space, and what is left does not begin with any. -/
theorem exists_dropSpace (cs : List Char) :
    ∃ front, cs = front ++ dropSpace cs ∧ (∀ c ∈ front, isSpace c = true) ∧
      ∀ c ∈ (dropSpace cs).head?, isSpace c = false := by
  refine ⟨cs.takeWhile isSpace, List.takeWhile_append_dropWhile.symm,
    List.all_eq_true.1 List.all_takeWhile, fun c hc => ?_⟩
  have hnot := List.head?_dropWhile_not isSpace cs
  rw [← dropSpace, Option.mem_def.1 hc] at hnot
  exact hnot

theorem trims_trimChars (cs : List Char) : Trims cs (trimChars cs) := by
  obtain ⟨front, hcs, hfront, hfirst⟩ := exists_dropSpace cs
  obtain ⟨back, hrest, hback, hlast⟩ := exists_dropSpace (dropSpace cs).reverse
  have hdrop : dropSpace cs = trimChars cs ++ back.reverse := by
    rw [trimChars, ← List.reverse_append, ← hrest, List.reverse_reverse]
  have htext : front ++ trimChars cs ++ back.reverse = cs := by
    rw [List.append_assoc, ← hdrop]
    exact hcs.symm
  have htrims : Trims (front ++ trimChars cs ++ back.reverse) (trimChars cs) := by
    refine .within hfront (by simpa using hback) (fun c hc => hfirst c ?_) (fun c hc => hlast c ?_)
    · rw [hdrop, List.head?_append, Option.mem_def.1 hc]
      rfl
    · rwa [trimChars, List.getLast?_reverse] at hc
  rwa [htext] at htrims

theorem trims_iff {cs text : List Char} : Trims cs text ↔ text = trimChars cs := by
  constructor
  · intro h
    cases h with
    | @within front _ back hfront hback hfirst hlast =>
      rcases text with _ | ⟨c, text⟩
      · have hall : ∀ c ∈ front ++ [] ++ back, isSpace c = true := by
          simpa [or_imp, forall_and] using ⟨hfront, hback⟩
        exact ((trimChars_eq_nil_iff _).2 hall).symm
      · have hbegin : dropSpace (front ++ c :: text ++ back) = c :: text ++ back := by
          rw [List.append_assoc, dropSpace_append hfront]
          exact dropSpace_eq_self hfirst
        have hend : dropSpace (c :: text).reverse = (c :: text).reverse :=
          dropSpace_eq_self (by rwa [List.head?_reverse])
        rw [trimChars, hbegin, List.reverse_append, dropSpace_append (by simpa using hback), hend,
          List.reverse_reverse]
  · rintro rfl
    exact trims_trimChars cs

/-! ## Numbers and faults -/

/-- A whole number in digits, with a plus sign in front of it or not. -/
inductive Numeral : List Char → Nat → Prop where
  /-- without a sign -/
  | unsigned {ds : List Char} (hne : ds ≠ []) (hds : ∀ c ∈ ds, c.isDigit = true) :
    Numeral ds (Nat.ofDigitChars 10 ds 0)
  /-- with a sign -/
  | signed {ds : List Char} (hne : ds ≠ []) (hds : ∀ c ∈ ds, c.isDigit = true) :
    Numeral ('+' :: ds) (Nat.ofDigitChars 10 ds 0)

/-- A text is at fault where digits below a limit should stand, when those before it have the value
`acc`. -/
inductive Faulty (limit acc : Nat) : List Char → NumeralFault → Prop where
  /-- something that is no digit stands behind digits whose value fits -/
  | invalidDigit {ds rest : List Char} {c : Char} (hds : ∀ c ∈ ds, c.isDigit = true)
    (hfits : Nat.ofDigitChars 10 ds acc < limit) (hc : c.isDigit = false) :
    Faulty limit acc (ds ++ c :: rest) .invalidDigit
  /-- the value of the digits does not fit -/
  | tooLarge {ds rest : List Char} (hds : ∀ c ∈ ds, c.isDigit = true)
    (hlarge : limit ≤ Nat.ofDigitChars 10 ds acc) : Faulty limit acc (ds ++ rest) .tooLarge

/-- Why a text is not a whole number below a limit. -/
inductive Refused (limit : Nat) : List Char → NumeralFault → Prop where
  /-- nothing is there -/
  | empty : Refused limit [] .empty
  /-- nothing is there but a sign -/
  | sign : Refused limit ['+'] .invalidDigit
  /-- something is wrong with what follows the sign -/
  | signed {cs : List Char} {fault : NumeralFault} (h : Faulty limit 0 cs fault) :
    Refused limit ('+' :: cs) fault
  /-- there is no sign, and something is wrong -/
  | unsigned {cs : List Char} {fault : NumeralFault} (hsign : ∀ c ∈ cs.head?, c ≠ '+')
    (h : Faulty limit 0 cs fault) : Refused limit cs fault

/-! ## Reading digits -/

section Digits

variable {limit acc : Nat} {ds rest : List Char}

theorem readDigits_append (hds : ∀ c ∈ ds, c.isDigit = true)
    (hfits : Nat.ofDigitChars 10 ds acc < limit) :
    readDigits limit acc (ds ++ rest) = readDigits limit (Nat.ofDigitChars 10 ds acc) rest := by
  induction ds generalizing acc with
  | nil => rfl
  | cons d ds ih =>
    obtain ⟨hd, hds⟩ := List.forall_mem_cons.1 hds
    rw [ofDigitChars_cons] at hfits ⊢
    rw [List.cons_append, readDigits, if_pos hd,
      if_pos (Nat.lt_of_le_of_lt (le_ofDigitChars _ _) hfits), ih hds hfits]

theorem readDigits_tooLarge (hacc : acc < limit) (hds : ∀ c ∈ ds, c.isDigit = true)
    (hlarge : limit ≤ Nat.ofDigitChars 10 ds acc) :
    readDigits limit acc (ds ++ rest) = .error .tooLarge := by
  induction ds generalizing acc with
  | nil => exact absurd hacc (Nat.not_lt.2 hlarge)
  | cons d ds ih =>
    obtain ⟨hd, hds⟩ := List.forall_mem_cons.1 hds
    rw [ofDigitChars_cons] at hlarge
    rw [List.cons_append, readDigits, if_pos hd]
    split
    · next hfits => exact ih hfits hds hlarge
    · rfl

theorem readDigits_eq_ok_iff {cs : List Char} {n : Nat} (hacc : acc < limit) :
    readDigits limit acc cs = .ok n ↔
      (∀ c ∈ cs, c.isDigit = true) ∧ n = Nat.ofDigitChars 10 cs acc ∧ n < limit := by
  constructor
  · intro h
    induction cs generalizing acc with
    | nil =>
      cases h
      exact ⟨List.forall_mem_nil _, rfl, hacc⟩
    | cons c cs ih =>
      rw [readDigits] at h
      split at h
      · next hc =>
        split at h
        · next hfits =>
          obtain ⟨hcs, hn, hlt⟩ := ih hfits h
          exact ⟨List.forall_mem_cons.2 ⟨hc, hcs⟩, hn.trans (ofDigitChars_cons ..).symm, hlt⟩
        · cases h
      · cases h
  · rintro ⟨hcs, rfl, hlt⟩
    rw [← List.append_nil cs, readDigits_append hcs hlt, List.append_nil, readDigits]

theorem readDigits_eq_error_iff {cs : List Char} {fault : NumeralFault} (hacc : acc < limit) :
    readDigits limit acc cs = .error fault ↔ Faulty limit acc cs fault := by
  constructor
  · intro h
    induction cs generalizing acc with
    | nil => cases h
    | cons c cs ih =>
      rw [readDigits] at h
      split at h
      · next hc =>
        split at h
        · next hfits =>
          -- The digit is one more of those that stand in front of the fault.
          cases ih hfits h with
          | invalidDigit hds hfits' hc' =>
            exact .invalidDigit (List.forall_mem_cons.2 ⟨hc, hds⟩)
              (by rwa [ofDigitChars_cons]) hc'
          | tooLarge hds hlarge =>
            exact .tooLarge (List.forall_mem_cons.2 ⟨hc, hds⟩) (by rwa [ofDigitChars_cons])
        · next hfits =>
          cases h
          show Faulty limit acc ([c] ++ cs) .tooLarge
          refine .tooLarge (List.forall_mem_singleton.2 hc) ?_
          rw [ofDigitChars_cons]
          exact Nat.not_lt.1 hfits
      · next hc =>
        cases h
        show Faulty limit acc ([] ++ c :: cs) .invalidDigit
        exact .invalidDigit (List.forall_mem_nil _) hacc (Bool.eq_false_iff.2 hc)
  · intro h
    cases h with
    | invalidDigit hds hfits hc => rw [readDigits_append hds hfits, readDigits, hc]; rfl
    | tooLarge hds hlarge => exact readDigits_tooLarge hacc hds hlarge

end Digits

/-! ## Reading numbers -/

section Numbers

variable {limit : Nat} {cs : List Char}

theorem readNumeral_signed (h : cs ≠ []) :
    readNumeral limit ('+' :: cs) = readDigits limit 0 cs := by
  cases cs with
  | nil => exact absurd rfl h
  | cons c cs => rfl

theorem readNumeral_unsigned (h : cs ≠ []) (hsign : ∀ c ∈ cs.head?, c ≠ '+') :
    readNumeral limit cs = readDigits limit 0 cs := by
  unfold readNumeral
  split
  · exact absurd rfl h
  · exact absurd rfl (hsign '+' rfl)
  · exact absurd rfl (hsign '+' rfl)
  · rfl

/-- A text is empty, or a sign alone, or there is something behind a sign, or it does not begin with a
sign. -/
theorem bySign {P : List Char → Prop} (empty : P []) (sign : P ['+'])
    (signed : ∀ cs, cs ≠ [] → P ('+' :: cs))
    (unsigned : ∀ cs, cs ≠ [] → (∀ c ∈ cs.head?, c ≠ '+') → P cs) (cs : List Char) : P cs := by
  rcases cs with _ | ⟨c, cs⟩
  · exact empty
  · by_cases hc : c = '+'
    · subst hc
      cases cs with
      | nil => exact sign
      | cons d cs => exact signed _ nofun
    · exact unsigned _ nofun fun d hd => Option.some.inj hd ▸ hc

theorem numeral_signed_iff (h : cs ≠ []) {n : Nat} :
    Numeral ('+' :: cs) n ↔ (∀ c ∈ cs, c.isDigit = true) ∧ n = Nat.ofDigitChars 10 cs 0 := by
  constructor
  · intro hn
    cases hn with
    | unsigned _ hds => cases hds '+' List.mem_cons_self
    | signed _ hds => exact ⟨hds, rfl⟩
  · rintro ⟨hds, rfl⟩
    exact .signed h hds

theorem numeral_unsigned_iff (h : cs ≠ []) (hsign : ∀ c ∈ cs.head?, c ≠ '+') {n : Nat} :
    Numeral cs n ↔ (∀ c ∈ cs, c.isDigit = true) ∧ n = Nat.ofDigitChars 10 cs 0 := by
  constructor
  · intro hn
    cases hn with
    | unsigned _ hds => exact ⟨hds, rfl⟩
    | signed => exact absurd rfl (hsign '+' rfl)
  · rintro ⟨hds, rfl⟩
    exact .unsigned h hds

/-- Where nothing stands, nothing is wrong with the digits. -/
theorem ne_nil_of_faulty (hlimit : 0 < limit) {fault : NumeralFault}
    (h : Faulty limit 0 cs fault) : cs ≠ [] := by
  rintro rfl
  cases (readDigits_eq_error_iff hlimit).2 h

theorem readNumeral_eq_ok_iff (hlimit : 0 < limit) {n : Nat} :
    readNumeral limit cs = .ok n ↔ Numeral cs n ∧ n < limit := by
  induction cs using bySign with
  | empty =>
    refine ⟨nofun, fun ⟨hn, _⟩ => ?_⟩
    cases hn with
    | unsigned hne => exact absurd rfl hne
  | sign =>
    refine ⟨nofun, fun ⟨hn, _⟩ => ?_⟩
    cases hn with
    | unsigned _ hds => cases hds '+' List.mem_cons_self
    | signed hne => exact absurd rfl hne
  | signed cs h =>
    rw [readNumeral_signed h, readDigits_eq_ok_iff hlimit, numeral_signed_iff h, and_assoc]
  | unsigned cs h hsign =>
    rw [readNumeral_unsigned h hsign, readDigits_eq_ok_iff hlimit, numeral_unsigned_iff h hsign,
      and_assoc]

theorem readNumeral_eq_error_iff (hlimit : 0 < limit) {fault : NumeralFault} :
    readNumeral limit cs = .error fault ↔ Refused limit cs fault := by
  constructor
  · intro h
    induction cs using bySign with
    | empty =>
      cases h
      exact .empty
    | sign =>
      cases h
      exact .sign
    | signed cs hne =>
      rw [readNumeral_signed hne] at h
      exact .signed ((readDigits_eq_error_iff hlimit).1 h)
    | unsigned cs hne hsign =>
      rw [readNumeral_unsigned hne hsign] at h
      exact .unsigned hsign ((readDigits_eq_error_iff hlimit).1 h)
  · intro h
    cases h with
    | empty => rfl
    | sign => rfl
    | signed h =>
      rw [readNumeral_signed (ne_nil_of_faulty hlimit h)]
      exact (readDigits_eq_error_iff hlimit).2 h
    | unsigned hsign h =>
      rw [readNumeral_unsigned (ne_nil_of_faulty hlimit h) hsign]
      exact (readDigits_eq_error_iff hlimit).2 h

end Numbers

/-! ## Numbers as they are written -/

/-- A written number is that number, with or without zeros in front. -/
theorem numeral_padded (width n : Nat) : Numeral (padded width n) n := by
  have h := Numeral.unsigned (padded_ne_nil width n) fun _ => isDigit_of_mem_padded
  rwa [ofDigitChars_padded] at h

/-- There is no white space in a number. -/
theorem Numeral.not_isSpace {cs : List Char} {n : Nat} (h : Numeral cs n) :
    ∀ c ∈ cs, isSpace c = false := by
  cases h with
  | unsigned _ hds => exact fun c hc => isSpace_of_isDigit (hds c hc)
  | signed _ hds =>
    exact List.forall_mem_cons.2 ⟨by decide, fun c hc => isSpace_of_isDigit (hds c hc)⟩

/-- White space around a number does not count. -/
theorem Numeral.trims {cs : List Char} {n : Nat} (h : Numeral cs n) {front back : List Char}
    (hfront : ∀ c ∈ front, isSpace c = true) (hback : ∀ c ∈ back, isSpace c = true) :
    Trims (front ++ cs ++ back) cs :=
  .within hfront hback (fun c hc => h.not_isSpace c (List.mem_of_mem_head? hc))
    fun c hc => h.not_isSpace c (List.mem_of_mem_getLast? hc)

end Loyalty.Text
