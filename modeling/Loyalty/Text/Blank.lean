/-!
# Blank text

White space, and what is left of a text when the white space at its two ends is dropped. White
space is the Unicode property `White_Space`, which is wider than the ASCII blanks (it has the
no-break space and the ideographic space) and does not hold the zero-width characters.

A field is *blank* when nothing but white space stands in it. Rules that require a field ask for
one that is not blank.
-/

namespace Loyalty.Text

/-- The characters with the Unicode property `White_Space`. -/
def isSpace (c : Char) : Bool :=
  let n := c.toNat
  (0x9 ≤ n && n ≤ 0xD) || n == 0x20 || n == 0x85 || n == 0xA0 || n == 0x1680 ||
    (0x2000 ≤ n && n ≤ 0x200A) || n == 0x2028 || n == 0x2029 || n == 0x202F || n == 0x205F ||
    n == 0x3000

/-- Drops the white space at the front. -/
def dropSpace (cs : List Char) : List Char :=
  cs.dropWhile isSpace

/-- Drops the white space at both ends of a list of characters. -/
def trimChars (cs : List Char) : List Char :=
  (dropSpace (dropSpace cs).reverse).reverse

/-- Drops the white space at both ends. -/
def trim (s : String) : String :=
  String.ofList (trimChars s.toList)

/-- Nothing but white space stands in the text. -/
def isBlank (s : String) : Bool :=
  s.toList.all isSpace

/-! ## Blankness and trimming -/

theorem dropSpace_eq_nil_iff (cs : List Char) :
    dropSpace cs = [] ↔ ∀ c ∈ cs, isSpace c = true := by
  induction cs with
  | nil => simp [dropSpace]
  | cons c cs ih =>
    by_cases hc : isSpace c = true
    · rw [dropSpace, List.dropWhile_cons_of_pos hc, ← dropSpace, ih]
      exact ⟨fun h x hx => (List.mem_cons.1 hx).elim (fun e => e ▸ hc) (h x),
        fun h x hx => h x (List.mem_cons_of_mem c hx)⟩
    · rw [dropSpace, List.dropWhile_cons_of_neg hc]
      exact ⟨fun h => absurd h (by simp), fun h => absurd (h c List.mem_cons_self) hc⟩

/-- White space at the front does not count. -/
theorem dropSpace_all_iff (cs : List Char) :
    (∀ c ∈ dropSpace cs, isSpace c = true) ↔ ∀ c ∈ cs, isSpace c = true := by
  induction cs with
  | nil => simp [dropSpace]
  | cons c cs ih =>
    by_cases hc : isSpace c = true
    · simpa [dropSpace, hc] using ih
    · simp [dropSpace, hc]

/-- White space at the two ends does not count. -/
theorem trimChars_all_iff (cs : List Char) :
    (∀ c ∈ trimChars cs, isSpace c = true) ↔ ∀ c ∈ cs, isSpace c = true := by
  have hback := dropSpace_all_iff (dropSpace cs).reverse
  have hfront := dropSpace_all_iff cs
  simp only [List.mem_reverse] at hback
  simpa only [trimChars, List.mem_reverse] using hback.trans hfront

theorem trimChars_eq_nil_iff (cs : List Char) :
    trimChars cs = [] ↔ ∀ c ∈ cs, isSpace c = true := by
  rw [trimChars, List.reverse_eq_nil_iff, dropSpace_eq_nil_iff]
  simpa using dropSpace_all_iff cs

/-- A text is blank exactly when trimming leaves nothing of it. -/
theorem isBlank_iff_trim_eq_empty (s : String) : isBlank s = true ↔ trim s = "" := by
  rw [isBlank, List.all_eq_true, ← trimChars_eq_nil_iff, trim, String.ofList_eq_empty_iff]

/-- One character that is not white space is enough. -/
theorem isBlank_ofList_of_mem {cs : List Char} {c : Char} (h : c ∈ cs) (hc : isSpace c = false) :
    isBlank (String.ofList cs) = false := by
  rw [isBlank, String.toList_ofList, List.all_eq_false]
  exact ⟨c, h, by simp [hc]⟩

/-- A text is as blank as what is left of it. -/
theorem isBlank_trim (s : String) : isBlank (trim s) = isBlank s := by
  rw [Bool.eq_iff_iff, isBlank, isBlank, List.all_eq_true, List.all_eq_true, trim,
    String.toList_ofList, trimChars_all_iff]

end Loyalty.Text
