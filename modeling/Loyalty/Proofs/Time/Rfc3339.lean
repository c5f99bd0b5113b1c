import Loyalty.Proofs.Text.Digits
import Loyalty.Time.Rfc3339

/-!
# Reading back a written timestamp

Each part of a timestamp is written as digits with something behind them that is no digit, so each
reader of a part takes exactly what the writer of that part wrote and leaves the rest. A leap
second is written as second 60 and read as one.

A text shows at most one second more than the 59th, so what a text is read as is always regular. The
time that was written need not be.

Main statement: what was written is read as the timestamp that it shows, to the nanosecond and for
every year of the range.
-/

namespace Loyalty.Time.Rfc3339

open Loyalty.Text

/-- What stands behind a number: nothing, or a character that is no digit. -/
def EndsNumber (rest : List Char) : Prop :=
  ∀ c, rest.head? = some c → c.isDigit = false

theorem endsNumber_cons {c : Char} (h : c.isDigit = false) (rest : List Char) :
    EndsNumber (c :: rest) := by
  rintro d hd
  obtain rfl : c = d := by simpa using hd
  exact h

theorem spanAtMost_append {ds rest : List Char} (hds : ∀ c ∈ ds, c.isDigit = true)
    (hrest : EndsNumber rest) {most : Nat} (hmost : ds.length ≤ most) :
    spanAtMost most (ds ++ rest) = (ds, rest) := by
  induction ds generalizing most with
  | nil =>
    cases most with
    | zero => rfl
    | succ most =>
      cases rest with
      | nil => rfl
      | cons c rest => simp [spanAtMost, hrest c rfl]
  | cons d ds ih =>
    obtain ⟨most, rfl⟩ : ∃ m, most = m + 1 := ⟨most - 1, by simp at hmost; omega⟩
    have hd : d.isDigit = true := hds d List.mem_cons_self
    have hspan : spanAtMost most (ds ++ rest) = (ds, rest) :=
      ih (fun c hc => hds c (List.mem_cons_of_mem d hc)) (by simpa using hmost)
    rw [List.cons_append, spanAtMost, if_pos hd, hspan]

/-- A written number is read as that number. -/
theorem number_padded {width n most : Nat} {rest : List Char} (hrest : EndsNumber rest)
    (hmost : (padded width n).length ≤ most) :
    number most (padded width n ++ rest) = some (n, rest) := by
  have hdigit : ∀ c ∈ padded width n, c.isDigit = true := fun _ => isDigit_of_mem_padded
  rw [number, spanAtMost_append hdigit hrest hmost]
  split
  · next h => exact absurd (Prod.mk.inj h).1 (padded_ne_nil width n)
  · next h =>
    obtain ⟨rfl, rfl⟩ := Prod.mk.inj h
    rw [ofDigitChars_padded]

/-- No white space stands in front of a written number. -/
theorem dropSpace_padded (width n : Nat) (rest : List Char) :
    dropSpace (padded width n ++ rest) = padded width n ++ rest := by
  rcases h : padded width n with _ | ⟨d, ds⟩
  · exact absurd h (padded_ne_nil width n)
  · have hd : d.isDigit = true := isDigit_of_mem_padded (h ▸ List.mem_cons_self)
    rw [List.cons_append, dropSpace, List.dropWhile_cons_of_neg]
    simp [isSpace_of_isDigit hd]

/-- A part of a date or of a time. -/
theorem spacedNumber_padded {n : Nat} (hn : n < 100) {rest : List Char} (hrest : EndsNumber rest) :
    spacedNumber 2 (padded 2 n ++ rest) = some (n, rest) := by
  have hlen : (padded 2 n).length = 2 := length_padded (by decide) hn
  rw [spacedNumber, dropSpace_padded, number_padded hrest (by omega)]

/-- A year in the form with four digits. -/
theorem year_padded {n : Nat} (hn : n < 10000) {rest : List Char} (hrest : EndsNumber rest) :
    year (padded 4 n ++ rest) = some ((n : Int), rest) := by
  have hlen : (padded 4 n).length = 4 := length_padded (by decide) hn
  have hnumber : number 4 (padded 4 n ++ rest) = some (n, rest) := number_padded hrest (by omega)
  have hsign : ∀ c, c.isDigit = false → ∀ cs, padded 4 n ++ rest ≠ c :: cs := by
    intro c hc cs h
    rcases hds : padded 4 n with _ | ⟨d, ds⟩
    · exact padded_ne_nil _ _ hds
    · rw [hds, List.cons_append] at h
      have hd : d.isDigit = true := isDigit_of_mem_padded (hds ▸ List.mem_cons_self)
      rw [(List.cons.inj h).1, hc] at hd
      cases hd
  rw [year, dropSpace_padded]
  split
  · next h => exact absurd h (hsign '-' (by decide) _)
  · next h => exact absurd h (hsign '+' (by decide) _)
  · rw [hnumber, Option.map_some]

theorem year_writeYear (y : Int) {rest : List Char} (hrest : EndsNumber rest) :
    year (writeYear y ++ rest) = some (y, rest) := by
  by_cases hshort : 0 ≤ y ∧ y ≤ 9999
  · rw [writeYear, if_pos hshort, year_padded (by omega) hrest, Int.natAbs_of_nonneg hshort.1]
  · have hnumber : number (padded 4 y.natAbs ++ rest).length (padded 4 y.natAbs ++ rest) =
        some (y.natAbs, rest) :=
      number_padded hrest (by simp)
    rw [writeYear, if_neg hshort]
    by_cases hneg : y < 0
    · have hdrop : dropSpace ('-' :: (padded 4 y.natAbs ++ rest)) =
          '-' :: (padded 4 y.natAbs ++ rest) := rfl
      have habs : -(y.natAbs : Int) = y := by omega
      rw [if_pos hneg, List.cons_append, year, hdrop]
      simp only [hnumber, Option.map_some, habs]
    · have hdrop : dropSpace ('+' :: (padded 4 y.natAbs ++ rest)) =
          '+' :: (padded 4 y.natAbs ++ rest) := rfl
      have habs : (y.natAbs : Int) = y := by omega
      rw [if_neg hneg, List.cons_append, year, hdrop]
      simp only [hnumber, Option.map_some, habs]

/-- A fraction of so many digits. -/
theorem fraction_padded {width n : Nat} (hw : 0 < width) (hmost : width ≤ 9)
    (hn : n < 10 ^ width) {rest : List Char} (hrest : EndsNumber rest) :
    fraction ('.' :: padded width n ++ rest) = some (n * Nat.pow 10 (9 - width), rest) := by
  have hlen : (padded width n).length = width := length_padded hw hn
  have hdigit : ∀ c ∈ padded width n, c.isDigit = true := fun _ => isDigit_of_mem_padded
  have hspan : spanAtMost 9 (padded width n ++ rest) = (padded width n, rest) :=
    spanAtMost_append hdigit hrest (by omega)
  have hdrop : rest.dropWhile Char.isDigit = rest := by
    cases rest with
    | nil => rfl
    | cons c rest => rw [List.dropWhile_cons_of_neg (by simp [hrest c rfl])]
  rw [List.cons_append, fraction, hspan]
  split
  · next h => exact absurd (Prod.mk.inj h).1 (padded_ne_nil width n)
  · next h =>
    obtain ⟨rfl, rfl⟩ := Prod.mk.inj h
    rw [ofDigitChars_padded, hlen, hdrop]

/-- The fraction is given exactly, in as many digits as that takes. -/
theorem fraction_writeFraction {nano : Nat} (hn : nano < nanosPerSecond) :
    fraction (writeFraction nano ++ ['Z']) = some (nano, ['Z']) := by
  have hrest : EndsNumber ['Z'] := endsNumber_cons (by decide) []
  simp only [nanosPerSecond] at hn
  by_cases hzero : nano = 0
  · subst hzero
    rfl
  by_cases hmilli : nano % 1000000 = 0
  · have hvalue : nano / 1000000 * Nat.pow 10 (9 - 3) = nano := by
      show nano / 1000000 * 1000000 = nano
      omega
    rw [writeFraction, if_neg hzero, if_pos hmilli,
      fraction_padded (by decide) (by decide) (by omega) hrest, hvalue]
  by_cases hmicro : nano % 1000 = 0
  · have hvalue : nano / 1000 * Nat.pow 10 (9 - 6) = nano := by
      show nano / 1000 * 1000 = nano
      omega
    rw [writeFraction, if_neg hzero, if_neg hmilli, if_pos hmicro,
      fraction_padded (by decide) (by decide) (by omega) hrest, hvalue]
  · have hvalue : nano * Nat.pow 10 (9 - 9) = nano := by
      show nano * 1 = nano
      omega
    rw [writeFraction, if_neg hzero, if_neg hmilli, if_neg hmicro,
      fraction_padded (by decide) (by decide) (by omega) hrest, hvalue]

theorem spacedSign_cons {c : Char} (hc : isSpace c = false) (rest : List Char) :
    spacedSign c (c :: rest) = some rest := by
  rw [spacedSign, dropSpace, List.dropWhile_cons_of_neg (by simp [hc])]
  simp

theorem daysInMonth_le (year : Int) (month : Nat) : daysInMonth year month ≤ 31 := by
  rw [daysInMonth]
  split
  · split <;> omega
  · split <;> omega

/-- Reading what was written gives the timestamp as it is shown. -/
theorem readChars_writeChars (t : Timestamp) : readChars (writeChars t) = some t.carried := by
  have hmonth : t.date.month < 100 := by have := t.date.month_mem.2; omega
  have hday : t.date.day < 100 := by
    have := t.date.day_mem.2
    have := daysInMonth_le t.date.year t.date.month
    omega
  have hsecond : t.writtenSecond < 100 := by
    have := t.second_lt
    rw [Timestamp.writtenSecond]
    split <;> omega
  have hnano : t.writtenNano < nanosPerSecond := Nat.mod_lt _ (by decide)
  have hends : ∀ {c : Char}, c.isDigit = false → ∀ {rest}, EndsNumber (c :: rest) :=
    fun h _ => endsNumber_cons h _
  have hfraction : EndsNumber (writeFraction t.writtenNano ++ ['Z']) := by
    rw [writeFraction]
    split
    · exact hends (by decide)
    split
    · exact hends (by decide)
    split <;> exact hends (by decide)
  have hzone : zone ['Z'] = some (0, []) := rfl
  have hhour : t.hour < 100 := Nat.lt_trans t.hour_lt (by decide)
  have hminute : t.minute < 100 := Nat.lt_trans t.minute_lt (by decide)
  have hT : ∀ rest, separator ('T' :: rest) = some rest := fun _ => rfl
  have hchars : writeChars t = writeYear t.date.year ++ '-' :: (padded 2 t.date.month ++
      '-' :: (padded 2 t.date.day ++ 'T' :: (padded 2 t.hour ++ ':' :: (padded 2 t.minute ++
        ':' :: (padded 2 t.writtenSecond ++ (writeFraction t.writtenNano ++ ['Z'])))))) := by
    simp [writeChars, writeDate]
  have hminus : isSpace '-' = false := by decide
  have hcolon : isSpace ':' = false := by decide
  -- Each reader takes what its writer wrote, and leaves the rest to the next one.
  rw [hchars, readChars]
  refine Option.bind_eq_some_iff.2 ⟨_, year_writeYear _ (hends (by decide)), ?_⟩
  refine Option.bind_eq_some_iff.2 ⟨_, spacedSign_cons hminus _, ?_⟩
  refine Option.bind_eq_some_iff.2 ⟨_, spacedNumber_padded hmonth (hends (by decide)), ?_⟩
  refine Option.bind_eq_some_iff.2 ⟨_, spacedSign_cons hminus _, ?_⟩
  refine Option.bind_eq_some_iff.2 ⟨_, spacedNumber_padded hday (hends (by decide)), ?_⟩
  refine Option.bind_eq_some_iff.2 ⟨_, hT _, ?_⟩
  refine Option.bind_eq_some_iff.2 ⟨_, spacedNumber_padded hhour (hends (by decide)), ?_⟩
  refine Option.bind_eq_some_iff.2 ⟨_, spacedSign_cons hcolon _, ?_⟩
  refine Option.bind_eq_some_iff.2 ⟨_, spacedNumber_padded hminute (hends (by decide)), ?_⟩
  refine Option.bind_eq_some_iff.2 ⟨_, spacedSign_cons hcolon _, ?_⟩
  refine Option.bind_eq_some_iff.2 ⟨_, spacedNumber_padded hsecond hfraction, ?_⟩
  refine Option.bind_eq_some_iff.2 ⟨_, fraction_writeFraction hnano, ?_⟩
  refine Option.bind_eq_some_iff.2 ⟨_, hzone, ?_⟩
  refine (if_neg (by decide)).trans ?_
  refine Option.bind_eq_some_iff.2 ⟨_, Date.mk?_self _, ?_⟩
  refine Option.bind_eq_some_iff.2 ⟨_, Timestamp.mk?_written _, ?_⟩
  exact Timestamp.ofLocal?_zero t.carried

theorem read?_write (t : Timestamp) : read? (write t) = some t.carried := by
  rw [read?, write, String.toList_ofList, readChars_writeChars]

theorem regular_of_readChars {cs : List Char} {t : Timestamp} (h : readChars cs = some t) :
    t.Regular := by
  obtain ⟨⟨year, cs⟩, -, h⟩ := Option.bind_eq_some_iff.1 h
  obtain ⟨cs, -, h⟩ := Option.bind_eq_some_iff.1 h
  obtain ⟨⟨month, cs⟩, -, h⟩ := Option.bind_eq_some_iff.1 h
  obtain ⟨cs, -, h⟩ := Option.bind_eq_some_iff.1 h
  obtain ⟨⟨day, cs⟩, -, h⟩ := Option.bind_eq_some_iff.1 h
  obtain ⟨cs, -, h⟩ := Option.bind_eq_some_iff.1 h
  obtain ⟨⟨hour, cs⟩, -, h⟩ := Option.bind_eq_some_iff.1 h
  obtain ⟨cs, -, h⟩ := Option.bind_eq_some_iff.1 h
  obtain ⟨⟨minute, cs⟩, -, h⟩ := Option.bind_eq_some_iff.1 h
  obtain ⟨cs, -, h⟩ := Option.bind_eq_some_iff.1 h
  obtain ⟨⟨second, cs⟩, -, h⟩ := Option.bind_eq_some_iff.1 h
  obtain ⟨⟨nano, cs⟩, -, h⟩ := Option.bind_eq_some_iff.1 h
  obtain ⟨⟨minutes, cs⟩, -, h⟩ := Option.bind_eq_some_iff.1 h
  -- Of all that was read only the last two steps matter: the time of the clock, and the zone.
  dsimp only at h
  split at h
  · cases h
  · obtain ⟨date, -, h⟩ := Option.bind_eq_some_iff.1 h
    obtain ⟨clock, hclock, hlocal⟩ := Option.bind_eq_some_iff.1 h
    exact Timestamp.regular_of_ofLocal? (Timestamp.regular_of_mk? hclock) hlocal

/-- No text is read as a time that it could not show. -/
theorem regular_of_read? {s : String} {t : Timestamp} (h : read? s = some t) : t.Regular :=
  regular_of_readChars h

end Loyalty.Time.Rfc3339
