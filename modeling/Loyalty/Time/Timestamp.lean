import Loyalty.Time.Calendar

/-!
# Points in time

A `Timestamp` is a point in universal time, given by its day and the time of that day to the
nanosecond. A leap second is a second whose nanoseconds run on past a full second. The representation
is the calendar itself, and the order of time is the lexicographic order of the parts.

Clocks show a leap second after the 59th second of a minute, as a second number 60. Nothing keeps the
nanoseconds of another second from running on as well, but such a time is not shown as what it is: the
full second among the nanoseconds is *carried* over, and what is shown is the second that follows. A
timestamp is `Regular` when nothing is to be carried.
-/

namespace Loyalty.Time

/-- The number of nanoseconds in a second. -/
def nanosPerSecond : Nat := 1000000000

/-- A point in universal time. -/
structure Timestamp where
  /-- the day -/
  date : Date
  /-- the hour -/
  hour : Nat
  /-- the minute -/
  minute : Nat
  /-- the second; a leap second belongs to the one before it -/
  second : Nat
  /-- the nanosecond, a full second or more within a leap second -/
  nano : Nat
  /-- a day has 24 hours -/
  hour_lt : hour < 24
  /-- an hour has 60 minutes -/
  minute_lt : minute < 60
  /-- a minute has 60 seconds besides leap seconds -/
  second_lt : second < 60
  /-- a second and at most a leap second -/
  nano_lt : nano < 2 * nanosPerSecond
  deriving DecidableEq

namespace Timestamp

/-- The parts of a timestamp down to the second, most significant first. -/
def toSeconds (t : Timestamp) : List Int :=
  [t.date.year, t.date.month, t.date.day, t.hour, t.minute, t.second]

/-- All parts of a timestamp, most significant first. -/
def key (t : Timestamp) : List Int :=
  t.toSeconds ++ [(t.nano : Int)]

theorem key_injective : Function.Injective key := by
  rintro ⟨⟨year, month, day, _, _, _⟩, hour, minute, second, nano, _, _, _, _⟩
    ⟨⟨year', month', day', _, _, _⟩, hour', minute', second', nano', _, _, _, _⟩ h
  simp only [key, toSeconds, List.cons_append, List.nil_append, List.cons.injEq, Int.natCast_inj,
    and_true] at h
  simpa only [mk.injEq, Date.mk.injEq, and_assoc] using h

/-- The first timestamp is earlier than the second. -/
def isBefore (a b : Timestamp) : Bool :=
  a.key < b.key

/-- The second with which the year 1970 begins. -/
def epoch : List Int := [1970, 1, 1, 0, 0, 0]

/-- The timestamp lies after the first second of 1970. -/
def isAfterEpoch (t : Timestamp) : Bool :=
  epoch < t.toSeconds

/-- The timestamp on a given day, `none` when some part is out of its range. A second number 60
is the leap second after the 59th. -/
def mk? (date : Date) (hour minute second nano : Nat) : Option Timestamp :=
  if hh : hour < 24 then
    if hm : minute < 60 then
      if hn : nano < nanosPerSecond then
        if hs : second < 60 then
          some ⟨date, hour, minute, second, nano, hh, hm, hs, by omega⟩
        else if second = 60 then
          some ⟨date, hour, minute, 59, nano + nanosPerSecond, hh, hm, by decide, by omega⟩
        else none
      else none
    else none
  else none

/-- The second as it is written: 60 within a leap second. -/
def writtenSecond (t : Timestamp) : Nat :=
  if t.nano < nanosPerSecond then t.second else t.second + 1

/-- The nanosecond within the written second. -/
def writtenNano (t : Timestamp) : Nat :=
  t.nano % nanosPerSecond

/-! ## Full seconds among the nanoseconds -/

/-- Only the last second of a minute runs on past a full second. -/
def Regular (t : Timestamp) : Prop :=
  nanosPerSecond ≤ t.nano → t.second = 59

instance (t : Timestamp) : Decidable t.Regular :=
  inferInstanceAs (Decidable (nanosPerSecond ≤ t.nano → t.second = 59))

/-- The timestamp as it is shown: a full second among the nanoseconds goes to the seconds, unless
these are at the last one. -/
def carried (t : Timestamp) : Timestamp :=
  if h : nanosPerSecond ≤ t.nano ∧ t.second < 59 then
    { t with
      second := t.second + 1, nano := t.nano - nanosPerSecond,
      second_lt := by omega, nano_lt := by have := t.nano_lt; omega }
  else t

theorem carried_of_regular {t : Timestamp} (h : t.Regular) : t.carried = t := by
  refine dif_neg fun hboth => ?_
  have hlast := h hboth.1
  omega

theorem regular_carried (t : Timestamp) : t.carried.Regular := by
  have hsecond := t.second_lt
  have hnano := t.nano_lt
  rw [carried]
  split
  · intro h
    simp only at h
    omega
  · intro h
    omega

theorem carried_eq_self_iff {t : Timestamp} : t.carried = t ↔ t.Regular :=
  ⟨fun h => h ▸ t.regular_carried, carried_of_regular⟩

/-- What lies after the first second of 1970 is shown after it. -/
theorem isAfterEpoch_carried {t : Timestamp} (h : t.isAfterEpoch = true) :
    t.carried.isAfterEpoch = true := by
  rw [carried]
  split
  · simp only [isAfterEpoch, decide_eq_true_eq, epoch, toSeconds, List.cons_lt_cons_iff] at h ⊢
    omega
  · exact h

/-- The parts that are written of a timestamp are those of the timestamp as it is shown. -/
theorem mk?_written (t : Timestamp) :
    mk? t.date t.hour t.minute t.writtenSecond t.writtenNano = some t.carried := by
  obtain ⟨date, hour, minute, second, nano, hh, hm, hs, hn⟩ := t
  have hpos : 0 < nanosPerSecond := by decide
  by_cases h : nano < nanosPerSecond
  · simp [mk?, writtenSecond, writtenNano, carried, h, hh, hm, hs, Nat.mod_eq_of_lt h,
      Nat.not_le.2 h]
  · have hfull : nanosPerSecond ≤ nano := Nat.not_lt.1 h
    have hmod : nano % nanosPerSecond = nano - nanosPerSecond := by
      rw [Nat.mod_eq_sub_mod (by omega), Nat.mod_eq_of_lt (by omega)]
    have hlt : nano - nanosPerSecond < nanosPerSecond := by omega
    by_cases hlast : second = 59
    · subst hlast
      have hadd : nano - nanosPerSecond + nanosPerSecond = nano := by omega
      simp [mk?, writtenSecond, writtenNano, carried, h, hh, hm, hmod, hlt, hadd]
    · have hnext : second + 1 < 60 := by omega
      have hbelow : second < 59 := by omega
      simp [mk?, writtenSecond, writtenNano, carried, h, hh, hm, hmod, hlt, hfull, hbelow, hnext]

/-- A time of day is regular. -/
theorem regular_of_mk? {date : Date} {hour minute second nano : Nat} {t : Timestamp}
    (h : mk? date hour minute second nano = some t) : t.Regular := by
  rw [mk?] at h
  split at h
  · split at h
    · split at h
      · next hnano =>
        split at h
        · cases h
          exact fun hfull => absurd hnano (Nat.not_lt.2 hfull)
        · split at h
          · cases h
            exact fun _ => rfl
          · cases h
      · cases h
    · cases h
  · cases h

/-- The point in time that clocks show as `t` where they are `offset` minutes ahead of universal
time (behind it when negative). `none` when the day falls out of the range. -/
def ofLocal? (t : Timestamp) (offset : Int) : Option Timestamp :=
  let minutes : Int := t.hour * 60 + t.minute - offset
  let ofDay := (minutes % 1440).toNat
  let date? :=
    if minutes < 0 then t.date.previous? else if 1440 ≤ minutes then t.date.next? else some t.date
  date?.bind fun date =>
    if hh : ofDay / 60 < 24 then
      some { t with
        date := date, hour := ofDay / 60, minute := ofDay % 60,
        hour_lt := hh, minute_lt := Nat.mod_lt _ (by decide) }
    else none

theorem ofLocal?_zero (t : Timestamp) : t.ofLocal? 0 = some t := by
  obtain ⟨date, hour, minute, second, nano, hh, hm, hs, hn⟩ := t
  have h0 : ¬ ((hour : Int) * 60 + minute - 0 < 0) := by omega
  have h1 : ¬ ((1440 : Int) ≤ hour * 60 + minute - 0) := by omega
  have hday : (((hour : Int) * 60 + minute - 0) % 1440).toNat = hour * 60 + minute := by omega
  have hhour : (hour * 60 + minute) / 60 = hour := by omega
  have hminute : (hour * 60 + minute) % 60 = minute := by omega
  simp only [ofLocal?, h0, h1, hday, hhour, hminute, hh]
  simp

/-- Clocks that are ahead or behind show the same second. -/
theorem regular_of_ofLocal? {t u : Timestamp} {offset : Int} (ht : t.Regular)
    (h : t.ofLocal? offset = some u) : u.Regular := by
  obtain ⟨date, -, h⟩ := Option.bind_eq_some_iff.1 h
  split at h
  · cases h
    exact ht
  · cases h

end Timestamp

end Loyalty.Time
