/-!
# The calendar

Days of the Gregorian calendar, extended to all years, and the day before and after. A `Date`
always exists: its month and its day are those of a calendar, and its year lies in the range that
times may have. So a day at either end of the range has a neighbour on one side only.
-/

namespace Loyalty.Time

/-- The first year of the range. -/
def firstYear : Int := -262143

/-- The last year of the range. -/
def lastYear : Int := 262142

/-- A leap year. -/
def isLeapYear (year : Int) : Bool :=
  year % 4 == 0 && (year % 100 != 0 || year % 400 == 0)

/-- The number of days in a month. -/
def daysInMonth (year : Int) (month : Nat) : Nat :=
  if month = 2 then (if isLeapYear year then 29 else 28)
  else if month = 4 ∨ month = 6 ∨ month = 9 ∨ month = 11 then 30
  else 31

/-- A day of the calendar. -/
structure Date where
  /-- the year; the year 0 comes before the year 1 -/
  year : Int
  /-- the month, from 1 -/
  month : Nat
  /-- the day of the month, from 1 -/
  day : Nat
  /-- the year lies in the range -/
  year_mem : firstYear ≤ year ∧ year ≤ lastYear
  /-- there are twelve months -/
  month_mem : 1 ≤ month ∧ month ≤ 12
  /-- the month has this day -/
  day_mem : 1 ≤ day ∧ day ≤ daysInMonth year month
  deriving DecidableEq

namespace Date

/-- The day with the given numbers, `none` when there is no such day. -/
def mk? (year : Int) (month day : Nat) : Option Date :=
  if hy : firstYear ≤ year ∧ year ≤ lastYear then
    if hm : 1 ≤ month ∧ month ≤ 12 then
      if hd : 1 ≤ day ∧ day ≤ daysInMonth year month then some ⟨year, month, day, hy, hm, hd⟩
      else none
    else none
  else none

theorem mk?_self (d : Date) : mk? d.year d.month d.day = some d := by
  simp [mk?, d.year_mem, d.month_mem, d.day_mem]

/-- The next day. -/
def next? (d : Date) : Option Date :=
  if d.day < daysInMonth d.year d.month then mk? d.year d.month (d.day + 1)
  else if d.month < 12 then mk? d.year (d.month + 1) 1
  else mk? (d.year + 1) 1 1

/-- The day before. -/
def previous? (d : Date) : Option Date :=
  if 1 < d.day then mk? d.year d.month (d.day - 1)
  else if 1 < d.month then mk? d.year (d.month - 1) (daysInMonth d.year (d.month - 1))
  else mk? (d.year - 1) 12 31

end Date

end Loyalty.Time
