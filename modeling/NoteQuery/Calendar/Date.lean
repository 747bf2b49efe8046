/-!
# Calendar dates

Days of the Gregorian calendar, extended to all supported years. A date exists by its type.
-/

namespace NoteQuery

set_option autoImplicit false

namespace Calendar

def leastYear : Int := -262143
def greatestYear : Int := 262142

def isLeapYear (year : Int) : Bool := year % 4 == 0 && (year % 100 != 0 || year % 400 == 0)

def daysInMonth (year : Int) (month : Nat) : Nat :=
  if month = 2 then (if isLeapYear year then 29 else 28)
  else if month = 4 ∨ month = 6 ∨ month = 9 ∨ month = 11 then 30
  else 31

theorem daysInMonth_le (year : Int) (month : Nat) : daysInMonth year month ≤ 31 := by
  unfold daysInMonth
  repeat' split
  all_goals decide

theorem one_le_daysInMonth (year : Int) (month : Nat) : 1 ≤ daysInMonth year month := by
  unfold daysInMonth
  repeat' split
  all_goals decide

structure IsDay (year : Int) (month day : Nat) : Prop where
  leastYear_le : leastYear ≤ year
  le_greatestYear : year ≤ greatestYear
  one_le_month : 1 ≤ month
  month_le : month ≤ 12
  one_le_day : 1 ≤ day
  day_le : day ≤ daysInMonth year month

theorem isDay_iff (year : Int) (month day : Nat) :
    IsDay year month day ↔ leastYear ≤ year ∧ year ≤ greatestYear ∧ 1 ≤ month ∧ month ≤ 12 ∧ 1 ≤ day ∧
      day ≤ daysInMonth year month :=
  ⟨fun ⟨a, b, c, d, e, f⟩ => ⟨a, b, c, d, e, f⟩, fun ⟨a, b, c, d, e, f⟩ => ⟨a, b, c, d, e, f⟩⟩

instance (year : Int) (month day : Nat) : Decidable (IsDay year month day) :=
  decidable_of_iff' _ (isDay_iff year month day)

end Calendar

structure Date where
  year : Int
  month : Nat
  day : Nat
  isDay : Calendar.IsDay year month day
  deriving DecidableEq

structure Instant where
  date : Date
  hour : Nat
  minute : Nat
  second : Nat

namespace Date

open Calendar

def of? (year : Int) (month day : Nat) : Option Date :=
  if h : IsDay year month day then some ⟨year, month, day, h⟩ else none

theorem of?_of_isDay {year : Int} {month day : Nat} (h : IsDay year month day) :
    of? year month day = some ⟨year, month, day, h⟩ :=
  dif_pos h

theorem of?_self (d : Date) : of? d.year d.month d.day = some d := of?_of_isDay d.isDay

/-- The next day; the last supported day has none. -/
def next? (d : Date) : Option Date :=
  if d.day < daysInMonth d.year d.month then of? d.year d.month (d.day + 1)
  else if d.month < 12 then of? d.year (d.month + 1) 1
  else of? (d.year + 1) 1 1

/-- The day before; the first supported day has none. -/
def previous? (d : Date) : Option Date :=
  if 1 < d.day then of? d.year d.month (d.day - 1)
  else if 1 < d.month then of? d.year (d.month - 1) (daysInMonth d.year (d.month - 1))
  else of? (d.year - 1) 12 31

/-- The place of the day in its year, from one. -/
def dayOfYear (d : Date) : Nat :=
  (List.range (d.month - 1)).foldl (fun n i => n + daysInMonth d.year (i + 1)) d.day

def dayNumber (d : Date) : Int :=
  let before := d.year - 1
  365 * before + before / 4 - before / 100 + before / 400 + d.dayOfYear

/-- The day of the week, from Monday as zero. -/
def weekday (d : Date) : Nat := ((d.dayNumber - 1) % 7).toNat

/-- The place in the year of the seven days that the date is in, where the first seven
days of the year come first. -/
def week (d : Date) : Nat := (d.dayOfYear + 6) / 7

end Date

end NoteQuery
