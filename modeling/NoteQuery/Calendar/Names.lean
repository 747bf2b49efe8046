import NoteQuery.Calendar.Date

/-!
# Written dates

Names of months and days, and the texts of a date.
-/

namespace NoteQuery

set_option autoImplicit false

namespace Calendar

def monthNames : List String :=
  ["January", "February", "March", "April", "May", "June", "July", "August", "September", "October",
    "November", "December"]

def dayNames : List String :=
  ["Monday", "Tuesday", "Wednesday", "Thursday", "Friday", "Saturday", "Sunday"]

def padded (width n : Nat) : String :=
  let ds := Nat.toDigits 10 n
  String.ofList (List.replicate (width - ds.length) '0' ++ ds)

/-- A year of four digits at least; before year zero and after year 9999 it has a sign. -/
def yearText (year : Int) : String :=
  if year < 0 then "-" ++ padded 4 year.natAbs
  else if 9999 < year then "+" ++ padded 4 year.natAbs
  else padded 4 year.natAbs

end Calendar

namespace Date

open Calendar

def monthName (d : Date) : String := monthNames.getD (d.month - 1) ""

def dayName (d : Date) : String := dayNames.getD d.weekday ""

/-- The date in words: `November 09, 2024`. -/
def longText (d : Date) : String := d.monthName ++ " " ++ padded 2 d.day ++ ", " ++ yearText d.year

/-- The date in numbers: `2024-11-09`. -/
def isoText (d : Date) : String := yearText d.year ++ "-" ++ padded 2 d.month ++ "-" ++ padded 2 d.day

end Date

end NoteQuery
