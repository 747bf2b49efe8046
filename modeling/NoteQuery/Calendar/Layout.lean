import NoteQuery.Calendar.Names
import NoteQuery.Number.Decimal
import NoteQuery.Text.Blank

/-!
# Layouts of dates

A layout lists the parts of a written date. A number may have blanks before it; a blank in a layout
stands for any number of blanks.
-/

namespace NoteQuery.Calendar

set_option autoImplicit false

inductive Part where
  | year
  | month
  | monthName
  | day
  | hour
  | minute
  | second
  | fraction
  | blank
  | literal (c : Char)
  deriving DecidableEq

abbrev Layout := List Part

structure Reading where
  year : Int
  month : Nat
  day : Nat
  hour : Nat
  minute : Nat
  second : Nat

def Reading.start : Reading := ⟨0, 1, 1, 0, 0, 0⟩

/-- The number of the digits at the start of a text, at least `least` and at most `most` of them. -/
def digits? (least : Nat) (most : Option Nat) (cs : List Char) : Option (Nat × List Char) :=
  let run := cs.takeWhile Decimal.isDigit
  let ds := match most with
    | some n => run.take n
    | none => run
  if ds.length < least then none else some (Decimal.ofDigits ds, cs.drop ds.length)

def within? (least greatest : Nat) (cs : List Char) : Option (Nat × List Char) :=
  (digits? 1 (some 2) (Text.trimStart cs)).filter fun (n, _) => least ≤ n && n ≤ greatest

/-- A year: up to four digits, or a sign and any number of digits. -/
def year? (cs : List Char) : Option (Int × List Char) :=
  match Text.trimStart cs with
  | '-' :: r => (digits? 1 none r).map fun (n, rest) => (-(n : Int), rest)
  | '+' :: r => (digits? 1 none r).map fun (n, rest) => ((n : Int), rest)
  | r => (digits? 1 (some 4) r).map fun (n, rest) => ((n : Int), rest)

def lowerAscii (c : Char) : Char := if 'A' ≤ c ∧ c ≤ 'Z' then Char.ofNat (c.toNat + 32) else c

/-- What follows a name at the start of a text, in letters of either case. -/
def afterName? (name : String) (cs : List Char) : Option (List Char) :=
  let n := name.toList.length
  if (cs.take n).map lowerAscii = name.toList.map lowerAscii then some (cs.drop n) else none

/-- The place in a list, from zero, of the name whose first three letters a text starts with. -/
def shortName? (names : List String) (cs : List Char) : Option (Nat × List Char) :=
  names.zipIdx.findSome? fun (name, i) =>
    (afterName? (String.ofList (name.toList.take 3)) cs).map fun rest => (i, rest)

def monthName? (cs : List Char) : Option (Nat × List Char) :=
  match shortName? monthNames cs with
  | none => none
  | some (i, rest) => some (i + 1, (afterName? (monthNames.getD i "") cs).getD rest)

/-- A fraction of a second, which may be missing but not empty. -/
def fraction? : List Char → Option (List Char)
  | '.' :: r => (digits? 1 none r).map (·.2)
  | cs => some cs

def readPart (r : Reading) (cs : List Char) : Part → Option (Reading × List Char)
  | .year => (year? cs).map fun (y, rest) => (⟨y, r.month, r.day, r.hour, r.minute, r.second⟩, rest)
  | .month => (within? 1 12 cs).map fun (m, rest) =>
    (⟨r.year, m, r.day, r.hour, r.minute, r.second⟩, rest)
  | .monthName => (monthName? cs).map fun (m, rest) =>
    (⟨r.year, m, r.day, r.hour, r.minute, r.second⟩, rest)
  | .day => (within? 1 31 cs).map fun (d, rest) =>
    (⟨r.year, r.month, d, r.hour, r.minute, r.second⟩, rest)
  | .hour => (within? 0 23 cs).map fun (h, rest) =>
    (⟨r.year, r.month, r.day, h, r.minute, r.second⟩, rest)
  | .minute => (within? 0 59 cs).map fun (m, rest) =>
    (⟨r.year, r.month, r.day, r.hour, m, r.second⟩, rest)
  | .second => (within? 0 60 cs).map fun (s, rest) =>
    (⟨r.year, r.month, r.day, r.hour, r.minute, s⟩, rest)
  | .fraction => (fraction? cs).map fun rest => (r, rest)
  | .blank => some (r, Text.trimStart cs)
  | .literal c => (Text.after? [c] cs).map fun rest => (r, rest)

def readParts (r : Reading) (cs : List Char) : Layout → Option (Reading × List Char)
  | [] => some (r, cs)
  | p :: ps => (readPart r cs p).bind fun (r, rest) => readParts r rest ps

def Layout.read? (layout : Layout) (cs : List Char) : Option Date :=
  match readParts Reading.start cs layout with
  | some (r, []) => Date.of? r.year r.month r.day
  | _ => none

def isoDay (mark : Char) : Layout := [.year, .literal mark, .month, .literal mark, .day]

def longDay : Layout := [.monthName, .blank, .day, .literal ',', .blank, .year]

def clock : Layout := [.hour, .literal ':', .minute]

def clockWithSeconds : Layout := clock ++ [.literal ':', .second, .fraction]

def layouts : List Layout := [
  isoDay '-',
  isoDay '/',
  longDay,
  isoDay '-' ++ .literal 'T' :: clockWithSeconds,
  isoDay '-' ++ .literal 'T' :: clock,
  isoDay '-' ++ .blank :: clockWithSeconds,
  isoDay '-' ++ .blank :: clock]

end NoteQuery.Calendar
