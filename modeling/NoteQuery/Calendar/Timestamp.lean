import NoteQuery.Calendar.Layout

/-!
# Timestamps

Two fixed forms of a date with a time and a zone: the form of internet timestamps,
`2024-11-09T23:30:00-05:00`, and the form of message headers, `Sat, 09 Nov 2024 10:00:00 +0000`. The
day is the one that is written.
-/

namespace NoteQuery.Calendar

set_option autoImplicit false

/-- A zone as minutes east of the zero meridian. -/
abbrev Zone := Int

def zoneOf? (negative : Bool) (hours minutes : Nat) : Option Zone :=
  if minutes ≤ 59 ∧ hours ≤ 23 then
    let east : Int := 60 * hours + minutes
    some (if negative then -east else east)
  else none

def fixed? (count : Nat) (cs : List Char) : Option (Nat × List Char) := digits? count (some count) cs

/-- The sign of a zone; the second minus is the mathematical one. -/
def zoneSign? (alsoMinusSign : Bool) : List Char → Option (Bool × List Char)
  | '+' :: r => some (false, r)
  | '-' :: r => some (true, r)
  | '−' :: r => if alsoMinusSign then some (true, r) else none
  | _ => none

/-- The date of a moment, if its time exists and the moment is within the
supported years in every zone. -/
def dateOf? (r : Reading) (zone : Zone) : Option Date :=
  if 23 < r.hour ∨ 59 < r.minute ∨ 60 < r.second then none
  else
    (Date.of? r.year r.month r.day).filter fun d =>
      let minuteOfDay := (60 * r.hour + r.minute : Int) - zone
      (0 ≤ minuteOfDay || d.previous?.isSome) && (minuteOfDay < 1440 || d.next?.isSome)

/-- A zone such as `Z`, `+01:00` or `-05:30`, and nothing after it. -/
def internetZone? : List Char → Option Zone
  | ['Z'] => some 0
  | ['z'] => some 0
  | cs => do
    let (negative, r) ← zoneSign? true cs
    let (hours, r) ← fixed? 2 r
    let r ← Text.after? [':'] r
    let (minutes, r) ← fixed? 2 r
    if r.isEmpty then zoneOf? negative hours minutes else none

def internetDate? (cs : List Char) : Option Date := do
  let (year, r) ← fixed? 4 cs
  let r ← Text.after? ['-'] r
  let (month, r) ← fixed? 2 r
  let r ← Text.after? ['-'] r
  let (day, r) ← fixed? 2 r
  let r ← match r with
    | c :: r => if c = 'T' ∨ c = 't' ∨ c = ' ' then some r else none
    | [] => none
  let (hour, r) ← fixed? 2 r
  let r ← Text.after? [':'] r
  let (minute, r) ← fixed? 2 r
  let r ← Text.after? [':'] r
  let (second, r) ← fixed? 2 r
  let r ← fraction? r
  let zone ← internetZone? r
  dateOf? ⟨year, month, day, hour, minute, second⟩ zone

def blanks? (cs : List Char) : Option (List Char) :=
  match cs with
  | [] => none
  | c :: r => if Text.isBlank c then some (Text.trimStart r) else none

/-- A year of a message header: two or three digits count from a century. -/
def headerYear? (cs : List Char) : Option (Nat × List Char) :=
  (digits? 2 none cs).map fun (n, rest) =>
    let count := cs.length - rest.length
    let year := if count = 2 then (if n < 50 then n + 2000 else n + 1900)
      else if count = 3 then n + 1900 else n
    (year, rest)

def namedZones : List (String × Int) :=
  [("GMT", 0), ("UT", 0), ("Z", 0), ("EST", -5), ("EDT", -4), ("CST", -6), ("CDT", -5),
    ("MST", -7), ("MDT", -6), ("PST", -8), ("PDT", -7)]

def isLetter (c : Char) : Bool := ('a' ≤ c && c ≤ 'z') || ('A' ≤ c && c ≤ 'Z')

/-- A zone of a message header: a name, a single letter other than J, or a sign and four digits. -/
def headerZone? (cs : List Char) : Option (Zone × List Char) :=
  let name := (cs.takeWhile isLetter).map lowerAscii
  let rest := cs.drop name.length
  if name.isEmpty then do
    let (negative, r) ← zoneSign? false cs
    let (hours, r) ← fixed? 2 r
    let (minutes, r) ← fixed? 2 r
    let zone ← zoneOf? negative hours minutes
    return (zone, r)
  else
    match namedZones.find? fun (zone, _) => zone.toList.map lowerAscii == name with
    | some (_, hours) => some (60 * hours, rest)
    | none => if name.length = 1 ∧ name ≠ ['j'] then some (0, rest) else none

/-- What follows a comment whose opening parentheses so far are `depth`. A backslash
hides the character after it. -/
def afterComment? : Nat → List Char → Option (List Char)
  | 0, cs => some cs
  | _ + 1, [] => none
  | depth + 1, c :: cs =>
    if c = ')' then afterComment? depth cs
    else if c = '(' then afterComment? (depth + 2) cs
    else if c = '\\' then
      match cs with
      | [] => none
      | _ :: cs => afterComment? (depth + 1) cs
    else afterComment? (depth + 1) cs

def onlyComments : Nat → List Char → Bool
  | _, [] => true
  | 0, _ => false
  | limit + 1, cs =>
    match Text.trimStart cs with
    | '(' :: r =>
      match afterComment? 1 r with
      | some rest => onlyComments limit rest
      | none => false
    | _ => false

def headerDate? (cs : List Char) : Option Date := do
  let (weekday, r) ← match shortName? dayNames (Text.trimStart cs) with
    | some (i, ',' :: r) => some (some i, r)
    | some _ => none
    | none => some (none, cs)
  let (day, r) ← digits? 1 (some 2) (Text.trimStart r)
  let r ← blanks? r
  let (month, r) ← shortName? monthNames r
  let r ← blanks? r
  let (year, r) ← headerYear? r
  let r ← blanks? r
  let (hour, r) ← fixed? 2 r
  let r ← Text.after? [':'] (Text.trimStart r)
  let (minute, r) ← fixed? 2 (Text.trimStart r)
  let (second, r) ← match Text.trimStart r with
    | ':' :: r => fixed? 2 r
    | _ => some (0, r)
  let r ← blanks? r
  let (zone, r) ← headerZone? r
  if onlyComments r.length r then
    (dateOf? ⟨year, month + 1, day, hour, minute, second⟩ zone).filter fun d =>
      weekday.all (· == d.weekday)
  else none

end NoteQuery.Calendar

namespace NoteQuery

def Date.ofChars? (cs : List Char) : Option Date :=
  let t := Text.trim cs
  match Calendar.internetDate? t with
  | some d => some d
  | none =>
    match Calendar.headerDate? t with
    | some d => some d
    | none => Calendar.layouts.findSome? (·.read? t)

def Date.ofText? (s : String) : Option Date := Date.ofChars? s.toList

end NoteQuery
