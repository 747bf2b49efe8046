import NoteQuery.Text.Blank
import NoteQuery.Value.Json

/-!
# The text and the number of a value

Every value has a text, and every value has a number, which is NaN where it has no numeric reading.
-/

namespace NoteQuery

set_option autoImplicit false

/-- Numbers in notes: plain form for leading exponents from -6 to 20, no fraction on whole numbers,
signed exponents, ties upward. -/
def numberStyle : Decimal.Style := ⟨-6, 20, false, true, .up⟩

namespace Binary64

def chars : Binary64 → List Char
  | nan => "NaN".toList
  | infinity s => (if s then "-Infinity" else "Infinity").toList
  | finite s m =>
    if m.place = 0 then ['0']
    else
      let body := (m.shortest numberStyle.tie).text numberStyle
      if s then '-' :: body else body

def toText (n : Binary64) : String := String.ofList n.chars

def isAsciiLetter (c : Char) : Bool := ('a' ≤ c && c ≤ 'z') || ('A' ≤ c && c ≤ 'Z')

/-- The number that a text stands for: blank text is zero, infinities are spelled out, and no other
letters than those of an exponent are read. -/
def ofChars (cs : List Char) : Binary64 :=
  let t := Text.trim cs
  if t.isEmpty then zero
  else if t = "Infinity".toList ∨ t = "+Infinity".toList then infinity false
  else if t = "-Infinity".toList then infinity true
  else if t.any fun c => isAsciiLetter c && c != 'e' && c != 'E' then nan
  else (read? t).getD nan

end Binary64

namespace Value

mutual

/-- The text of a value: the items of a sequence between commas, a record as JSON. -/
def chars : Value → List Char
  | text s => s.toList
  | number n => n.chars
  | bool b => (if b then "true" else "false").toList
  | sequence items => List.intercalate [','] (itemChars items)
  | record fields => Json.compact (record fields)
  | absent => "undefined".toList

/-- The texts of items; an absent item leaves its place empty. -/
def itemChars : List Value → List (List Char)
  | [] => []
  | absent :: vs => [] :: itemChars vs
  | v :: vs => chars v :: itemChars vs

end

def toText (v : Value) : String := String.ofList v.chars

def ofBool (b : Bool) : Binary64 := Binary64.ofNat b.toNat

def toNumber : Value → Binary64
  | number n => n
  | bool b => ofBool b
  | absent => .nan
  | v => Binary64.ofChars v.chars

end Value

end NoteQuery
