import NoteQuery.Value.Basic
import NoteQuery.Yaml.Datum

/-!
# Metadata from YAML

The value of a datum. Keys become texts; keys that are collections or have a tag are left out.
-/

namespace NoteQuery.Yaml.Datum

set_option autoImplicit false

/-- Float keys: plain form for leading exponents from -5 to 15, a fraction on whole numbers,
bare exponents, ties to even. -/
def keyStyle : Decimal.Style := ⟨-5, 15, true, false, .toEven⟩

def floatKey : Binary64 → List Char
  | .nan => ".nan".toList
  | .infinity s => (if s then "-.inf" else ".inf").toList
  | .finite s m =>
    let body := if m.place = 0 then ['0', '.', '0'] else (m.shortest keyStyle.tie).text keyStyle
    if s then '-' :: body else body

def key? : Datum → Option (List Char)
  | null => some "null".toList
  | bool b => some (if b then "true" else "false").toList
  | int n => some (toString n).toList
  | float x => some (floatKey x)
  | text cs => some cs
  | _ => none

mutual

def toValue : Datum → Value
  | null => .absent
  | bool b => .bool b
  | int n => .number (Binary64.ofInt n)
  | float x => .number x
  | text cs => .text (String.ofList cs)
  | sequence items => .sequence (toValues items)
  | mapping entries => .record (Record.ofList (toFields entries))
  | tagged _ d => toValue d

def toValues : List Datum → List Value
  | [] => []
  | d :: ds => toValue d :: toValues ds

def toFields : List (Datum × Datum) → List (String × Value)
  | [] => []
  | (k, v) :: es =>
    match key? k with
    | some key => (String.ofList key, toValue v) :: toFields es
    | none => toFields es

end

/-- The kind of a datum, with its article. -/
def kind : Datum → String
  | null => "null"
  | bool _ => "a boolean"
  | int _ => "a number"
  | float _ => "a number"
  | text _ => "a string"
  | sequence _ => "a sequence"
  | mapping _ => "a mapping"
  | tagged _ _ => "a tagged value"

end NoteQuery.Yaml.Datum
