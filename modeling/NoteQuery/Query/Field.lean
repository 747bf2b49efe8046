import NoteQuery.Calendar.Timestamp
import NoteQuery.Value.Text

/-!
# Fields of a query

A field names a key of the metadata and says which part of its value a cell shows.
-/

namespace NoteQuery

set_option autoImplicit false

inductive Selector where
  | whole
  | element (position : Nat)
  /-- Brackets without a position; such a cell stays empty. -/
  | unresolvable
  deriving DecidableEq

structure Field where
  /-- The field as it is written, which heads its column. -/
  source : String
  key : String
  selector : Selector
  deriving DecidableEq

namespace Field

/-- The element that stands between brackets: digits of a number below 2^64. -/
def selectorOf (index : List Char) : Selector :=
  if index.isEmpty || !index.all Decimal.isDigit then .unresolvable
  else if Decimal.ofDigits index < Nat.pow 2 64 then .element (Decimal.ofDigits index)
  else .unresolvable

def ofChars (cs : List Char) : Field :=
  let source := Text.trim cs
  match Text.cutAt? '[' source with
  | none => ⟨String.ofList source, String.ofList source, .whole⟩
  | some (key, rest) =>
    ⟨String.ofList source, String.ofList (Text.trim key),
      selectorOf (Text.trim (rest.takeWhile (· != ']')))⟩

def ofText (s : String) : Field := ofChars s.toList

/-- The text of a cell: nothing for an absent value, a date in words for a text that is a date. -/
def cell : Value → String
  | .absent => ""
  | .text s => ((Date.ofText? s).map Date.longText).getD s
  | v => v.toText

def value? (f : Field) (r : Record) : Option Value :=
  match f.selector with
  | .whole => r.get? f.key
  | .element i => (r.get? f.key).bind (·.element? i)
  | .unresolvable => none

def resolve (r : Record) (f : Field) : String := ((f.value? r).map cell).getD ""

end Field

end NoteQuery
