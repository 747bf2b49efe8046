import NoteQuery.File.RawText
import NoteQuery.Value.Text

/-!
# Notes

A note is known by its name and its metadata.
-/

namespace NoteQuery

set_option autoImplicit false

structure Note where
  name : String
  path : RawText
  record : Record

namespace Note

def link (n : Note) : String := "[[" ++ n.name ++ "]]"

def get? (n : Note) (key : String) : Option Value := n.record.get? key

/-- A stored tag without blanks around it and without one leading hash. -/
def tagName (stored : List Char) : List Char :=
  match Text.trim stored with
  | '#' :: r => r
  | r => r

def tagWords (cs : List Char) : List (List Char) :=
  (Text.splitOn (fun c => c == ',' || Text.isBlank c) cs).filter (· != [])

/-- The stored tags of a metadata value: the items of a sequence, or the words of a text. -/
def tagsOf : Value → List (List Char)
  | .sequence items => (items.filter fun v => !v.isAbsent).map Value.chars
  | .text s => tagWords s.toList
  | _ => []

def tags (r : Record) : List (List Char) := (((r.get? "tags").map tagsOf).getD []).map tagName

def hasTag (n : Note) (tag : String) : Bool := (tags n.record).any (· == tag.toList)

end Note

end NoteQuery
