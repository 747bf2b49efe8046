import NoteQuery.Note.Basic
import NoteQuery.Query.Block
import NoteQuery.Query.Condition
import NoteQuery.Query.Table

/-!
# Running queries

A note gives a row when it has the tag of the query and satisfies the condition: its
link, and a cell for each field.
-/

namespace NoteQuery

set_option autoImplicit false

namespace Query

def selects (q : Query) (n : Note) : Bool :=
  n.hasTag q.tag && (q.condition.map Condition.ofText).all (·.holds n.record)

def row (q : Query) (n : Note) : List String := n.link :: q.fields.map (Field.resolve n.record)

def run (q : Query) (notes : List Note) : Table :=
  ⟨"File" :: q.fields.map Field.source, (notes.filter q.selects).map q.row⟩

end Query

namespace Block

/-- A note with the table of each query in place of its block. -/
def tables (notes : List Note) (page : List (Segment Query)) : List Char :=
  Segment.write (fun q => (q.run notes).markdown.toList) page

def render (fence note : List Char) (notes : List Note) : Except QueryError (List Char) :=
  (queries fence note).map (tables notes)

end Block

end NoteQuery
