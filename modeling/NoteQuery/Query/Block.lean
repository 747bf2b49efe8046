import NoteQuery.Query.Clause
import NoteQuery.Text.Segment

/-!
# Query blocks

A query block of a note goes from a line that opens the fence to the next line that is the fence
mark alone. A block that is not closed is plain text.
-/

namespace NoteQuery.Block

set_option autoImplicit false

/-- A line without the carriage returns and line feeds at its end. -/
def content (line : List Char) : List Char := Text.dropEndWhile (fun c => c == '\r' || c == '\n') line

def lineEnd (line : List Char) : List Char := line.drop (content line).length

def opens (fence line : List Char) : Bool :=
  match Text.after? Query.fenceMark (Text.trim line) with
  | some info => Text.trim info == fence
  | none => false

def closes (line : List Char) : Bool := Text.trim line == Query.fenceMark

/-- The segments of lines; `opened` is the text of a block since the line that opened it. -/
def segmentsAfter (fence : List Char) (opened : Option (List Char)) :
    List (List Char) → List (Segment (List Char))
  | [] =>
    match opened with
    | none => []
    | some text => [.plain text]
  | line :: lines =>
    match opened with
    | none =>
      if opens fence (content line) then segmentsAfter fence (some line) lines
      else .plain line :: segmentsAfter fence none lines
    | some text =>
      if closes (content line) then
        .marked (text ++ content line) :: .plain (lineEnd line) :: segmentsAfter fence none lines
      else segmentsAfter fence (some (text ++ line)) lines

def segments (fence note : List Char) : List (Segment (List Char)) :=
  segmentsAfter fence none (Text.pieces note)

def query (fence : List Char) (block : List Char) : Except QueryError Query :=
  if opens fence ((Text.lines (Text.trimStart block)).headD []) then Query.ofChars block
  else .error (.notABlock (String.ofList fence))

/-- The segments of a note with the queries of its blocks; the first faulty block decides. -/
def queries (fence note : List Char) : Except QueryError (List (Segment Query)) :=
  Segment.mapMarks (query fence) (segments fence note)

end NoteQuery.Block
