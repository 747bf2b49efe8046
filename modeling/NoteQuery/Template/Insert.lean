import NoteQuery.Text.Lines

/-!
# Inserting text at a line

Lines are counted from one. A text goes in front of a line, or behind the last one.
-/

namespace NoteQuery

set_option autoImplicit false

inductive LineError where
  | zero
  | pastEnd (line : Nat)
  deriving DecidableEq

def LineError.message : LineError → String
  | zero => "line numbers start at 1"
  | pastEnd line => "line " ++ toString line ++ " is past the end of the file"

namespace Text

/-- The offsets behind the line feeds of a text that starts at an offset, in bytes. -/
def lineStarts (offset : Nat) : List Char → List Nat
  | [] => []
  | c :: cs =>
    if c = '\n' then (offset + c.utf8Size) :: lineStarts (offset + c.utf8Size) cs
    else lineStarts (offset + c.utf8Size) cs

/-- The offset at which a line starts. Behind the last line there is one more
place, the end of the text. -/
def lineOffset? (cs : List Char) : Nat → Option Nat
  | 0 => none
  | 1 => some 0
  | n + 2 =>
    let count := (lines cs).length
    if n + 1 = count then some (bytes8 cs) else ((lineStarts 0 cs).take count)[n]?

def cutBefore? (line : Nat) (cs : List Char) : Option (List Char × List Char) :=
  (lineOffset? cs line).map fun offset => (takeBytes offset cs, dropBytes offset cs)

/-- A text that ends its last line, if it has one. -/
def endLine (cs : List Char) : List Char :=
  match cs.getLast? with
  | none => []
  | some c => if c = '\n' then cs else cs ++ ['\n']

def insertAt (cs text : List Char) : Option Nat → Except LineError (List Char)
  | none => .ok (endLine cs ++ text)
  | some 0 => .error .zero
  | some line =>
    match cutBefore? line cs with
    | none => .error (.pastEnd line)
    | some (before, behind) => .ok (endLine before ++ text ++ behind)

end Text

end NoteQuery
