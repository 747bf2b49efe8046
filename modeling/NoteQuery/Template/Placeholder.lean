import NoteQuery.Template.Clock
import NoteQuery.Text.Segment

/-!
# Placeholders

A placeholder goes from an opening mark to the next closing mark. Each one is replaced by the text
of its expression, or by the message of its error.
-/

namespace NoteQuery.Placeholder

set_option autoImplicit false

def openMark : List Char := ['<', '%']

def closeMark : List Char := ['%', '>']

/-- The segments of a text; `code` holds, from its end, what follows an opening
mark that is not closed yet. -/
def segmentsAfter : Option (List Char) → List Char → List (Segment (List Char))
  | none, [] => []
  | some code, [] => [.plain (openMark ++ code.reverse)]
  | none, '<' :: '%' :: cs => segmentsAfter (some []) cs
  | none, c :: cs => .plain [c] :: segmentsAfter none cs
  | some code, '%' :: '>' :: cs => .marked code.reverse :: segmentsAfter none cs
  | some code, c :: cs => segmentsAfter (some (c :: code)) cs

def segments (cs : List Char) : List (Segment (List Char)) := segmentsAfter none cs

def enclosed (code : List Char) : List Char := openMark ++ code ++ closeMark

def value (now : Instant) (code : List Char) : List Char :=
  match Expr.evalText now.environment (String.ofList (Text.trim code)) with
  | .ok v => v.chars
  | .error e => "<Error: ".toList ++ e.message.toList ++ ['>']

def expand (now : Instant) (cs : List Char) : List Char := Segment.write (value now) (segments cs)

end NoteQuery.Placeholder
