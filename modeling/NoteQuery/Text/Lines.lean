import NoteQuery.Text.Blank

/-!
# Lines

`pieces` cuts a text after each line feed, so that the pieces make up the text
again; `lines` drops the line ends.
-/

namespace NoteQuery.Text

set_option autoImplicit false

/-- The lines of a text with their line feeds; only the last one may lack it. -/
def pieces : List Char → List (List Char)
  | [] => []
  | c :: cs =>
    if c = '\n' then [c] :: pieces cs
    else match pieces cs with
      | [] => [[c]]
      | p :: ps => (c :: p) :: ps

theorem flatten_pieces (cs : List Char) : (pieces cs).flatten = cs := by
  induction cs with
  | nil => rfl
  | cons c cs ih =>
    simp only [pieces]
    split
    · simp [ih]
    · split <;> simp_all

/-- A line without its line feed or its carriage return and line feed. -/
def dropLineEnd (piece : List Char) : List Char :=
  match piece.reverse with
  | '\n' :: '\r' :: r => r.reverse
  | '\n' :: r => r.reverse
  | _ => piece

def lines (cs : List Char) : List (List Char) := (pieces cs).map dropLineEnd

end NoteQuery.Text
