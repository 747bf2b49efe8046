/-!
# Texts with marked parts

A text in order, where some parts stand for something else.
-/

namespace NoteQuery

set_option autoImplicit false

inductive Segment (α : Type) where
  | plain (cs : List Char)
  | marked (a : α)

namespace Segment

variable {α β : Type}

/-- The text in which every marked part is written out. -/
def write (f : α → List Char) : List (Segment α) → List Char
  | [] => []
  | plain cs :: rest => cs ++ write f rest
  | marked a :: rest => f a ++ write f rest

def marks : List (Segment α) → List α
  | [] => []
  | plain _ :: rest => marks rest
  | marked a :: rest => a :: marks rest

def mapMarks {ε : Type} (f : α → Except ε β) : List (Segment α) → Except ε (List (Segment β))
  | [] => .ok []
  | plain cs :: rest => (mapMarks f rest).map (plain cs :: ·)
  | marked a :: rest =>
    match f a with
    | .error e => .error e
    | .ok b => (mapMarks f rest).map (marked b :: ·)

/-- Where the marked parts start and end, measured on the written text from an offset. -/
def spans (size : List Char → Nat) (f : α → List Char) (offset : Nat) :
    List (Segment α) → List (Nat × Nat × α)
  | [] => []
  | plain cs :: rest => spans size f (offset + size cs) rest
  | marked a :: rest => (offset, offset + size (f a), a) :: spans size f (offset + size (f a)) rest

end Segment

end NoteQuery
