/-!
# Blank characters

The white space of Unicode, and texts without it at their ends.
-/

namespace NoteQuery.Text

set_option autoImplicit false

/-- Ranges of the characters with the property White_Space. -/
def blankRanges : List (Nat × Nat) := [
  (0x9, 0xd), (0x20, 0x20), (0x85, 0x85), (0xa0, 0xa0), (0x1680, 0x1680),
  (0x2000, 0x200a), (0x2028, 0x2029),
  (0x202f, 0x202f), (0x205f, 0x205f), (0x3000, 0x3000)]

def isBlank (c : Char) : Bool := blankRanges.any fun (first, last) => first ≤ c.toNat && c.toNat ≤ last

def dropEndWhile (p : Char → Bool) (cs : List Char) : List Char := (cs.reverse.dropWhile p).reverse

def trimStart (cs : List Char) : List Char := cs.dropWhile isBlank

def trimEnd (cs : List Char) : List Char := dropEndWhile isBlank cs

def trim (cs : List Char) : List Char := trimEnd (trimStart cs)

/-- What follows a given start of a text, if the text has that start. -/
def after? : List Char → List Char → Option (List Char)
  | [], cs => some cs
  | _ :: _, [] => none
  | p :: ps, c :: cs => if p = c then after? ps cs else none

theorem after?_eq_some_iff {ps cs rest : List Char} : after? ps cs = some rest ↔ cs = ps ++ rest := by
  induction ps generalizing cs with
  | nil => simp [after?]
  | cons p ps ih =>
    cases cs with
    | nil => simp [after?]
    | cons c cs => by_cases h : p = c <;> simp [after?, h, ih, eq_comm]

/-- The parts between separating elements. -/
def splitOn {α : Type} (p : α → Bool) : List α → List (List α)
  | [] => [[]]
  | c :: cs =>
    if p c then [] :: splitOn p cs
    else match splitOn p cs with
      | [] => [[c]]
      | part :: parts => (c :: part) :: parts

/-- A text in two at its first occurrence of a character, which belongs to neither part. -/
def cutAt? (c : Char) (cs : List Char) : Option (List Char × List Char) :=
  match cs.dropWhile (· != c) with
  | [] => none
  | _ :: rest => some (cs.takeWhile (· != c), rest)

def units16 : List Char → Nat
  | [] => 0
  | c :: cs => (if c.toNat < 0x10000 then 1 else 2) + units16 cs

def bytes8 : List Char → Nat
  | [] => 0
  | c :: cs => c.utf8Size + bytes8 cs

/-- The characters of which each ends within the first bytes. -/
def takeBytes (n : Nat) : List Char → List Char
  | [] => []
  | c :: cs => if c.utf8Size ≤ n then c :: takeBytes (n - c.utf8Size) cs else []

def dropBytes (n : Nat) : List Char → List Char
  | [] => []
  | c :: cs => if c.utf8Size ≤ n then dropBytes (n - c.utf8Size) cs else c :: cs

end NoteQuery.Text
