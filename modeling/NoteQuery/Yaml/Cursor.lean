import NoteQuery.Text.Blank

/-!
# Places in a YAML text

Classes of characters, line breaks, and a cursor that knows its line and column.
-/

namespace NoteQuery.Yaml

set_option autoImplicit false

def isAllowed (c : Char) : Bool :=
  let n := c.toNat
  n == 0x9 || n == 0xa || n == 0xd || (0x20 ≤ n && n ≤ 0x7e) || n == 0x85 || (0xa0 ≤ n && n ≤ 0xd7ff) ||
    (0xe000 ≤ n && n ≤ 0xfffd) || 0x10000 ≤ n

def isBlank (c : Char) : Bool := c == ' ' || c == '\t'

def isBreak (c : Char) : Bool := c == '\n' || c == '\r' || c == '\x85' || c == '\u2028' || c == '\u2029'

def isNameChar (c : Char) : Bool :=
  ('a' ≤ c && c ≤ 'z') || ('A' ≤ c && c ≤ 'Z') || ('0' ≤ c && c ≤ '9') || c == '_' || c == '-'

/-- What a line break means in a scalar: all but the two separators are line feeds. -/
def breakValue (c : Char) : Char := if c == '\u2028' || c == '\u2029' then c else '\n'

/-- A place in a text; `index` counts the bytes before it, `column` the
characters before it on its line. -/
structure Cursor where
  rest : List Char
  index : Nat
  line : Nat
  column : Nat

namespace Cursor

def start (cs : List Char) : Cursor := ⟨cs, 0, 0, 0⟩

def skip (c : Cursor) (count : Nat) : Cursor :=
  ⟨c.rest.drop count, c.index + Text.bytes8 (c.rest.take count), c.line, c.column + count⟩

def next (c : Cursor) : Cursor := c.skip 1

def nextLine (c : Cursor) : Cursor :=
  match c.rest with
  | '\r' :: '\n' :: r => ⟨r, c.index + 2, c.line + 1, 0⟩
  | ch :: r => ⟨r, c.index + ch.utf8Size, c.line + 1, 0⟩
  | [] => c

def peek? (c : Cursor) : Option Char := c.rest.head?

def peekAt? (c : Cursor) (n : Nat) : Option Char := c.rest[n]?

def has (c : Cursor) (n : Nat) (p : Char → Bool) : Bool := (c.peekAt? n).any p

def looksAt (c : Cursor) (ch : Char) : Bool := c.peek? == some ch

/-- Whether a blank, a line break or the end stands at a distance. -/
def endsAt (c : Cursor) (n : Nat) : Bool := (c.peekAt? n).all fun ch => isBlank ch || isBreak ch

def atLineEnd (c : Cursor) : Bool := c.peek?.all isBreak

def atEnd (c : Cursor) : Bool := c.rest.isEmpty

def skipWhile (c : Cursor) (p : Char → Bool) : Cursor := c.skip (c.rest.takeWhile p).length

/-- Whether a line starts here with three equal characters that mark a document. -/
def atMark (c : Cursor) (ch : Char) : Bool :=
  c.column == 0 && c.rest.take 3 == [ch, ch, ch] && c.endsAt 3

def atDocumentMark (c : Cursor) : Bool := c.atMark '-' || c.atMark '.'

end Cursor

end NoteQuery.Yaml
