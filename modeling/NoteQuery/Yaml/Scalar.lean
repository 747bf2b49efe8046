import NoteQuery.Yaml.Cursor

/-!
# Scalars of YAML

Plain, quoted and block scalars. Each reader starts at a cursor and returns the text of the
scalar and the cursor behind it. In plain and quoted scalars a line break is folded: one break
is a space, further ones stay.
-/

namespace NoteQuery.Yaml

set_option autoImplicit false

/-- The text of a scalar so far, from its end, and the blanks and breaks after it. -/
structure Fold where
  text : List Char
  /-- Blanks on the line of the text, from the last one. -/
  blanks : List Char
  broken : Bool
  first : List Char
  /-- Breaks after the first one, from the last one. -/
  further : List Char

namespace Fold

def empty : Fold := ⟨[], [], false, [], []⟩

def join (f : Fold) : Fold :=
  let gap :=
    if f.broken then
      if f.first = ['\n'] then (if f.further.isEmpty then [' '] else f.further) else f.further ++ f.first
    else f.blanks
  ⟨gap ++ f.text, [], false, [], []⟩

def push (f : Fold) (c : Char) : Fold := { f.join with text := c :: f.join.text }

/-- A blank counts only before the first break. -/
def blank (f : Fold) (c : Char) : Fold := if f.broken then f else { f with blanks := c :: f.blanks }

def lineBreak (f : Fold) (c : Char) : Fold :=
  if f.broken then { f with further := breakValue c :: f.further }
  else ⟨f.text, [], true, [breakValue c], []⟩

def hiddenBreak (f : Fold) : Fold := { f.join with broken := true }

def isPending (f : Fold) : Bool := f.broken || !f.blanks.isEmpty

def result (f : Fold) : List Char := f.text.reverse

end Fold

def isFlowMark (c : Char) : Bool := c == ',' || c == '[' || c == ']' || c == '{' || c == '}'

/-- Reads a plain scalar inside or outside flow collections, whose further lines are
indented to `indent` at least. -/
def plainScalar (inFlow : Bool) (indent : Int) : Nat → Fold → Cursor → Option (Fold × Cursor)
  | 0, f, c => some (f, c)
  | fuel + 1, f, c =>
    match c.peek? with
    | none => some (f, c)
    | some ch =>
      if isBlank ch then
        if f.broken && ch == '\t' && (c.column : Int) < indent then none
        else plainScalar inFlow indent fuel (f.blank ch) c.next
      else if isBreak ch then plainScalar inFlow indent fuel (f.lineBreak ch) c.nextLine
      else if f.isPending && ((!inFlow && (c.column : Int) < indent) || c.atDocumentMark ||
        ch == '#') then some (f, c)
      else if inFlow && ch == ':' && c.has 1 (fun d => isFlowMark d || d == '?') then none
      else if (ch == ':' && c.endsAt 1) || (inFlow && isFlowMark ch) then some (f, c)
      else plainScalar inFlow indent fuel (f.push ch) c.next

def singleQuoted : Nat → Fold → Cursor → Option (Fold × Cursor)
  | 0, _, _ => none
  | fuel + 1, f, c =>
    match c.peek? with
    | none => none
    | some ch =>
      if isBlank ch then singleQuoted fuel (f.blank ch) c.next
      else if isBreak ch then singleQuoted fuel (f.lineBreak ch) c.nextLine
      else if c.atDocumentMark then none
      else if ch == '\'' then
        if c.has 1 (· == '\'') then singleQuoted fuel (f.push '\'') (c.skip 2) else some (f.join, c.next)
      else singleQuoted fuel (f.push ch) c.next

def hexDigit? (c : Char) : Option Nat :=
  if '0' ≤ c ∧ c ≤ '9' then some (c.toNat - '0'.toNat)
  else if 'a' ≤ c ∧ c ≤ 'f' then some (c.toNat - 'a'.toNat + 10)
  else if 'A' ≤ c ∧ c ≤ 'F' then some (c.toNat - 'A'.toNat + 10)
  else none

def hexValue? (count : Nat) (cs : List Char) : Option Nat :=
  let ds := cs.take count
  if ds.length < count then none else ds.foldlM (fun n c => (hexDigit? c).map fun d => 16 * n + d) 0

def escapes : List (Char × Nat) := [
  ('0', 0), ('a', 7), ('b', 8), ('t', 9), ('\t', 9), ('n', 10), ('v', 11), ('f', 12),
    ('r', 13), ('e', 27), (' ', 32),
  ('"', 34), ('/', 47), ('\\', 92), ('N', 0x85), ('_', 0xa0), ('L', 0x2028), ('P', 0x2029)]

def codeLengths : List (Char × Nat) := [('x', 2), ('u', 4), ('U', 8)]

/-- The character that a letter after a backslash stands for, and the number of characters
that spell it after the letter. -/
def escape? (letter : Char) (rest : List Char) : Option (Char × Nat) :=
  match escapes.lookup letter with
  | some n => some (Char.ofNat n, 0)
  | none =>
    match codeLengths.lookup letter with
    | none => none
    | some count =>
      match hexValue? count rest with
      | none => none
      | some n => if n.isValidChar then some (Char.ofNat n, count) else none

def doubleQuoted : Nat → Fold → Cursor → Option (Fold × Cursor)
  | 0, _, _ => none
  | fuel + 1, f, c =>
    match c.peek? with
    | none => none
    | some ch =>
      if isBlank ch then doubleQuoted fuel (f.blank ch) c.next
      else if isBreak ch then doubleQuoted fuel (f.lineBreak ch) c.nextLine
      else if c.atDocumentMark then none
      else if ch == '"' then some (f.join, c.next)
      else if ch == '\\' then
        match c.peekAt? 1 with
        | none => none
        | some letter =>
          if isBreak letter then doubleQuoted fuel f.hiddenBreak c.next.nextLine
          else
            match escape? letter (c.rest.drop 2) with
            | none => none
            | some (value, count) => doubleQuoted fuel (f.push value) (c.skip (2 + count))
      else doubleQuoted fuel (f.push ch) c.next

inductive Chomping where
  | clip
  | strip
  | keep
  deriving DecidableEq

def chomping? (c : Cursor) : Option Chomping :=
  if c.looksAt '+' then some .keep else if c.looksAt '-' then some .strip else none

def increment? (c : Cursor) : Option (Nat × Cursor) :=
  match c.peek? with
  | none => some (0, c)
  | some ch =>
    if ch == '0' then none
    else if '1' ≤ ch ∧ ch ≤ '9' then some (ch.toNat - '0'.toNat, c.next)
    else some (0, c)

def blockHeader? (c : Cursor) : Option (Chomping × Nat × Cursor) :=
  match chomping? c with
  | some chomping => (increment? c.next).map fun (n, c) => (chomping, n, c)
  | none =>
    match increment? c with
    | none => none
    | some (0, c) => some (.clip, 0, c)
    | some (n, c) =>
      match chomping? c with
      | some chomping => some (chomping, n, c.next)
      | none => some (.clip, n, c)

/-- Moves over the spaces of an indentation and over empty lines. Returns the breaks, from the last
one, the cursor, and the greatest column met. An indentation of zero is one that is not known yet. -/
def blockBreaks (indent : Nat) : Nat → List Char → Nat → Cursor → Option (List Char × Nat × Cursor)
  | 0, _, _, _ => none
  | fuel + 1, breaks, greatest, c =>
    let inside := indent == 0 || decide (c.column < indent)
    if inside && c.looksAt ' ' then blockBreaks indent fuel breaks greatest c.next
    else
      let greatest := max greatest c.column
      if inside && c.looksAt '\t' then none
      else
        match c.peek? with
        | some ch =>
          if isBreak ch then blockBreaks indent fuel (breakValue ch :: breaks) greatest c.nextLine
          else some (breaks, greatest, c)
        | none => some (breaks, greatest, c)

/-- The lines of a block scalar. All lists of characters are held from their ends. -/
def blockLines (literal : Bool) (indent : Nat) :
    Nat → List Char → List Char → List Char → Bool → Cursor →
      Option (List Char × List Char × List Char × Cursor)
  | 0, _, _, _, _, _ => none
  | fuel + 1, text, first, further, afterBlank, c =>
    if c.column != indent || c.atEnd then some (text, first, further, c)
    else
      let startsBlank := c.has 0 isBlank
      let gap :=
        if !literal && first == ['\n'] && !afterBlank && !startsBlank then
          (if further.isEmpty then [' '] else further)
        else further ++ first
      let line := c.rest.takeWhile fun ch => !isBreak ch
      let c := c.skip line.length
      let ended := c.peek?.map breakValue
      match blockBreaks indent (c.rest.length + 1) [] 0 c.nextLine with
      | none => none
      | some (breaks, _, c) =>
        blockLines literal indent fuel (line.reverse ++ gap ++ text) ended.toList breaks startsBlank c

def blockScalar (literal : Bool) (parent : Int) (c : Cursor) : Option (List Char × Cursor) :=
  match blockHeader? c with
  | none => none
  | some (chomping, increment, c) =>
    let c := c.skipWhile isBlank
    let c := if c.looksAt '#' then c.skipWhile fun ch => !isBreak ch else c
    if !c.atLineEnd then none
    else
      let c := c.nextLine
      let given := if increment = 0 then 0 else (max parent 0).toNat + increment
      match blockBreaks given (c.rest.length + 1) [] 0 c with
      | none => none
      | some (breaks, greatest, c) =>
        let indent := if given = 0 then max greatest (max (parent + 1).toNat 1) else given
        match blockLines literal indent (c.rest.length + 1) [] [] breaks false c with
        | none => none
        | some (text, first, further, c) =>
          let text := if chomping = .strip then text else first ++ text
          let text := if chomping = .keep then further ++ text else text
          some (text.reverse, c)

end NoteQuery.Yaml
