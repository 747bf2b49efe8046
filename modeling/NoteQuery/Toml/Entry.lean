/-!
# Entries of a settings file

The part of TOML that settings need: lines of a key and a value, where a value is a text or a
boolean. Texts stand between quotation marks, with escapes, or between apostrophes, without; three
of either enclose a text of several lines.
-/

namespace NoteQuery.Toml

set_option autoImplicit false

inductive Scalar where
  | text (cs : List Char)
  | bool (b : Bool)
  deriving DecidableEq

structure Entry where
  key : List Char
  value : Scalar
  deriving DecidableEq

def isBlank (c : Char) : Bool := c == ' ' || c == '\t'

/-- Whether a character may stand in a text or a comment: all but controls, of which the tab may. -/
def isTextChar (c : Char) : Bool := c == '\t' || (0x20 ≤ c.toNat && c.toNat != 0x7f)

def isKeyChar (c : Char) : Bool :=
  ('a' ≤ c && c ≤ 'z') || ('A' ≤ c && c ≤ 'Z') || ('0' ≤ c && c ≤ '9') || c == '_' || c == '-'

def hexDigit? (c : Char) : Option Nat :=
  if '0' ≤ c ∧ c ≤ '9' then some (c.toNat - '0'.toNat)
  else if 'a' ≤ c ∧ c ≤ 'f' then some (c.toNat - 'a'.toNat + 10)
  else if 'A' ≤ c ∧ c ≤ 'F' then some (c.toNat - 'A'.toNat + 10)
  else none

def codeChar? (count : Nat) (cs : List Char) : Option Char :=
  let ds := cs.take count
  if ds.length < count then none
  else (ds.foldlM (fun n c => (hexDigit? c).map fun d => 16 * n + d) 0).bind fun n =>
    if n.isValidChar then some (Char.ofNat n) else none

def escapes : List (Char × Char) := [
  ('b', '\x08'), ('t', '\t'), ('n', '\n'), ('f', '\x0c'), ('r', '\r'), ('"', '"'), ('\\', '\\')]

/-- The character that is spelled after a backslash, and the number of characters that spell it. -/
def escape? : List Char → Option (Char × Nat)
  | 'u' :: r => (codeChar? 4 r).map fun c => (c, 5)
  | 'U' :: r => (codeChar? 8 r).map fun c => (c, 9)
  | c :: _ => (escapes.lookup c).map fun d => (d, 1)
  | [] => none

def lineEnd? : List Char → Option (List Char)
  | '\n' :: r => some r
  | '\r' :: '\n' :: r => some r
  | _ => none

/-- The text up to a closing mark on the same line, and what follows it. -/
def oneLine? (mark : Char) (escaping : Bool) : Nat → List Char → Option (List Char × List Char)
  | 0, _ => none
  | _ + 1, [] => none
  | fuel + 1, c :: cs =>
    if c = mark then some ([], cs)
    else if escaping && c == '\\' then
      match escape? cs with
      | none => none
      | some (d, count) => (oneLine? mark escaping fuel (cs.drop count)).map fun (text, rest) =>
        (d :: text, rest)
    else if isTextChar c then (oneLine? mark escaping fuel cs).map fun (text, rest) => (c :: text, rest)
    else none

/-- What follows blanks and line ends, of which there are at most `fuel`. -/
def skipLines : Nat → List Char → List Char
  | 0, cs => cs
  | fuel + 1, cs =>
    let cs := cs.dropWhile isBlank
    match lineEnd? cs with
    | some rest => skipLines fuel rest
    | none => cs

/-- The text up to three closing marks, and what follows them. One or two marks belong to the
text, also right before the closing ones. A backslash at the end of a line hides the line end
and the blank space after it. -/
def manyLines? (mark : Char) (escaping : Bool) : Nat → List Char → Option (List Char × List Char)
  | 0, _ => none
  | _ + 1, [] => none
  | fuel + 1, c :: cs =>
    if c = mark then
      let count := ((c :: cs).takeWhile (· == mark)).length
      let rest := (c :: cs).drop count
      if count < 3 then
        (manyLines? mark escaping fuel rest).map fun (text, r) =>
          (List.replicate count mark ++ text, r)
      else if count ≤ 5 then some (List.replicate (count - 3) mark, rest)
      else none
    else if escaping && c == '\\' then
      match lineEnd? (cs.dropWhile isBlank) with
      | some rest => manyLines? mark escaping fuel (skipLines rest.length rest)
      | none =>
        match escape? cs with
        | none => none
        | some (d, count) =>
          (manyLines? mark escaping fuel (cs.drop count)).map fun (text, rest) => (d :: text, rest)
    else
      match lineEnd? (c :: cs) with
      | some rest => (manyLines? mark escaping fuel rest).map fun (text, r) => ('\n' :: text, r)
      | none =>
        if isTextChar c then
          (manyLines? mark escaping fuel cs).map fun (text, rest) => (c :: text, rest)
        else none

def text? (mayHaveLines : Bool) (cs : List Char) : Option (List Char × List Char) :=
  match cs with
  | [] => none
  | mark :: r =>
    if mark ≠ '"' ∧ mark ≠ '\'' then none
    else if mayHaveLines && r.take 2 == [mark, mark] then
      let r := r.drop 2
      let r := (lineEnd? r).getD r
      manyLines? mark (mark == '"') (r.length + 1) r
    else oneLine? mark (mark == '"') (r.length + 1) r

def value? (cs : List Char) : Option (Scalar × List Char) :=
  match cs with
  | 't' :: 'r' :: 'u' :: 'e' :: r => some (.bool true, r)
  | 'f' :: 'a' :: 'l' :: 's' :: 'e' :: r => some (.bool false, r)
  | cs => (text? true cs).map fun (text, rest) => (.text text, rest)

def key? (cs : List Char) : Option (List Char × List Char) :=
  match cs.takeWhile isKeyChar with
  | [] => text? false cs
  | key => some (key, cs.drop key.length)

def afterLine? (cs : List Char) : Option (List Char) :=
  let cs := cs.dropWhile isBlank
  let cs := if cs.head? = some '#' then cs.dropWhile isTextChar else cs
  if cs.isEmpty then some [] else lineEnd? cs

def entriesUpTo : Nat → List Char → Option (List Entry)
  | 0, cs => if cs.isEmpty then some [] else none
  | fuel + 1, cs =>
    if cs.isEmpty then some []
    else
      match afterLine? cs with
      | some rest => entriesUpTo fuel rest
      | none =>
        match key? (cs.dropWhile isBlank) with
        | none => none
        | some (key, rest) =>
          match rest.dropWhile isBlank with
          | '=' :: rest =>
            match value? (rest.dropWhile isBlank) with
            | none => none
            | some (value, rest) =>
              match afterLine? rest with
              | none => none
              | some rest => (entriesUpTo fuel rest).map (⟨key, value⟩ :: ·)
          | _ => none

/-- The entries of a text, which may start with a byte order mark. -/
def entries? (cs : List Char) : Option (List Entry) :=
  match cs with
  | '\ufeff' :: r => entriesUpTo r.length r
  | r => entriesUpTo r.length r

end NoteQuery.Toml
