import NoteQuery.Yaml.Scalar

/-!
# Tokens of YAML

The indicators, scalars and properties of a text in order. Indentation and simple keys are made
explicit: blocks start and end with tokens of their own, and a key is announced in front of it,
although only the colon behind it shows that it is one.
-/

namespace NoteQuery.Yaml

set_option autoImplicit false

inductive Token where
  | versionDirective (major minor : Nat)
  | tagDirective (handle start : List Char)
  | documentStart
  | documentEnd
  | blockSequenceStart
  | blockMappingStart
  | blockEnd
  | flowSequenceStart
  | flowSequenceEnd
  | flowMappingStart
  | flowMappingEnd
  | blockEntry
  | flowEntry
  | key
  | value
  | reference (name : List Char)
  | anchor (name : List Char)
  | tag (handle suffix : List Char)
  | scalar (isPlain : Bool) (text : List Char)
  deriving DecidableEq

/-- A place where a key may start, as long as its colon follows soon and on the same line. -/
structure KeyStart where
  required : Bool
  position : Nat
  place : Cursor

structure Lexer where
  place : Cursor
  /-- The tokens so far, from the last one. -/
  tokens : List Token
  /-- The column of the innermost block, or -1 outside all blocks. -/
  indent : Int
  outer : List Int
  /-- For each open flow collection, and for the block around them, where a key may have started. -/
  keys : List (Option KeyStart)
  keyAllowed : Bool

namespace Lexer

def start (cs : List Char) : Lexer := ⟨Cursor.start cs, [], -1, [], [none], true⟩

def inFlow (l : Lexer) : Bool := 1 < l.keys.length

def push (l : Lexer) (t : Token) : Lexer := { l with tokens := t :: l.tokens }

def insertAt (l : Lexer) (position : Nat) (t : Token) : Lexer :=
  let behind := l.tokens.length - position
  { l with tokens := l.tokens.take behind ++ t :: l.tokens.drop behind }

def moveTo (l : Lexer) (c : Cursor) : Lexer := { l with place := c }

def indentTo (l : Lexer) (column : Nat) (position : Nat) (t : Token) : Lexer :=
  if !l.inFlow && l.indent < (column : Int) then
    { l.insertAt position t with indent := column, outer := l.indent :: l.outer }
  else l

def closeBlocks (column : Int) : List Int → Lexer → Lexer
  | outer, l =>
    if l.inFlow || l.indent ≤ column then l
    else
      match outer with
      | [] => { l.push .blockEnd with indent := -1 }
      | i :: is => closeBlocks column is { l.push .blockEnd with indent := i, outer := is }

def unindentTo (l : Lexer) (column : Int) : Lexer := closeBlocks column l.outer l

/-- Gives up the innermost place of a key, unless a key is required there. -/
def dropKey? (l : Lexer) : Option Lexer :=
  match l.keys with
  | some k :: ks => if k.required then none else some { l with keys := none :: ks }
  | _ => some l

def markKey? (l : Lexer) : Option Lexer :=
  if l.keyAllowed then
    l.dropKey?.map fun l =>
      let k : KeyStart := ⟨!l.inFlow && l.indent == (l.place.column : Int), l.tokens.length, l.place⟩
      { l with keys := some k :: l.keys.drop 1 }
  else some l

/-- Gives up the places of keys whose colon would now be on another line or more than 1024 bytes away. -/
def dropStaleKeys? (l : Lexer) : Option Lexer :=
  let isStale := fun k : KeyStart => k.place.line < l.place.line || k.place.index + 1024 < l.place.index
  if l.keys.any fun k => k.any fun k => isStale k && k.required then none
  else some { l with keys := l.keys.map fun k => k.filter fun k => !isStale k }

/-- Moves over blanks, comments and line breaks. A tab counts as a blank where it
cannot be taken for indentation. -/
def skipGap : Nat → Lexer → Lexer
  | 0, l => l
  | fuel + 1, l =>
    let c := if l.place.column == 0 && l.place.looksAt '\ufeff' then l.place.next else l.place
    let tabs := l.inFlow || !l.keyAllowed
    let c := c.skipWhile fun ch => ch == ' ' || (tabs && ch == '\t')
    let c := if c.looksAt '#' then c.skipWhile fun ch => !isBreak ch else c
    if c.has 0 isBreak then
      skipGap fuel { l with place := c.nextLine, keyAllowed := l.keyAllowed || !l.inFlow }
    else l.moveTo c

def openFlow? (l : Lexer) (t : Token) : Option Lexer :=
  l.markKey?.map fun l =>
    { l.push t with keys := none :: l.keys, keyAllowed := true, place := l.place.next }

def closeFlow? (l : Lexer) (t : Token) : Option Lexer :=
  l.dropKey?.map fun l =>
    { l.push t with
      keys := if l.inFlow then l.keys.drop 1 else l.keys
      keyAllowed := false
      place := l.place.next }

def flowEntry? (l : Lexer) : Option Lexer :=
  l.dropKey?.map fun l => { l.push .flowEntry with keyAllowed := true, place := l.place.next }

def blockEntry? (l : Lexer) : Option Lexer :=
  if !l.inFlow && !l.keyAllowed then none
  else
    (l.indentTo l.place.column l.tokens.length .blockSequenceStart).dropKey?.map fun l =>
      { l.push .blockEntry with keyAllowed := true, place := l.place.next }

def key? (l : Lexer) : Option Lexer :=
  if !l.inFlow && !l.keyAllowed then none
  else
    (l.indentTo l.place.column l.tokens.length .blockMappingStart).dropKey?.map fun l =>
      { l.push .key with keyAllowed := !l.inFlow, place := l.place.next }

def value? (l : Lexer) : Option Lexer :=
  match l.keys with
  | some k :: ks =>
    let l := (l.insertAt k.position .key).indentTo k.place.column k.position .blockMappingStart
    some { l.push .value with keys := none :: ks, keyAllowed := false, place := l.place.next }
  | _ =>
    if !l.inFlow && !l.keyAllowed then none
    else
      let l := l.indentTo l.place.column l.tokens.length .blockMappingStart
      some { l.push .value with keyAllowed := !l.inFlow, place := l.place.next }

def anchorName? (c : Cursor) : Option (List Char × Cursor) :=
  let name := c.rest.takeWhile isNameChar
  let c := c.skip name.length
  if !name.isEmpty && (c.endsAt 0 || c.has 0 fun ch => "?:,]\x7d%@`".toList.contains ch) then
    some (name, c)
  else none

def anchor? (l : Lexer) (make : List Char → Token) : Option Lexer :=
  match l.markKey? with
  | none => none
  | some l =>
    (anchorName? l.place.next).map fun (name, c) =>
      { l.push (make name) with keyAllowed := false, place := c }

def tagHandle? (c : Cursor) : Option (List Char × Cursor) :=
  if !c.looksAt '!' then none
  else
    let name := c.next.rest.takeWhile isNameChar
    let c := c.next.skip name.length
    if c.looksAt '!' then some ('!' :: (name ++ ['!']), c.next) else some ('!' :: name, c)

def isTagChar (verbatim : Bool) (c : Char) : Bool :=
  isNameChar c || ";/?:@&=+$.%!~*'()".toList.contains c ||
    (verbatim && (c == ',' || c == '[' || c == ']'))

def octet? : List Char → Option Nat
  | '%' :: a :: b :: _ => hexValue? 2 [a, b]
  | _ => none

def widthOf? (n : Nat) : Option Nat :=
  if n < 0x80 then some 1
  else if 0xc0 ≤ n ∧ n < 0xe0 then some 2
  else if 0xe0 ≤ n ∧ n < 0xf0 then some 3
  else if 0xf0 ≤ n ∧ n < 0xf8 then some 4
  else none

def leastOfWidth (width : Nat) : Nat :=
  if width = 2 then 0x80 else if width = 3 then 0x800 else if width = 4 then 0x10000 else 0

/-- The character that escaped bytes spell, and how many characters spell it. NUL, which no text
holds, stands for bytes of the right classes that are no character. -/
def escapedChar? (cs : List Char) : Option (Char × Nat) :=
  match octet? cs with
  | none => none
  | some n =>
    match widthOf? n with
    | none => none
    | some width =>
      let lead := if width = 1 then n else n % Nat.pow 2 (7 - width)
      let further := (List.range' 1 (width - 1)).mapM fun i =>
        (octet? (cs.drop (3 * i))).filter fun b => b / 64 == 2
      further.map fun bs =>
        let value := bs.foldl (fun v b => 64 * v + b % 64) lead
        (Char.ofNat (if leastOfWidth width ≤ value then value else 0), 3 * width)

/-- The characters of a tag, in which bytes may be escaped. -/
def tagChars? (verbatim : Bool) : Nat → List Char → Cursor → Option (List Char × Cursor)
  | 0, _, _ => none
  | fuel + 1, text, c =>
    match c.peek? with
    | none => some (text.reverse, c)
    | some ch =>
      if !isTagChar verbatim ch then some (text.reverse, c)
      else if ch == '%' then
        match escapedChar? c.rest with
        | none => none
        | some (d, count) => tagChars? verbatim fuel (d :: text) (c.skip count)
      else tagChars? verbatim fuel (ch :: text) c.next

def tagText? (verbatim : Bool) (c : Cursor) : Option (List Char × Cursor) :=
  tagChars? verbatim (c.rest.length + 1) [] c

/-- A tag as its handle and the text after it. A verbatim tag has no handle; a lone
exclamation mark is a tag of its own. -/
def tagAt? (c : Cursor) : Option (List Char × List Char × Cursor) :=
  if c.has 1 (· == '<') then
    match tagText? true (c.skip 2) with
    | some (text, c) => if !text.isEmpty && c.looksAt '>' then some ([], text, c.next) else none
    | none => none
  else
    match tagHandle? c with
    | none => none
    | some (handle, c) =>
      match tagText? false c with
      | none => none
      | some (text, c) =>
        if 1 < handle.length && handle.getLast? == some '!' then
          (if text.isEmpty then none else some (handle, text, c))
        else
          let suffix := handle.drop 1 ++ text
          if suffix.isEmpty then some ([], ['!'], c) else some (['!'], suffix, c)

def tag? (l : Lexer) : Option Lexer :=
  match l.markKey? with
  | none => none
  | some l =>
    match tagAt? l.place with
    | none => none
    | some (handle, suffix, c) =>
      if c.endsAt 0 || (l.inFlow && c.looksAt ',') then
        some { l.push (.tag handle suffix) with keyAllowed := false, place := c }
      else none

def plain? (l : Lexer) : Option Lexer :=
  match l.markKey? with
  | none => none
  | some l =>
    (plainScalar l.inFlow (l.indent + 1) (l.place.rest.length + 1) .empty l.place).map fun (f, c) =>
      { l.push (.scalar true f.result) with keyAllowed := f.broken, place := c }

def quoted? (l : Lexer) (read : Nat → Fold → Cursor → Option (Fold × Cursor)) : Option Lexer :=
  match l.markKey? with
  | none => none
  | some l =>
    (read (l.place.rest.length + 1) .empty l.place.next).map fun (f, c) =>
      { l.push (.scalar false f.result) with keyAllowed := false, place := c }

def block? (l : Lexer) (literal : Bool) : Option Lexer :=
  match l.dropKey? with
  | none => none
  | some l =>
    (blockScalar literal l.indent l.place.next).map fun (text, c) =>
      { l.push (.scalar false text) with keyAllowed := true, place := c }

def outside? (l : Lexer) : Option Lexer :=
  (l.unindentTo (-1)).dropKey?.map fun l => { l with keyAllowed := false }

def documentMark? (l : Lexer) (t : Token) : Option Lexer :=
  l.outside?.map fun l => { l.push t with place := l.place.skip 3 }

def number? (c : Cursor) : Option (Nat × Cursor) :=
  let ds := c.rest.takeWhile Char.isDigit
  if ds.isEmpty || 9 < ds.length then none
  else some (ds.foldl (fun n d => 10 * n + (d.toNat - '0'.toNat)) 0, c.skip ds.length)

def versionDirective? (c : Cursor) : Option (Token × Cursor) := do
  let (major, c) ← number? (c.skipWhile isBlank)
  if !c.looksAt '.' then none
  else
    let (minor, c) ← number? c.next
    return (.versionDirective major minor, c)

def tagDirective? (c : Cursor) : Option (Token × Cursor) := do
  let (handle, c) ← tagHandle? (c.skipWhile isBlank)
  if (handle != ['!'] && (handle.length == 1 || handle.getLast? != some '!')) ||
    !c.has 0 isBlank then none
  else
    let (start, c) ← tagText? true (c.skipWhile isBlank)
    if start.isEmpty || !c.endsAt 0 then none else return (.tagDirective handle start, c)

/-- A directive: its name, its value, and nothing but a comment behind it. -/
def directive? (l : Lexer) : Option Lexer := do
  let l ← l.outside?
  let name := l.place.next.rest.takeWhile isNameChar
  let c := l.place.next.skip name.length
  let (t, c) ←
    if !c.endsAt 0 then none
    else if name = "YAML".toList then versionDirective? c
    else if name = "TAG".toList then tagDirective? c
    else none
  let c := c.skipWhile isBlank
  let c := if c.looksAt '#' then c.skipWhile fun ch => !isBreak ch else c
  if c.atLineEnd then return { l.push t with place := c.nextLine } else none

def token? (l : Lexer) : Option Lexer :=
  let c := l.place
  match c.peek? with
  | none => none
  | some ch =>
    if c.column == 0 && ch == '%' then l.directive?
    else if c.atMark '-' then l.documentMark? .documentStart
    else if c.atMark '.' then l.documentMark? .documentEnd
    else if ch == '[' then l.openFlow? .flowSequenceStart
    else if ch == '{' then l.openFlow? .flowMappingStart
    else if ch == ']' then l.closeFlow? .flowSequenceEnd
    else if ch == '}' then l.closeFlow? .flowMappingEnd
    else if ch == ',' then l.flowEntry?
    else if ch == '-' && c.endsAt 1 then l.blockEntry?
    else if ch == '?' && (l.inFlow || c.endsAt 1) then l.key?
    else if ch == ':' && (l.inFlow || c.endsAt 1) then l.value?
    else if ch == '*' then l.anchor? .reference
    else if ch == '&' then l.anchor? .anchor
    else if ch == '!' then l.tag?
    else if ch == '|' && !l.inFlow then l.block? true
    else if ch == '>' && !l.inFlow then l.block? false
    else if ch == '\'' then l.quoted? singleQuoted
    else if ch == '"' then l.quoted? doubleQuoted
    else if ch == '\t' || "|>%@`".toList.contains ch then none
    else l.plain?

def finish? (l : Lexer) : Option (List Token) :=
  (l.unindentTo (-1)).dropKey?.map fun l => l.tokens.reverse

def run? : Nat → Lexer → Option (List Token)
  | 0, _ => none
  | fuel + 1, l =>
    match (l.skipGap (l.place.rest.length + 1)).dropStaleKeys? with
    | none => none
    | some l =>
      let l := l.unindentTo l.place.column
      if l.place.atEnd then l.finish?
      else
        match l.token? with
        | none => none
        | some l => run? fuel l

end Lexer

def Token.ofChars? (cs : List Char) : Option (List Token) :=
  if cs.all isAllowed then (Lexer.start cs).run? (cs.length + 1) else none

end NoteQuery.Yaml
