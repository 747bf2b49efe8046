import NoteQuery.Yaml.Node
import NoteQuery.Number.Decimal

/-!
# Data of YAML

The values that the nodes of a document stand for. Plain scalars are nulls, booleans or numbers if
they look like them; the keys of a mapping differ.
-/

namespace NoteQuery.Yaml

set_option autoImplicit false

inductive Datum where
  | null
  | bool (b : Bool)
  | int (n : Int)
  | float (x : Binary64)
  | text (cs : List Char)
  | sequence (items : List Datum)
  | mapping (entries : List (Datum × Datum))
  | tagged (tag : List Char) (d : Datum)

namespace Datum

def nullWords : List String := ["null", "Null", "NULL", "~"]

def isNullWord (cs : List Char) : Bool := nullWords.any (·.toList == cs)

def boolOf? (cs : List Char) : Option Bool :=
  if ["true", "True", "TRUE"].any (·.toList == cs) then some true
  else if ["false", "False", "FALSE"].any (·.toList == cs) then some false
  else none

def hasLeadingZero (cs : List Char) : Bool :=
  let ds := match cs with
    | '-' :: r => r
    | '+' :: r => r
    | r => r
  match ds with
  | '0' :: d :: r => (d :: r).all Decimal.isDigit
  | _ => false

def digitsOf? (base : Nat) (cs : List Char) : Option Nat :=
  if cs.isEmpty then none
  else cs.foldlM (fun n c => ((hexDigit? c).filter (· < base)).map fun d => base * n + d) 0

def unsigned? : List Char → Option Nat
  | '0' :: 'x' :: r => digitsOf? 16 r
  | '0' :: 'o' :: r => digitsOf? 8 r
  | '0' :: 'b' :: r => digitsOf? 2 r
  | r => digitsOf? 10 r

inductive IntReading where
  | notAnInt
  | tooLarge
  | value (n : Int)

/-- A whole number of 64 bits. One that needs up to 128 bits is too large; a longer one is none. -/
def readInt (cs : List Char) : IntReading :=
  if hasLeadingZero cs then .notAnInt
  else
    match cs with
    | '-' :: r =>
      match unsigned? r with
      | none => .notAnInt
      | some n => if n ≤ Nat.pow 2 63 then .value (-(n : Int)) else if n ≤ Nat.pow 2 127 then .tooLarge else .notAnInt
    | _ =>
      let digits := match cs with
        | '+' :: r => r
        | r => r
      match unsigned? digits with
      | none => .notAnInt
      | some n => if n < Nat.pow 2 64 then .value n else if n < Nat.pow 2 128 then .tooLarge else .notAnInt

/-- A finite decimal, or one of the words for infinity and NaN. -/
def floatOf? (cs : List Char) : Option Binary64 :=
  let isWord := fun (words : List String) (cs : List Char) => words.any (·.toList == cs)
  let positive := match cs with
    | '+' :: '+' :: _ => none
    | '+' :: '-' :: _ => none
    | '+' :: r => some r
    | r => some r
  match positive with
  | none => none
  | some r =>
    if isWord [".inf", ".Inf", ".INF"] r then some (.infinity false)
    else if isWord ["-.inf", "-.Inf", "-.INF"] cs then some (.infinity true)
    else if isWord [".nan", ".NaN", ".NAN"] cs then some .nan
    else (Binary64.read? r).filter Binary64.isFinite

def ofPlain? (cs : List Char) : Option Datum :=
  if cs.isEmpty || isNullWord cs then some null
  else
    match boolOf? cs with
    | some b => some (bool b)
    | none =>
      match readInt cs with
      | .value n => some (int n)
      | .tooLarge => none
      | .notAnInt =>
        match if hasLeadingZero cs then none else floatOf? cs with
        | some x => some (float x)
        | none => some (text cs)

def coreTag (name : String) : List Char := "tag:yaml.org,2002:".toList ++ name.toList

def dropMark : List Char → List Char
  | '!' :: c :: r => c :: r
  | r => r

/-- A tag of the document itself, without the exclamation mark at its start; a lone mark is a
tag too. Tags that differ in a second mark are one tag, and a tag that is not made of
characters counts for nothing. -/
def localTag? (tag : Option (List Char)) : Option (List Char) :=
  (tag.filter fun t => t.head? == some '!' && !t.contains '\x00').map fun t => dropMark (dropMark t)

/-- What a scalar stands for whose tag, if any, is not read as one of the document. -/
def ofScalar? (tag : Option (List Char)) (isPlain : Bool) (cs : List Char) : Option Datum :=
  match tag with
  | none => if isPlain then ofPlain? cs else some (text cs)
  | some t =>
    if t = coreTag "bool" then (boolOf? cs).map bool
    else if t = coreTag "int" then
      match readInt cs with
      | .value n => some (int n)
      | _ => none
    else if t = coreTag "float" then (floatOf? cs).map float
    else if t = coreTag "null" then (if isNullWord cs then some null else none)
    else if isPlain && t.head? == some '!' then ofPlain? cs
    else some (text cs)

def withTag (tag : Option (List Char)) (d : Datum) : Datum :=
  match tag with
  | some t => tagged t d
  | none => d

mutual

/-- Equality of data. The order of the entries of a mapping does not count; NaN equals itself. -/
def same : Datum → Datum → Bool
  | null, null => true
  | bool a, bool b => a == b
  | int m, int n => m == n
  | float x, float y => (x.isNaN && y.isNaN) || x.numEq y
  | text s, text t => s == t
  | sequence xs, sequence ys => sameItems xs ys
  | mapping es, mapping fs => es.length == fs.length && entriesIn es fs
  | tagged t x, tagged u y => t == u && same x y
  | _, _ => false

def sameItems : List Datum → List Datum → Bool
  | [], [] => true
  | x :: xs, y :: ys => same x y && sameItems xs ys
  | _, _ => false

def entriesIn : List (Datum × Datum) → List (Datum × Datum) → Bool
  | [], _ => true
  | (k, v) :: es, fs => (fs.any fun (l, w) => same k l && same v w) && entriesIn es fs

end

/-- Runs a step over a list from left to right with a count that each step carries on. -/
def collect {α β : Type} (step : α → Nat → Option (β × Nat)) : List α → Nat → Option (List β × Nat)
  | [], count => some ([], count)
  | a :: as, count =>
    match step a count with
    | none => none
    | some (b, count) => (collect step as count).map fun (bs, count) => (b :: bs, count)

/-- The entries of a mapping with different keys; `seen` are the entries before, from the last one. -/
def entries? (step : Node → Nat → Option (Datum × Nat)) (seen : List (Datum × Datum)) :
    List (Node × Node) → Nat → Option (List (Datum × Datum) × Nat)
  | [], count => some (seen.reverse, count)
  | (k, v) :: es, count =>
    match step k count with
    | none => none
    | some (key, count) =>
      if seen.any fun (other, _) => same key other then none
      else
        match step v count with
        | none => none
        | some (value, count) => entries? step ((key, value) :: seen) es count

/-- The datum of a node with collections nested `depth` deep at most. The count is that of the
aliases followed so far, of which there are at most `limit`. -/
def ofNode? (aliased? : Nat → Option Node) (limit : Nat) : Nat → Node → Nat → Option (Datum × Nat)
  | depth, n, count =>
    let followed := match n with
      | .reference number =>
        if count < limit then (aliased? number).map fun n => (n, count + 1) else none
      | n => some (n, count)
    match followed with
    | none => none
    | some (.reference _, _) => none
    | some (.scalar tag isPlain cs, count) =>
      let own := localTag? tag
      (if own.isSome then ofScalar? none isPlain cs else ofScalar? tag isPlain cs).map fun d =>
        (withTag own d, count)
    | some (.sequence tag items, count) =>
      match depth with
      | 0 => none
      | depth + 1 =>
        (collect (ofNode? aliased? limit depth) items count).map fun (ds, count) =>
          (withTag (localTag? tag) (sequence ds), count)
    | some (.mapping tag es, count) =>
      match depth with
      | 0 => none
      | depth + 1 =>
        (entries? (ofNode? aliased? limit depth) [] es count).map fun (ds, count) =>
          (withTag (localTag? tag) (mapping ds), count)

def greatestDepth : Nat := 128

def ofChars? (cs : List Char) : Option Datum := do
  let ts ← Token.ofChars? cs
  match ← Reader.document? ts with
  | none => return null
  | some (n, r) =>
    let (d, _) ← ofNode? r.aliased? (100 * n.size) greatestDepth n 0
    return d

end Datum

end NoteQuery.Yaml
