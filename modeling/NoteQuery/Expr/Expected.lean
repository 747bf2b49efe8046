import NoteQuery.Expr.Token

/-!
# What a faulty expression lacks

The grammar as a recogniser that notes, at the furthest place it tried, which constructs it tried
there in vain. A construct stands for what was tried inside it, unless exactly one thing inside was
tried at its own start, which then stands for it.
-/

namespace NoteQuery.Expr

set_option autoImplicit false

/-- The constructs that a message can name, in the order in which it names them. -/
inductive Construct where
  | endOfText
  | expression
  | expr
  | number
  | string
  | boolean
  | null
  | ident
  | identName
  | not
  | neg
  | plus
  | call
  | member
  | index
  | or
  | and
  | strictEq
  | strictNe
  | eq
  | ne
  | le
  | ge
  | lt
  | gt
  | add
  | sub
  | mul
  | div
  | rem
  deriving DecidableEq

namespace Construct

def all : List Construct :=
  [endOfText, expression, expr, number, string, boolean, null, ident, identName, not, neg, plus,
    call, member, index, or, and, strictEq, strictNe, eq, ne, le, ge, lt, gt, add, sub, mul, div, rem]

def name : Construct → String
  | endOfText => "EOI"
  | expression => "expression"
  | expr => "expr"
  | number => "number"
  | string => "string"
  | boolean => "boolean"
  | null => "null"
  | ident => "ident"
  | identName => "ident_name"
  | not => "not"
  | neg => "neg"
  | plus => "plus"
  | call => "call"
  | member => "member"
  | index => "index"
  | or => "or"
  | and => "and"
  | strictEq => "strict_eq"
  | strictNe => "strict_ne"
  | eq => "eq"
  | ne => "ne"
  | le => "le"
  | ge => "ge"
  | lt => "lt"
  | gt => "gt"
  | add => "add"
  | sub => "sub"
  | mul => "mul"
  | div => "div"
  | rem => "rem"

end Construct

structure Place where
  offset : Nat
  rest : List Char

/-- The furthest place of an attempt, and the constructs that failed there. -/
structure Attempts where
  furthest : Nat
  tried : List Construct

def Attempts.countAt (a : Attempts) (offset : Nat) : Nat :=
  if offset = a.furthest then a.tried.length else 0

/-- A recogniser moves to the place behind what it recognises, and notes what it tried. -/
abbrev Recogniser := Place → Attempts → Option Place × Attempts

namespace Recogniser

def accept : Recogniser := fun p a => (some p, a)

def seq (r s : Recogniser) : Recogniser := fun p a =>
  match r p a with
  | (some q, a) => s q a
  | (none, a) => (none, a)

def orElse (r s : Recogniser) : Recogniser := fun p a =>
  match r p a with
  | (none, a) => s p a
  | found => found

def choice (rs : List Recogniser) : Recogniser := rs.foldr orElse fun _ a => (none, a)

def optional (r : Recogniser) : Recogniser := orElse r accept

def upTo : Nat → Recogniser → Recogniser
  | 0, _ => accept
  | limit + 1, r => fun p a =>
    match r p a with
    | (some q, a) => upTo limit r q a
    | (none, a) => (some p, a)

/-- As many repetitions as succeed. Each takes a character, and the last attempt may be at the end. -/
def many (r : Recogniser) : Recogniser := fun p a => upTo (p.rest.length + 1) r p a

/-- Moves over what a function of the remaining text takes from it, if it takes something. -/
def take (lexeme : List Char → Nat) : Recogniser := fun p a =>
  match lexeme p.rest with
  | 0 => (none, a)
  | n + 1 => (some ⟨p.offset + (n + 1), p.rest.drop (n + 1)⟩, a)

def space : Recogniser := fun p a =>
  let n := (p.rest.takeWhile isSpace).length
  (some ⟨p.offset + n, p.rest.drop n⟩, a)

def spaced : List Recogniser → Recogniser
  | [] => accept
  | [r] => r
  | r :: rs => seq r (seq space (spaced rs))

def manySpaced (r : Recogniser) : Recogniser := optional (seq r (many (seq space r)))

def exactly (s : String) : Recogniser :=
  take fun cs => if s.toList.isPrefixOf cs then s.toList.length else 0

def wordOf (names : List String) : Recogniser := take fun cs =>
  match cs with
  | c :: _ =>
    let name := cs.takeWhile isWordChar
    if isWordStart c && names.any (·.toList == name) then name.length else 0
  | [] => 0

def track (c : Construct) (r : Recogniser) : Recogniser := fun p a =>
  let before := a.countAt p.offset
  match r p a with
  | (some q, a) => (some q, a)
  | (none, a) =>
    if a.countAt p.offset = before + 1 then (none, a)
    else if p.offset = a.furthest then (none, ⟨a.furthest, a.tried.take before ++ [c]⟩)
    else if a.furthest < p.offset then (none, ⟨p.offset, [c]⟩)
    else (none, a)

def endOfText : Recogniser := fun p a => (if p.rest.isEmpty then some p else none, a)

end Recogniser

open Recogniser

def wordLength : List Char → Nat
  | c :: r => if isWordStart c then (c :: r.takeWhile isWordChar).length else 0
  | [] => 0

def identLength (cs : List Char) : Nat :=
  let n := wordLength cs
  if ["true", "false", "null", "undefined", "and", "or", "not"].any (·.toList == cs.take n) then 0 else n

def quotedLength : List Char → Nat
  | [] => 0
  | c :: r =>
    if c = '"' ∨ c = '\'' then
      match quotedBody c r with
      | some (_, rest) => r.length + 1 - rest.length
      | none => 0
    else 0

def numeralLength (cs : List Char) : Nat :=
  match cs with
  | c :: _ => if Decimal.isDigit c then (numeral cs).length else 0
  | [] => 0

def unaryConstructs : Recogniser := choice [
  track .not (orElse (exactly "!") (wordOf ["not"])),
  track .neg (exactly "-"),
  track .plus (exactly "+")]

def binaryConstructs : Recogniser := choice [
  track .or (orElse (exactly "||") (wordOf ["or"])),
  track .and (orElse (exactly "&&") (wordOf ["and"])),
  track .strictEq (exactly "==="),
  track .strictNe (exactly "!=="),
  track .eq (exactly "=="),
  track .ne (exactly "!="),
  track .le (exactly "<="),
  track .ge (exactly ">="),
  track .lt (exactly "<"),
  track .gt (exactly ">"),
  track .add (exactly "+"),
  track .sub (exactly "-"),
  track .mul (exactly "*"),
  track .div (exactly "/"),
  track .rem (exactly "%")]

def operandConstructs (inner : Recogniser) : Recogniser := choice [
  track .number (take numeralLength),
  track .string (take quotedLength),
  track .boolean (wordOf ["true", "false"]),
  track .null (wordOf ["null", "undefined"]),
  track .ident (take identLength),
  spaced [exactly "(", inner, exactly ")"]]

def suffixConstructs (inner : Recogniser) : Recogniser := choice [
  track .call (spaced [exactly "(",
    optional (spaced [inner, manySpaced (spaced [exactly ",", inner])]), exactly ")"]),
  track .member (spaced [exactly ".", track .identName (take wordLength)]),
  track .index (spaced [exactly "[", inner, exactly "]"])]

/-- An expression with at most `depth` brackets around its parts. -/
def exprConstruct : Nat → Recogniser
  | 0 => fun _ a => (none, a)
  | depth + 1 =>
    let inner := exprConstruct depth
    let operand := [manySpaced unaryConstructs, operandConstructs inner,
      manySpaced (suffixConstructs inner)]
    track .expr (spaced (operand ++ [manySpaced (spaced (binaryConstructs :: operand))]))

/-- The constructs of which one would have let the text go on, and the line and column where it stops. -/
structure Expectation where
  constructs : List Construct
  line : Nat
  column : Nat
  deriving DecidableEq

/-- What is expected at the furthest place of a text that is no expression. -/
def expectation (cs : List Char) : Expectation :=
  let whole := track .expression
    (spaced [accept, exprConstruct (cs.length + 1), track .endOfText endOfText])
  let attempts := (whole ⟨0, cs⟩ ⟨0, []⟩).2
  let before := cs.take attempts.furthest
  ⟨Construct.all.filter (· ∈ attempts.tried), before.count '\n' + 1,
    (before.reverse.takeWhile (· != '\n')).length + 1⟩

/-- Names in a sentence: `a`, `a or b`, `a, b, or c`. -/
def alternatives : List String → String
  | [] => ""
  | [a] => a
  | [a, b] => a ++ " or " ++ b
  | names => ", ".intercalate names.dropLast ++ ", or " ++ names.getLastD ""

def Expectation.text (e : Expectation) : String :=
  "expected " ++ alternatives (e.constructs.map Construct.name) ++
    " at " ++ toString e.line ++ ":" ++ toString e.column

end NoteQuery.Expr
