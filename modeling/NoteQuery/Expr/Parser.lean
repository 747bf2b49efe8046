import NoteQuery.Expr.Basic
import NoteQuery.Expr.Token

/-!
# Reading expressions

Levels of infix operators, each grouping to the left, above prefix operators, above calls, members
and indices, above the operands. The readers return what they leave unread.
-/

namespace NoteQuery.Expr

set_option autoImplicit false

def keywords : List String := ["true", "false", "null", "undefined", "and", "or", "not"]

def binaryOp? : Token → Option BinaryOp
  | .symbol .bars => some .or
  | .symbol .ampersands => some .and
  | .symbol .equal3 => some .strictEq
  | .symbol .notEqual3 => some .strictNe
  | .symbol .equal2 => some .eq
  | .symbol .notEqual2 => some .ne
  | .symbol .lessEqual => some .le
  | .symbol .greaterEqual => some .ge
  | .symbol .less => some .lt
  | .symbol .greater => some .gt
  | .symbol .plus => some .add
  | .symbol .minus => some .sub
  | .symbol .star => some .mul
  | .symbol .slash => some .div
  | .symbol .percent => some .rem
  | .word name => if name = "or" then some .or else if name = "and" then some .and else none
  | _ => none

def unaryOp? : Token → Option UnaryOp
  | .symbol .bang => some .not
  | .symbol .minus => some .neg
  | .symbol .plus => some .plus
  | .word name => if name = "not" then some .not else none
  | _ => none

def operand? : Token → Option Expr
  | .number digits => some (.literal (.number ((Binary64.read? digits).getD .nan)))
  | .text s => some (.literal (.text s))
  | .word name =>
    if name = "true" then some (.literal (.bool true))
    else if name = "false" then some (.literal (.bool false))
    else if name = "null" ∨ name = "undefined" then some (.literal .null)
    else if name ∈ keywords then none
    else some (.ident name)
  | .symbol _ => none

def infixAt? (level : Nat) : List Token → Option (BinaryOp × List Token)
  | [] => none
  | t :: ts =>
    match binaryOp? t with
    | some op => if op.level = level then some (op, ts) else none
    | none => none

def tightest : Nat := 6

mutual

/-- An expression in which every bare infix operator is of this level or a tighter one. -/
def readLevel : Nat → Nat → List Token → Option (Expr × List Token)
  | 0, _, _ => none
  | fuel + 1, level, ts =>
    if level < tightest then
      match readLevel fuel (level + 1) ts with
      | some (left, rest) => readInfix fuel level left rest
      | none => none
    else readUnary fuel ts

/-- The operators of one level after the expression to their left. -/
def readInfix : Nat → Nat → Expr → List Token → Option (Expr × List Token)
  | 0, _, _, _ => none
  | fuel + 1, level, left, ts =>
    match infixAt? level ts with
    | none => some (left, ts)
    | some (op, rest) =>
      match readLevel fuel (level + 1) rest with
      | some (right, rest) => readInfix fuel level (.binary op left right) rest
      | none => none

def readUnary : Nat → List Token → Option (Expr × List Token)
  | 0, _ => none
  | _ + 1, [] => none
  | fuel + 1, t :: ts =>
    match unaryOp? t with
    | some op => (readUnary fuel ts).map fun (operand, rest) => (.unary op operand, rest)
    | none =>
      match readOperand fuel (t :: ts) with
      | some (e, rest) => readSuffixes fuel e rest
      | none => none

def readOperand : Nat → List Token → Option (Expr × List Token)
  | 0, _ => none
  | _ + 1, [] => none
  | fuel + 1, t :: ts =>
    if t = .symbol .openParen then
      match readLevel fuel 0 ts with
      | some (e, .symbol .closeParen :: rest) => some (e, rest)
      | _ => none
    else (operand? t).map fun e => (e, ts)

def readSuffixes : Nat → Expr → List Token → Option (Expr × List Token)
  | 0, _, _ => none
  | fuel + 1, e, .symbol .dot :: .word name :: ts => readSuffixes fuel (.member e name) ts
  | fuel + 1, e, .symbol .openBracket :: ts =>
    match readLevel fuel 0 ts with
    | some (key, .symbol .closeBracket :: rest) => readSuffixes fuel (.index e key) rest
    | _ => none
  | fuel + 1, e, .symbol .openParen :: .symbol .closeParen :: ts => readSuffixes fuel (.call e []) ts
  | fuel + 1, e, .symbol .openParen :: ts =>
    match readLevel fuel 0 ts with
    | some (arg, rest) =>
      match readArgs fuel rest with
      | some (args, rest) => readSuffixes fuel (.call e (arg :: args)) rest
      | none => none
    | none => none
  | _ + 1, e, ts => some (e, ts)

/-- The arguments after the first one, up to the closing parenthesis. -/
def readArgs : Nat → List Token → Option (List Expr × List Token)
  | 0, _ => none
  | _ + 1, .symbol .closeParen :: ts => some ([], ts)
  | fuel + 1, .symbol .comma :: ts =>
    match readLevel fuel 0 ts with
    | some (arg, rest) => (readArgs fuel rest).map fun (args, rest) => (arg :: args, rest)
    | none => none
  | _ + 1, _ => none

end

/-- Enough for every nesting: no path of readers makes more than ten calls for one token. -/
def fuelFor (ts : List Token) : Nat := 10 * ts.length + 10

def ofTokens? (ts : List Token) : Option Expr :=
  match readLevel (fuelFor ts) 0 ts with
  | some (e, []) => some e
  | _ => none

def ofChars? (cs : List Char) : Option Expr := (tokens? cs).bind ofTokens?

end NoteQuery.Expr
