import NoteQuery.Expr.Error
import NoteQuery.Expr.Parser
import NoteQuery.Text.Case
import NoteQuery.Value.Compare

/-!
# Evaluation

An expression is evaluated against an environment, which holds all the names that it can see.
-/

namespace NoteQuery

set_option autoImplicit false

structure Environment where
  value? : String → Option Value
  isNamespace : String → Bool
  /-- The result of the helper at a path, if there is one. -/
  call? : List String → List Value → Option (Except EvalError Value)

def Environment.ofRecord (r : Record) : Environment where
  value? := r.get?
  isNamespace _ := false
  call? _ _ := none

namespace Value

def ofLiteral : Literal → Value
  | .text s => text s
  | .number n => number n
  | .bool b => bool b
  | .null => absent

def ofNat (n : Nat) : Value := number (Binary64.ofNat n)

/-- A property by its name. Sequences and texts have a length, which for a
text counts units of 16 bits. -/
def property : Value → String → Except EvalError Value
  | absent, name => .error (.propertyOfAbsent name)
  | sequence items, name => .ok (if name = "length" then ofNat items.length else absent)
  | text s, name => .ok (if name = "length" then ofNat (Text.units16 s.toList) else absent)
  | record fields, name => .ok ((Record.get? fields name).getD absent)
  | _, _ => .ok absent

/-- The position that a key stands for: a whole number below 2^32, or a text of digits below 2^64. -/
def position? : Value → Option Nat
  | number n => n.toNat?.filter (· < Nat.pow 2 32)
  | text s =>
    let cs := s.toList
    if cs.isEmpty || !cs.all Decimal.isDigit then none
    else some (Decimal.ofDigits cs) |>.filter (· < Nat.pow 2 64)
  | _ => none

/-- What stands at a key: an item, a character, or else the property that the text of the key names. -/
def itemAt (target key : Value) : Except EvalError Value :=
  match target, key.position? with
  | sequence items, some i => .ok (items[i]?.getD absent)
  | text s, some i => .ok ((s.toList[i]?.map fun c => text c.toString).getD absent)
  | v, _ => v.property key.toText

def occursIn (needle : List Char) : List Char → Bool
  | [] => needle.isEmpty
  | c :: cs => needle.isPrefixOf (c :: cs) || occursIn needle cs

def method (target : Value) (name : String) (args : List Value) : Except EvalError Value :=
  let arg := args.headD absent
  match target with
  | absent => .error (.propertyOfAbsent name)
  | sequence items =>
    if name = "includes" then .ok (bool (items.any (strictEq · arg)))
    else .error (.notAFunction ("array." ++ name))
  | text s =>
    let cs := s.toList
    if name = "includes" then .ok (bool (occursIn arg.chars cs))
    else if name = "startsWith" then .ok (bool (arg.chars.isPrefixOf cs))
    else if name = "endsWith" then .ok (bool (arg.chars.isSuffixOf cs))
    else if name = "toLowerCase" then .ok (text (String.ofList (Case.lower cs)))
    else if name = "toUpperCase" then .ok (text (String.ofList (Case.upper cs)))
    else if name = "trim" then .ok (text (String.ofList (Text.trim cs)))
    else .error (.notAFunction ("string." ++ name))
  | v => .error (.notAFunction (v.kind ++ "." ++ name))

def unary (op : UnaryOp) (v : Value) : Value :=
  match op with
  | .not => bool (!v.isTruthy)
  | .neg => number (-v.toNumber)
  | .plus => number v.toNumber

def isText : Value → Bool
  | text _ => true
  | _ => false

/-- Texts are joined; without a text among the operands their numbers are added. -/
def sum (v w : Value) : Value :=
  let p := v.primitive
  let q := w.primitive
  if p.isText || q.isText then text (p.toText ++ q.toText) else number (p.toNumber + q.toNumber)

def binary (op : BinaryOp) (v w : Value) : Value :=
  match op with
  | .eq => bool (looseEq v w)
  | .ne => bool (!looseEq v w)
  | .strictEq => bool (strictEq v w)
  | .strictNe => bool (!strictEq v w)
  | .lt => bool (compare? v w == some .lt)
  | .le => bool (compare? v w == some .lt || compare? v w == some .eq)
  | .gt => bool (compare? v w == some .gt)
  | .ge => bool (compare? v w == some .gt || compare? v w == some .eq)
  | .add => sum v w
  | .sub => number (v.toNumber - w.toNumber)
  | .mul => number (v.toNumber * w.toNumber)
  | .div => number (v.toNumber / w.toNumber)
  | .rem => number (v.toNumber % w.toNumber)
  | .or => if v.isTruthy then v else w
  | .and => if v.isTruthy then w else v

end Value

namespace Environment

def lookup (env : Environment) (name : String) : Except EvalError Value :=
  match env.value? name with
  | some v => .ok v
  | none => .error (if env.isNamespace name then .namespaceAsValue name else .undefined name)

/-- A call of a helper at a path. A path that cannot be a method has an answer of its
own when no helper is there. -/
def callPath? (env : Environment) (path : List String) (args : List Value) :
    Option (Except EvalError Value) :=
  match env.call? path args with
  | some result => some result
  | none =>
    if path.length = 1 || env.isNamespace (path.headD "") then
      some (.error (.notAFunction (".".intercalate path)))
    else none

end Environment

namespace Expr

mutual

def eval (env : Environment) : Expr → Except EvalError Value
  | literal l => .ok (.ofLiteral l)
  | ident name => env.lookup name
  | member object name => do (← eval env object).property name
  | index object key => do
    let target ← eval env object
    let k ← eval env key
    target.itemAt k
  | call callee args => do
    let values ← evalAll env args
    match callee.namePath.bind (env.callPath? · values) with
    | some result => result
    | none => evalMethod env callee values
  | unary op operand => do return (← eval env operand).unary op
  | binary .or left right => do
    let v ← eval env left
    if v.isTruthy then return v else eval env right
  | binary .and left right => do
    let v ← eval env left
    if v.isTruthy then eval env right else return v
  | binary op left right => do
    let v ← eval env left
    let w ← eval env right
    return v.binary op w

/-- The call of a member as a method of the object; nothing else can be called. -/
def evalMethod (env : Environment) (callee : Expr) (args : List Value) : Except EvalError Value :=
  match callee with
  | member object name => do (← eval env object).method name args
  | _ => .error (.notAFunction "expression")

def evalAll (env : Environment) : List Expr → Except EvalError (List Value)
  | [] => .ok []
  | e :: es => do
    let v ← eval env e
    let vs ← evalAll env es
    return v :: vs

end

def parse (source : String) : Except EvalError Expr :=
  EvalError.ofOption source.toList (ofChars? source.toList)

def evalText (env : Environment) (source : String) : Except EvalError Value :=
  do (← parse source).eval env

end Expr

end NoteQuery
