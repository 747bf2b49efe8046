import NoteQuery.Number.Binary64

/-!
# Expressions

The trees of the expression language shared by conditions and placeholders.
-/

namespace NoteQuery

set_option autoImplicit false

inductive Literal where
  | text (s : String)
  | number (n : Binary64)
  | bool (b : Bool)
  | null
  deriving DecidableEq

inductive UnaryOp where
  | not
  | neg
  | plus
  deriving DecidableEq

inductive BinaryOp where
  | or
  | and
  | eq
  | ne
  | strictEq
  | strictNe
  | lt
  | le
  | gt
  | ge
  | add
  | sub
  | mul
  | div
  | rem
  deriving DecidableEq

/-- How tightly an operator binds; the loosest level is zero. -/
def BinaryOp.level : BinaryOp → Nat
  | .or => 0
  | .and => 1
  | .eq | .ne | .strictEq | .strictNe => 2
  | .lt | .le | .gt | .ge => 3
  | .add | .sub => 4
  | .mul | .div | .rem => 5

inductive Expr where
  | literal (l : Literal)
  | ident (name : String)
  | member (object : Expr) (name : String)
  | index (object : Expr) (key : Expr)
  | call (callee : Expr) (args : List Expr)
  | unary (op : UnaryOp) (operand : Expr)
  | binary (op : BinaryOp) (left right : Expr)

namespace Expr

instance : Inhabited Expr := ⟨literal .null⟩

/-- The names of a chain of member accesses that starts at an identifier. -/
def namePath : Expr → Option (List String)
  | ident name => some [name]
  | member object name => object.namePath.map (· ++ [name])
  | _ => none

end Expr

end NoteQuery
