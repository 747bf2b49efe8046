import NoteQuery.Expr.Eval

/-!
# Conditions

A condition is an expression over the fields of a note. One that cannot be
read or evaluated does not hold.
-/

namespace NoteQuery

set_option autoImplicit false

structure Condition where
  source : String
  expr : Except EvalError Expr

namespace Condition

def ofText (source : String) : Condition := ⟨source, Expr.parse source⟩

def evaluate (c : Condition) (r : Record) : Except EvalError Bool := do
  let v ← (← c.expr).eval (.ofRecord r)
  return v.isTruthy

def holds (c : Condition) (r : Record) : Bool :=
  match c.evaluate r with
  | .ok b => b
  | .error _ => false

end Condition

end NoteQuery
