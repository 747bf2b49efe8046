import NoteQuery.Expr.Expected

/-!
# Why an expression has no value
-/

namespace NoteQuery

set_option autoImplicit false

inductive EvalError where
  | malformed (expectation : Expr.Expectation)
  | undefined (name : String)
  | notAFunction (callee : String)
  | propertyOfAbsent (property : String)
  | namespaceAsValue (name : String)
  /-- The format of a date is not a text; the kind of what was given, if anything was. -/
  | formatNotText (kind : Option String)
  | dateOutOfRange
  deriving DecidableEq

def EvalError.message : EvalError → String
  | malformed e => "syntax error: " ++ e.text
  | undefined name => name ++ " is not defined"
  | notAFunction callee => callee ++ " is not a function"
  | propertyOfAbsent property => "cannot read properties of undefined (reading '" ++ property ++ "')"
  | namespaceAsValue name => name ++ " is a helper namespace, not a value"
  | formatNotText kind => "tp.date.now expects a format string, got " ++ kind.getD "nothing"
  | dateOutOfRange => "date out of range"

/-- Reads an expression, or says what it lacks. -/
def EvalError.ofOption {α : Type} (source : List Char) : Option α → Except EvalError α
  | some a => .ok a
  | none => .error (malformed (Expr.expectation source))

end NoteQuery
