import NoteQuery.Calendar.Names
import NoteQuery.Expr.Error
import NoteQuery.Expr.Eval

/-!
# The helpers of templates

The namespace of date helpers. All of them read one instant.
-/

namespace NoteQuery

set_option autoImplicit false

def Text.replaceFirst (part value : List Char) : List Char → List Char
  | [] => if part = [] then value else []
  | c :: cs =>
    match Text.after? part (c :: cs) with
    | some rest => value ++ rest
    | none => c :: Text.replaceFirst part value cs

namespace Instant

def ordinal (n : Nat) : String :=
  let ending :=
    if 11 ≤ n % 100 ∧ n % 100 ≤ 13 then "th"
    else if n % 10 = 1 then "st"
    else if n % 10 = 2 then "nd"
    else if n % 10 = 3 then "rd"
    else "th"
  toString n ++ ending

/-- The tokens of a format with their values, in the order in which they are replaced. -/
def tokens (now : Instant) : List (String × String) := [
  ("dddd", now.date.dayName),
  ("MMMM", now.date.monthName),
  ("Do", ordinal now.date.day),
  ("YYYY", toString now.date.year),
  ("MM", Calendar.padded 2 now.date.month),
  ("DD", Calendar.padded 2 now.date.day),
  ("HH", Calendar.padded 2 now.hour),
  ("mm", Calendar.padded 2 now.minute),
  ("ss", Calendar.padded 2 now.second)]

/-- Replaces the first occurrence of each token, one token after the other. -/
def format (now : Instant) (cs : List Char) : List Char :=
  now.tokens.foldl (fun text (token, value) => Text.replaceFirst token.toList value.toList text) cs

def dateValue (d : Option Date) : Except EvalError Value :=
  match d with
  | some d => .ok (.text d.isoText)
  | none => .error .dateOutOfRange

def helper? (now : Instant) (name : String) (args : List Value) : Option (Except EvalError Value) :=
  if name = "now" then
    some (match args.head? with
      | some (.text s) => .ok (.text (String.ofList (now.format s.toList)))
      | other => .error (.formatNotText (other.map Value.kind)))
  else if name = "today" then some (dateValue (some now.date))
  else if name = "tomorrow" then some (dateValue now.date.next?)
  else if name = "yesterday" then some (dateValue now.date.previous?)
  else if name = "getCurrentWeek" then some (.ok (.ofNat now.date.week))
  else none

/-- The environment of templates: no variables, and helpers at `tp.date`. -/
def environment (now : Instant) : Environment where
  value? _ := none
  isNamespace name := name == "tp"
  call? path args :=
    match path with
    | [root, group, name] => if root = "tp" ∧ group = "date" then now.helper? name args else none
    | _ => none

end Instant

end NoteQuery
