import NoteQuery.Value.Text

/-!
# Equality and order of values

Strict equality compares values of one kind, part by part. Loose equality also compares across
kinds. The order compares texts by their characters and everything else by number.
-/

namespace NoteQuery.Value

set_option autoImplicit false

mutual

def strictEq : Value → Value → Bool
  | text s, text t => s == t
  | number m, number n => m.numEq n
  | bool a, bool b => a == b
  | sequence xs, sequence ys => itemsEq xs ys
  | record fs, record gs => fieldsEq fs gs
  | absent, absent => true
  | _, _ => false

def itemsEq : List Value → List Value → Bool
  | [], [] => true
  | x :: xs, y :: ys => strictEq x y && itemsEq xs ys
  | _, _ => false

def fieldsEq : List (String × Value) → List (String × Value) → Bool
  | [], [] => true
  | (k, x) :: fs, (l, y) :: gs => k == l && strictEq x y && fieldsEq fs gs
  | _, _ => false

end

/-- Equality across kinds. An absent value equals only itself; numbers and booleans compare by
number; a collection meets a text as its text, and another collection part by part. -/
def looseEq : Value → Value → Bool
  | absent, absent => true
  | absent, _ => false
  | _, absent => false
  | text s, text t => s == t
  | number m, v => m.numEq v.toNumber
  | v, number n => v.toNumber.numEq n
  | bool a, v => (ofBool a).numEq v.toNumber
  | v, bool b => v.toNumber.numEq (ofBool b)
  | text s, v => s == v.toText
  | v, text t => v.toText == t
  | v, w => strictEq v w

/-- A collection stands for its text where a single value is needed. -/
def primitive : Value → Value
  | sequence items => text (toText (sequence items))
  | record fields => text (toText (record fields))
  | v => v

def compare? (v w : Value) : Option Ordering :=
  match v.primitive, w.primitive with
  | text s, text t => some (compare s t)
  | p, q => p.toNumber.compare? q.toNumber

end NoteQuery.Value
