import NoteQuery.Number.Decimal

/-!
# Values of metadata

What a field of a note's metadata can hold. A record is a list of fields in
increasing order of their keys.
-/

namespace NoteQuery

set_option autoImplicit false

inductive Value where
  | text (s : String)
  | number (n : Binary64)
  | bool (b : Bool)
  | sequence (items : List Value)
  | record (fields : List (String × Value))
  | absent

/-- Fields in increasing order of their keys, each key once. -/
abbrev Record := List (String × Value)

namespace Record

def empty : Record := []

def get? (r : Record) (key : String) : Option Value := r.lookup key

/-- Sets a field; a field of the same key is replaced. -/
def insert (r : Record) (key : String) (value : Value) : Record :=
  match r with
  | [] => [(key, value)]
  | (k, v) :: rest =>
    if key < k then (key, value) :: (k, v) :: rest
    else if key = k then (key, value) :: rest
    else (k, v) :: insert rest key value

/-- The record of a list of fields, where a later field replaces an earlier one. -/
def ofList (fields : List (String × Value)) : Record := fields.foldl (fun r (k, v) => r.insert k v) empty

end Record

namespace Value

instance : Inhabited Value := ⟨absent⟩

def isAbsent : Value → Bool
  | absent => true
  | _ => false

def isTruthy : Value → Bool
  | text s => s != ""
  | number n => !n.isZero && !n.isNaN
  | bool b => b
  | sequence _ => true
  | record _ => true
  | absent => false

def kind : Value → String
  | text _ => "string"
  | number _ => "number"
  | bool _ => "boolean"
  | sequence _ => "array"
  | record _ => "object"
  | absent => "undefined"

/-- The item of a sequence at a position counted from zero. -/
def element? : Value → Nat → Option Value
  | sequence items, i => items[i]?
  | _, _ => none

end Value

end NoteQuery
