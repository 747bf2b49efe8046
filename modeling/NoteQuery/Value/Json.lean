import NoteQuery.Value.Basic

/-!
# JSON text

The compact JSON text of a value, in which every number has a fraction or an exponent and what has
no number is `null`, and the indented text of lists of strings.
-/

namespace NoteQuery.Json

set_option autoImplicit false

/-- Plain form for leading exponents from -5 to 15, a fraction on whole numbers,
signed exponents, ties to even. -/
def numberStyle : Decimal.Style := ⟨-5, 15, true, true, .toEven⟩

def numberText : Binary64 → List Char
  | .finite s m =>
    let body := if m.place = 0 then ['0', '.', '0'] else (m.shortest numberStyle.tie).text numberStyle
    if s then '-' :: body else body
  | _ => "null".toList

def hexDigit (n : Nat) : Char := Nat.digitChar n

def escaped (c : Char) : List Char :=
  if c = '"' then ['\\', '"']
  else if c = '\\' then ['\\', '\\']
  else if c = '\n' then ['\\', 'n']
  else if c = '\t' then ['\\', 't']
  else if c = '\r' then ['\\', 'r']
  else if c.toNat = 8 then ['\\', 'b']
  else if c.toNat = 12 then ['\\', 'f']
  else if c.toNat < 32 then ['\\', 'u', '0', '0', hexDigit (c.toNat / 16), hexDigit (c.toNat % 16)]
  else [c]

def quoted (cs : List Char) : List Char := '"' :: (cs.flatMap escaped ++ ['"'])

mutual

def compact : Value → List Char
  | .text s => quoted s.toList
  | .number n => numberText n
  | .bool b => (if b then "true" else "false").toList
  | .sequence items => '[' :: (List.intercalate [','] (compactItems items) ++ [']'])
  | .record fields => '\x7b' :: (List.intercalate [','] (compactFields fields) ++ ['\x7d'])
  | .absent => "null".toList

def compactItems : List Value → List (List Char)
  | [] => []
  | v :: vs => compact v :: compactItems vs

def compactFields : List (String × Value) → List (List Char)
  | [] => []
  | (k, v) :: rest => (quoted k.toList ++ ':' :: compact v) :: compactFields rest

end

/-- The items of an array, each on a line of its own below `indent` spaces. -/
def indentedArray (indent : Nat) (items : List (List Char)) : List Char :=
  if items.isEmpty then ['[', ']']
  else
    let margin := '\n' :: List.replicate indent ' '
    '[' :: (List.intercalate [','] (items.map fun item => margin ++ ' ' :: ' ' :: item) ++
      margin ++ [']'])

end NoteQuery.Json
