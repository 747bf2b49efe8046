import NoteQuery.Text.CaseData

/-!
# Upper and lower case

The full case mappings: a character may have a form of several characters, and a capital sigma
becomes a final sigma at the end of a word.
-/

namespace NoteQuery.Case

set_option autoImplicit false

def Run.contains (r : Run) (n : Nat) : Bool := r.first ≤ n && n ≤ r.last && (n - r.first) % r.step == 0

def inRanges (ranges : List (Nat × Nat)) (c : Char) : Bool :=
  ranges.any fun (first, last) => first ≤ c.toNat && c.toNat ≤ last

def mapChar (sequences : List (Nat × List Nat)) (runs : List Run) (c : Char) : List Char :=
  match sequences.lookup c.toNat with
  | some ns => ns.map Char.ofNat
  | none =>
    match runs.find? (·.contains c.toNat) with
    | some r => [Char.ofNat (c.toNat + r.delta).toNat]
    | none => [c]

def upperChar : Char → List Char := mapChar upperSequences upperRuns

def lowerChar : Char → List Char := mapChar lowerSequences lowerRuns

def isIgnorable : Char → Bool := inRanges ignorableRanges

/-- Whether the first character that is not passed over has case. -/
def meetsCased (cs : List Char) : Bool :=
  match cs.dropWhile isIgnorable with
  | [] => false
  | c :: _ => inRanges casedRanges c

def upper (cs : List Char) : List Char := cs.flatMap upperChar

/-- Lowers the text that follows `before`, which is given from its end to its start. -/
def lowerAfter (before : List Char) : List Char → List Char
  | [] => []
  | c :: cs =>
    let form :=
      if c = 'Σ' then (if meetsCased before && !meetsCased cs then ['ς'] else ['σ']) else lowerChar c
    form ++ lowerAfter (c :: before) cs

def lower (cs : List Char) : List Char := lowerAfter [] cs

end NoteQuery.Case
