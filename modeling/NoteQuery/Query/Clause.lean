import NoteQuery.Query.Field
import NoteQuery.Text.Lines

/-!
# Queries

A query is written in clauses, one on a line, in any order: `table` and its fields, `from` and a
tag, `where` and a condition. The first line of each keyword counts; other lines are passed over.
-/

namespace NoteQuery

set_option autoImplicit false

structure Query where
  fields : List Field
  /-- The tag that a note must have, without its hash. -/
  tag : String
  condition : Option String
  deriving DecidableEq

inductive QueryError where
  | notABlock (fence : String)
  | missingTable
  | missingFrom
  | noFields
  | noTag
  deriving DecidableEq

def QueryError.message : QueryError → String
  | notABlock fence => "selected text is not a `" ++ fence ++ "` query block"
  | missingTable => "invalid query format: missing `table` clause"
  | missingFrom => "invalid query format: missing `from` clause"
  | noFields => "`table` clause lists no fields"
  | noTag => "`from` clause names no tag"

namespace Query

def fenceMark : List Char := "```".toList

def isClauseLine (line : List Char) : Bool :=
  let t := Text.trimStart line
  t != [] && !fenceMark.isPrefixOf t

def clauseLines (cs : List Char) : List (List Char) := (Text.lines cs).filter isClauseLine

def clause? (keyword : String) (lines : List (List Char)) : Option (List Char) :=
  lines.findSome? (Text.after? keyword.toList)

def fieldsOf (clause : List Char) : List Field :=
  (((Text.splitOn (· == ',') clause).map Text.trim).filter (· != [])).map Field.ofChars

/-- A tag without blanks around it and without one leading hash. -/
def tagOf (clause : List Char) : List Char :=
  match Text.trim clause with
  | '#' :: r => Text.trim r
  | r => r

def conditionOf (clause : List Char) : Option String :=
  match Text.trim clause with
  | [] => none
  | cs => some (String.ofList cs)

def ofChars (cs : List Char) : Except QueryError Query :=
  let lines := clauseLines cs
  match clause? "table" lines, clause? "from" lines with
  | none, _ => .error .missingTable
  | some _, none => .error .missingFrom
  | some table, some source =>
    let fields := fieldsOf table
    let tag := tagOf source
    if fields.isEmpty then .error .noFields
    else if tag.isEmpty then .error .noTag
    else .ok ⟨fields, String.ofList tag, (clause? "where" lines).bind conditionOf⟩

def ofText (s : String) : Except QueryError Query := ofChars s.toList

theorem ofChars_eq_ok_iff {cs : List Char} {q : Query} : ofChars cs = .ok q ↔
    ∃ table source, clause? "table" (clauseLines cs) = some table ∧
      clause? "from" (clauseLines cs) = some source ∧
      fieldsOf table ≠ [] ∧ tagOf source ≠ [] ∧
      q = ⟨fieldsOf table, String.ofList (tagOf source),
        (clause? "where" (clauseLines cs)).bind conditionOf⟩ := by
  rw [ofChars]
  cases clause? "table" (clauseLines cs) with
  | none => simp
  | some table =>
    cases clause? "from" (clauseLines cs) with
    | none => simp
    | some source =>
      by_cases hfields : fieldsOf table = []
      · simp [hfields]
      · by_cases htag : tagOf source = []
        · simp [hfields, htag]
        · simpa [hfields, htag] using eq_comm

end Query

end NoteQuery
