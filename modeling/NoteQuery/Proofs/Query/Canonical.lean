import NoteQuery.Proofs.Text.Blank
import NoteQuery.Proofs.Text.Pieces
import NoteQuery.Query.Clause

/-!
# The form of a query that was read

Each text of such a query is not empty, has no blanks around it and stands on one line. A field is
given by its source, which has no comma.
-/

namespace NoteQuery

set_option autoImplicit false

open Text

/-- A text that a clause can hold as it is. -/
structure Plain (cs : List Char) : Prop where
  ne_nil : cs ≠ []
  trim_eq : trim cs = cs
  not_mem : '\n' ∉ cs

theorem plain_trim {cs : List Char} (hne : trim cs ≠ []) (h : '\n' ∉ cs) : Plain (trim cs) :=
  ⟨hne, trim_trim cs, fun hmem => h (mem_of_mem_trim hmem)⟩

namespace Field

/-- A field whose source says all of it and can stand between commas. -/
structure Canonical (f : Field) : Prop where
  plain : Plain f.source.toList
  comma : ',' ∉ f.source.toList
  ofText_source : ofText f.source = f

theorem source_ofChars (cs : List Char) : (ofChars cs).source = String.ofList (trim cs) := by
  rw [ofChars]
  split <;> rfl

end Field

namespace Query

structure Canonical (q : Query) : Prop where
  fields_ne_nil : q.fields ≠ []
  fields : ∀ f ∈ q.fields, f.Canonical
  tag : Plain q.tag.toList
  condition : ∀ c, q.condition = some c → Plain c.toList

theorem not_mem_of_clause? {keyword : String} {cs clause : List Char}
    (h : clause? keyword (clauseLines cs) = some clause) : '\n' ∉ clause := by
  obtain ⟨line, hline, hclause⟩ := List.exists_of_findSome?_eq_some h
  have hmem := not_mem_of_mem_lines (List.mem_filter.mp hline).1
  rw [after?_eq_some_iff.mp hclause, List.mem_append] at hmem
  exact fun h => hmem (.inr h)

theorem canonical_of_mem_fieldsOf {clause : List Char} (h : '\n' ∉ clause) {f : Field}
    (hf : f ∈ fieldsOf clause) :
    f.Canonical := by
  obtain ⟨part, hpart, rfl⟩ := List.mem_map.mp hf
  obtain ⟨hpart, hne⟩ := List.mem_filter.mp hpart
  obtain ⟨raw, hraw, rfl⟩ := List.mem_map.mp hpart
  have hsource : (Field.ofChars (trim raw)).source.toList = trim raw := by
    rw [Field.source_ofChars, trim_trim, String.toList_ofList]
  have hplain : Plain (trim raw) :=
    plain_trim (by simpa using hne) fun hmem => h (mem_of_mem_splitOn hraw hmem).1
  constructor
  · rw [hsource]
    exact hplain
  · rw [hsource]
    intro hmem
    cases (mem_of_mem_splitOn hraw (mem_of_mem_trim hmem)).2
  · rw [Field.ofText, hsource]

theorem plain_tagOf {clause : List Char} (h : '\n' ∉ clause) (hne : tagOf clause ≠ []) :
    Plain (tagOf clause) := by
  rw [tagOf] at hne ⊢
  split at hne
  · rename_i r hr
    refine plain_trim hne fun hmem => h (mem_of_mem_trim ?_)
    rw [hr]
    exact List.mem_cons_of_mem _ hmem
  · exact plain_trim hne h

theorem plain_of_conditionOf {clause : List Char} (h : '\n' ∉ clause) {c : String}
    (hc : conditionOf clause = some c) :
    Plain c.toList := by
  rw [conditionOf] at hc
  split at hc
  · cases hc
  · rename_i hne
    cases hc
    rw [String.toList_ofList]
    exact plain_trim hne h

theorem canonical_of_ofChars {cs : List Char} {q : Query} (h : ofChars cs = .ok q) : q.Canonical := by
  obtain ⟨table, source, htable, hsource, hfields, htag, rfl⟩ := ofChars_eq_ok_iff.mp h
  constructor
  · exact hfields
  · intro f hf
    exact canonical_of_mem_fieldsOf (not_mem_of_clause? htable) hf
  · rw [String.toList_ofList]
    exact plain_tagOf (not_mem_of_clause? hsource) htag
  · intro c hc
    obtain ⟨clause, hclause, hc⟩ := Option.bind_eq_some_iff.mp hc
    exact plain_of_conditionOf (not_mem_of_clause? hclause) hc

end Query

end NoteQuery
