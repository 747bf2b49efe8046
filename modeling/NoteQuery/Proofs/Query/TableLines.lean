import NoteQuery.Proofs.Text.Pieces
import NoteQuery.Query.Run

/-!
# The lines of a table

A table whose cells have no line feed is written in lines that start with a bar,
one line for each of its rows.
-/

namespace NoteQuery

set_option autoImplicit false

open Text

/-- Lines of a table, without line ends. -/
structure Barred (rows : List (List Char)) : Prop where
  ne_nil : rows ≠ []
  head? : ∀ row ∈ rows, row.head? = some '|'
  not_mem : ∀ row ∈ rows, '\n' ∉ row

/-- The lines stay the same with something behind the last one that ends with the
only line feed in it, if any. -/
theorem Barred.head?_of_mem_pieces {rows : List (List Char)} (h : Barred rows) {tail ending : List Char}
    (htail : '\n' ∉ tail) (hending : ending = [] ∨ ending = ['\n']) :
    ∀ piece ∈ pieces (['\n'].intercalate rows ++ tail ++ ending), piece.head? = some '|' := by
  obtain ⟨hne, hhead, hmem⟩ := h
  induction rows with
  | nil => exact absurd rfl hne
  | cons row rows ih =>
    obtain ⟨hrow, hrows⟩ := List.forall_mem_cons.mp hhead
    obtain ⟨hrowMem, hrowsMem⟩ := List.forall_mem_cons.mp hmem
    obtain ⟨r, rfl⟩ := List.head?_eq_some_iff.mp hrow
    -- Only the last row has the tail behind it.
    cases rows with
    | nil =>
      have hline : '\n' ∉ ('|' :: r) ++ tail := by
        rw [List.mem_append]
        exact not_or.mpr ⟨hrowMem, htail⟩
      rw [List.intercalate_singleton]
      rcases hending with rfl | rfl
      · rw [List.append_nil, pieces_of_not_mem (by simp) hline]
        exact List.forall_mem_singleton.mpr rfl
      · rw [pieces_line hline]
        exact List.forall_mem_singleton.mpr rfl
    | cons next rows =>
      rw [List.intercalate_cons_cons, List.append_assoc, List.append_assoc, List.append_assoc,
        List.singleton_append, pieces_line hrowMem, ← List.append_assoc]
      exact List.forall_mem_cons.mpr ⟨rfl, ih (List.cons_ne_nil next rows) hrows hrowsMem⟩

theorem not_mem_intercalate_iff {c : Char} {sep : List Char} (hsep : c ∉ sep)
    {parts : List (List Char)} :
    c ∉ sep.intercalate parts ↔ ∀ part ∈ parts, c ∉ part := by
  induction parts with
  | nil => simp
  | cons part parts ih =>
    cases parts with
    | nil => rw [List.intercalate_singleton, List.forall_mem_singleton]
    | cons next parts =>
      rw [List.forall_mem_cons, ← ih, List.intercalate_cons_cons, List.mem_append,
        List.mem_append, not_or, not_or, and_iff_left hsep]

namespace Table

theorem toList_rowText (cells : List String) :
    (rowText cells).toList =
      '|' :: ' ' :: (" | ".toList.intercalate (cells.map String.toList) ++ " |".toList) := by
  rw [rowText, String.toList_append, String.toList_append, String.toList_intercalate]
  rfl

theorem not_mem_rowText_iff {cells : List String} :
    '\n' ∉ (rowText cells).toList ↔ ∀ c ∈ cells, '\n' ∉ c.toList := by
  have hcells : '\n' ∉ " | ".toList.intercalate (cells.map String.toList) ↔
    ∀ c ∈ cells, '\n' ∉ c.toList := by
    rw [not_mem_intercalate_iff (by decide), List.forall_mem_map]
  rw [toList_rowText, ← hcells]
  simp

theorem toList_markdown (t : Table) : t.markdown.toList = ['\n'].intercalate
    ((t.headers :: (t.headers.map fun _ => "---") :: t.rows).map fun cells =>
      (rowText cells).toList) := by
  rw [markdown, String.toList_intercalate, List.map_cons, List.map_cons, List.map_map]
  rfl

structure OneLine (t : Table) : Prop where
  headers : ∀ c ∈ t.headers, '\n' ∉ c.toList
  rows : ∀ row ∈ t.rows, ∀ c ∈ row, '\n' ∉ c.toList

theorem OneLine.exists_barred {t : Table} (h : t.OneLine) :
    ∃ rows, Barred rows ∧ t.markdown.toList = ['\n'].intercalate rows := by
  have hcells : ∀ cells ∈ t.headers :: (t.headers.map fun _ => "---") :: t.rows,
    ∀ c ∈ cells, '\n' ∉ c.toList :=
    List.forall_mem_cons.mpr ⟨h.headers, List.forall_mem_cons.mpr
      ⟨List.forall_mem_map.mpr fun _ _ => by decide, h.rows⟩⟩
  refine ⟨_, ⟨by simp, List.forall_mem_map.mpr fun cells _ => ?_, List.forall_mem_map.mpr fun cells hmem => ?_⟩,
    t.toList_markdown⟩
  · rw [toList_rowText]
    rfl
  · exact not_mem_rowText_iff.mpr (hcells cells hmem)

end Table

end NoteQuery
