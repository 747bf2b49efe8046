import Mathlib.Data.List.Sort

/-!
# Tables by name

What is found under a name in a table. Where every name stands once, the order of the table does not
matter, and sorting puts the names in strict order.
-/

namespace NoteQuery.Text

set_option autoImplicit false

section Lookup

variable {κ α : Type} [DecidableEq κ] {table : List (κ × α)} {name : κ} {v : α}

theorem mem_of_lookup (h : table.lookup name = some v) : (name, v) ∈ table := by
  obtain ⟨before, rest, rfl, -⟩ := List.lookup_eq_some_iff.mp h
  exact List.mem_append_right before List.mem_cons_self

theorem lookup_of_mem (hnodup : (table.map Prod.fst).Nodup) (h : (name, v) ∈ table) :
    table.lookup name = some v := by
  obtain ⟨before, rest, rfl⟩ := List.append_of_mem h
  refine List.lookup_eq_some_iff.mpr ⟨before, rest, rfl, fun entry hentry => ?_⟩
  rw [List.map_append, List.map_cons] at hnodup
  have hdisjoint := (List.nodup_append.mp hnodup).2.2
  exact bne_iff_ne.mpr (hdisjoint entry.1 (List.mem_map_of_mem hentry) name List.mem_cons_self).symm

theorem lookup_eq_none_iff : table.lookup name = none ↔ name ∉ table.map Prod.fst := by
  rw [List.lookup_eq_none_iff, List.mem_map]
  constructor
  · rintro h ⟨entry, hentry, rfl⟩
    exact bne_iff_ne.mp (h entry hentry) rfl
  · exact fun h entry hentry => bne_iff_ne.mpr fun hname => h ⟨entry, hentry, hname.symm⟩

theorem lookup_eq_of_perm {other : List (κ × α)} (h : table.Perm other)
    (hnodup : (table.map Prod.fst).Nodup) (name : κ) : table.lookup name = other.lookup name := by
  cases hlookup : other.lookup name with
  | none =>
    exact lookup_eq_none_iff.mpr fun hmem =>
      lookup_eq_none_iff.mp hlookup ((h.map Prod.fst).mem_iff.mp hmem)
  | some v => exact lookup_of_mem hnodup (h.mem_iff.mpr (mem_of_lookup hlookup))

end Lookup

section Sorting

variable {κ α : Type} [LE κ] [DecidableLE κ] [Std.IsLinearOrder κ]

theorem pairwise_mergeSort_le (name : α → κ) (table : List α) :
    (table.mergeSort fun a b => decide (name a ≤ name b)).Pairwise fun a b => name a ≤ name b := by
  refine (List.pairwise_mergeSort ?_ ?_ table).imp of_decide_eq_true
  · intro a b c hab hbc
    exact decide_eq_true (Std.le_trans (of_decide_eq_true hab) (of_decide_eq_true hbc))
  · intro a b
    rw [Bool.or_eq_true, decide_eq_true_iff, decide_eq_true_iff]
    exact Std.le_total

theorem pairwise_mergeSort [LT κ] [Std.LawfulOrderLT κ] (name : α → κ) {table : List α}
    (hnodup : (table.map name).Nodup) :
    (table.mergeSort fun a b => decide (name a ≤ name b)).Pairwise fun a b => name a < name b := by
  have hne : (table.mergeSort fun a b => decide (name a ≤ name b)).Pairwise fun a b => name a ≠ name b :=
    List.pairwise_map.mp (((List.mergeSort_perm table _).map name).nodup_iff.mpr hnodup)
  exact (pairwise_mergeSort_le name table).imp₂ (fun _ _ => Std.lt_of_le_of_ne) hne

end Sorting

end NoteQuery.Text
