import NoteQuery.Proofs.Text.Pieces

/-!
# Carriage returns at the ends of lines

A text with a carriage return in front of each line feed has the same pieces with the carriage
return added, and the same lines if it had no carriage returns before.
-/

namespace NoteQuery.Text

set_option autoImplicit false

/-- A text with a carriage return in front of each line feed. -/
def withReturns (cs : List Char) : List Char :=
  cs.flatMap fun c => if c = '\n' then ['\r', '\n'] else [c]

@[simp] theorem withReturns_append (xs ys : List Char) :
    withReturns (xs ++ ys) = withReturns xs ++ withReturns ys :=
  List.flatMap_append

theorem withReturns_cons_lineFeed (cs : List Char) :
    withReturns ('\n' :: cs) = '\r' :: '\n' :: withReturns cs := rfl

theorem withReturns_cons_of_ne {c : Char} (h : c ≠ '\n') (cs : List Char) :
    withReturns (c :: cs) = c :: withReturns cs := by
  rw [withReturns, List.flatMap_cons, if_neg h]
  rfl

theorem withReturns_of_not_mem {cs : List Char} (h : '\n' ∉ cs) : withReturns cs = cs := by
  induction cs with
  | nil => rfl
  | cons c cs ih =>
    rw [withReturns_cons_of_ne (List.ne_of_not_mem_cons h).symm, ih (List.not_mem_of_not_mem_cons h)]

theorem pieces_withReturns (cs : List Char) : pieces (withReturns cs) = (pieces cs).map withReturns := by
  induction cs with
  | nil => rfl
  | cons c cs ih =>
    by_cases hc : c = '\n'
    · rw [hc, withReturns_cons_lineFeed, pieces, if_neg (by decide), pieces, if_pos rfl,
        ih, pieces, if_pos rfl]
      rfl
    · rw [withReturns_cons_of_ne hc, pieces, if_neg hc, ih, pieces, if_neg hc]
      cases pieces cs with
      | nil => rw [List.map_nil, List.map_singleton, withReturns_cons_of_ne hc]; rfl
      | cons p ps => rw [List.map_cons, List.map_cons, withReturns_cons_of_ne hc]

theorem dropLineEnd_withReturns {cs piece : List Char} (h : '\r' ∉ cs) (hpiece : piece ∈ pieces cs) :
    dropLineEnd (withReturns piece) = dropLineEnd piece := by
  have hreturn : '\r' ∉ piece := by
    intro hmem
    rw [← flatten_pieces cs] at h
    exact h (List.mem_flatten.mpr ⟨piece, hpiece, hmem⟩)
  obtain ⟨body, hbody, rfl | rfl⟩ := exists_body_of_mem_pieces hpiece
  · have hlast : body.getLast? ≠ some '\r' := by
      intro hlast
      exact hreturn (List.mem_append_left _ (List.mem_of_getLast? hlast))
    rw [dropLineEnd_line_eq_self_iff.mpr hlast, withReturns_append, withReturns_of_not_mem hbody]
    simp [dropLineEnd, withReturns]
  · rw [withReturns_of_not_mem hbody]

theorem lines_withReturns {cs : List Char} (h : '\r' ∉ cs) : lines (withReturns cs) = lines cs := by
  rw [lines, pieces_withReturns, List.map_map, lines]
  exact List.map_congr_left fun piece hpiece => dropLineEnd_withReturns h hpiece

theorem trimStart_withReturns (cs : List Char) :
    trimStart (withReturns cs) = withReturns (trimStart cs) := by
  induction cs with
  | nil => rfl
  | cons c cs ih =>
    by_cases hc : c = '\n'
    · rw [hc, withReturns_cons_lineFeed, trimStart_cons_of_pos (by decide),
        trimStart_cons_of_pos (by decide), ih, trimStart_cons_of_pos (by decide)]
    · rw [withReturns_cons_of_ne hc]
      cases hblank : isBlank c with
      | true => rw [trimStart_cons_of_pos hblank, trimStart_cons_of_pos hblank, ih]
      | false => rw [trimStart_cons_of_neg hblank, trimStart_cons_of_neg hblank,
        withReturns_cons_of_ne hc]

end NoteQuery.Text
