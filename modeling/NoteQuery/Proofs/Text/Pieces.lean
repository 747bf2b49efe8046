import NoteQuery.Proofs.Text.Blank
import NoteQuery.Text.Lines

/-!
# The pieces of a text

A text is cut after each line feed, and only there. So each piece has at most one line feed, at its
end, and only the last piece may lack it.
-/

namespace NoteQuery.Text

set_option autoImplicit false

theorem pieces_ne_nil {cs : List Char} (h : cs ≠ []) : pieces cs ≠ [] := by
  intro hnil
  have hflatten := flatten_pieces cs
  rw [hnil] at hflatten
  exact h hflatten.symm

theorem pieces_append_line (xs ys : List Char) :
    pieces (xs ++ '\n' :: ys) = pieces (xs ++ ['\n']) ++ pieces ys := by
  induction xs with
  | nil => rfl
  | cons c xs ih =>
    rw [List.cons_append, List.cons_append, pieces, pieces, ih]
    split
    · rfl
    · have hne : xs ++ ['\n'] ≠ [] := by simp
      obtain ⟨p, ps, hp⟩ := List.exists_cons_of_ne_nil (pieces_ne_nil hne)
      rw [hp]
      rfl

theorem pieces_of_not_mem {cs : List Char} (hne : cs ≠ []) (h : '\n' ∉ cs) : pieces cs = [cs] := by
  induction cs with
  | nil => exact absurd rfl hne
  | cons c cs ih =>
    rw [pieces, if_neg (List.ne_of_not_mem_cons h).symm]
    cases cs with
    | nil => rfl
    | cons d cs => rw [ih (List.cons_ne_nil d cs) (List.not_mem_of_not_mem_cons h)]

theorem pieces_line {body : List Char} (h : '\n' ∉ body) (rest : List Char) :
    pieces (body ++ '\n' :: rest) = (body ++ ['\n']) :: pieces rest := by
  induction body with
  | nil => rfl
  | cons c body ih =>
    rw [List.cons_append, pieces, if_neg (List.ne_of_not_mem_cons h).symm,
      ih (List.not_mem_of_not_mem_cons h)]
    rfl

/-- The first piece ends with the first line feed, or it is the whole text. -/
theorem pieces_eq_cons {cs line : List Char} {lines : List (List Char)} (h : pieces cs = line :: lines) :
    (∃ body rest, '\n' ∉ body ∧ line = body ++ ['\n'] ∧ lines = pieces rest) ∨
      '\n' ∉ line ∧ cs = line ∧ lines = [] := by
  by_cases hmem : '\n' ∈ cs
  · obtain ⟨body, rest, rfl, hbody⟩ := List.eq_append_cons_of_mem hmem
    rw [pieces_line hbody] at h
    cases h
    exact .inl ⟨body, rest, hbody, rfl, rfl⟩
  · have hne : cs ≠ [] := by
      rintro rfl
      cases h
    rw [pieces_of_not_mem hne hmem] at h
    cases h
    exact .inr ⟨hmem, rfl, rfl⟩

theorem exists_line_of_one_lt_length {cs : List Char} (h : 1 < (pieces cs).length) :
    ∃ body rest, '\n' ∉ body ∧ body ++ '\n' :: rest = cs := by
  obtain ⟨line, behind, hpieces⟩ := List.exists_cons_of_length_pos (Nat.lt_trans Nat.zero_lt_one h)
  rcases pieces_eq_cons hpieces with ⟨body, rest, hbody, rfl, rfl⟩ | ⟨-, -, rfl⟩
  · refine ⟨body, rest, hbody, ?_⟩
    rw [← flatten_pieces cs, hpieces, List.flatten_cons, flatten_pieces, List.append_assoc,
      List.singleton_append]
  · rw [hpieces] at h
    exact absurd h (Nat.lt_irrefl 1)

theorem exists_pieces_eq_of_append {cs : List Char} (xs : List (List Char)) {ys : List (List Char)}
    (h : pieces cs = xs ++ ys) :
    ∃ rest, ys = pieces rest := by
  induction xs generalizing cs with
  | nil => exact ⟨cs, h.symm⟩
  | cons line xs ih =>
    rcases pieces_eq_cons h with ⟨body, rest, -, -, hrest⟩ | ⟨-, -, hnil⟩
    · exact ih hrest.symm
    · exact ⟨[], (List.append_eq_nil_iff.mp hnil).2⟩

/-- Lines are found again in the text that they make up, together with those behind them. -/
theorem pieces_flatMap_append {bodies : List (List Char)} (h : ∀ body ∈ bodies, '\n' ∉ body)
    (rest : List Char) :
    pieces (bodies.flatMap (· ++ ['\n']) ++ rest) = bodies.map (· ++ ['\n']) ++ pieces rest := by
  induction bodies with
  | nil => rfl
  | cons body bodies ih =>
    obtain ⟨hbody, hbodies⟩ := List.forall_mem_cons.mp h
    rw [List.flatMap_cons, List.append_assoc, List.append_assoc, List.singleton_append,
      pieces_line hbody, ih hbodies]
    rfl

theorem exists_bodies_of_pieces_eq {cs last : List Char} (xs : List (List Char)) {ys : List (List Char)}
    (h : pieces cs = xs ++ last :: ys) :
    ∃ bodies : List (List Char), (∀ body ∈ bodies, '\n' ∉ body) ∧ xs = bodies.map (· ++ ['\n']) := by
  induction xs generalizing cs with
  | nil => exact ⟨[], List.forall_mem_nil _, rfl⟩
  | cons line xs ih =>
    rcases pieces_eq_cons h with ⟨body, rest, hbody, rfl, hrest⟩ | ⟨-, -, hnil⟩
    · obtain ⟨bodies, hbodies, rfl⟩ := ih hrest.symm
      exact ⟨body :: bodies, List.forall_mem_cons.mpr ⟨hbody, hbodies⟩, rfl⟩
    · exact absurd hnil (List.append_ne_nil_of_right_ne_nil xs (List.cons_ne_nil last ys))

theorem exists_body_of_mem_pieces {cs piece : List Char} (h : piece ∈ pieces cs) :
    ∃ body, '\n' ∉ body ∧ (piece = body ++ ['\n'] ∨ piece = body) := by
  obtain ⟨xs, ys, hsplit⟩ := List.append_of_mem h
  obtain ⟨rest, hrest⟩ := exists_pieces_eq_of_append xs hsplit
  rcases pieces_eq_cons hrest.symm with ⟨body, -, hbody, hpiece, -⟩ | ⟨hpiece, -, -⟩
  · exact ⟨body, hbody, .inl hpiece⟩
  · exact ⟨piece, hpiece, .inr rfl⟩

theorem exists_bodies_take {cs : List Char} {k : Nat} (h : k < (pieces cs).length) :
    ∃ bodies : List (List Char), (∀ body ∈ bodies, '\n' ∉ body) ∧
      (pieces cs).take k = bodies.map (· ++ ['\n']) := by
  have hsplit : pieces cs = (pieces cs).take k ++ (pieces cs)[k] :: (pieces cs).drop (k + 1) := by
    rw [← List.drop_eq_getElem_cons h, List.take_append_drop]
  exact exists_bodies_of_pieces_eq _ hsplit

theorem pieces_take_append {cs : List Char} {k : Nat} (h : k < (pieces cs).length) (rest : List Char) :
    pieces (((pieces cs).take k).flatten ++ rest) = (pieces cs).take k ++ pieces rest := by
  obtain ⟨bodies, hbodies, htake⟩ := exists_bodies_take h
  rw [htake, ← List.flatMap_def, pieces_flatMap_append hbodies]

theorem pieces_take (cs : List Char) (k : Nat) :
    pieces ((pieces cs).take k).flatten = (pieces cs).take k := by
  rcases Nat.lt_or_ge k (pieces cs).length with h | h
  · simpa [pieces] using pieces_take_append h []
  · rw [List.take_of_length_le h, flatten_pieces]

theorem pieces_drop (cs : List Char) (k : Nat) :
    pieces ((pieces cs).drop k).flatten = (pieces cs).drop k := by
  obtain ⟨rest, hrest⟩ := exists_pieces_eq_of_append _ (List.take_append_drop k (pieces cs)).symm
  rw [hrest, flatten_pieces]

theorem flatten_take_append_drop (cs : List Char) (k : Nat) :
    ((pieces cs).take k).flatten ++ ((pieces cs).drop k).flatten = cs := by
  rw [← List.flatten_append, List.take_append_drop, flatten_pieces]

theorem eq_nil_or_getLast?_take {cs : List Char} {k : Nat} (h : k < (pieces cs).length) :
    ((pieces cs).take k).flatten = [] ∨ ((pieces cs).take k).flatten.getLast? = some '\n' := by
  obtain ⟨bodies, -, htake⟩ := exists_bodies_take h
  rw [htake]
  rcases List.eq_nil_or_concat bodies with rfl | ⟨bodies, body, rfl⟩
  · exact .inl rfl
  · right
    simp

theorem pieces_append {xs ys : List Char} (h : xs = [] ∨ xs.getLast? = some '\n' ∨ ys = []) :
    pieces (xs ++ ys) = pieces xs ++ pieces ys := by
  rcases h with rfl | hlast | rfl
  · rfl
  · obtain ⟨body, rfl⟩ := List.getLast?_eq_some_iff.mp hlast
    rw [List.append_assoc, List.singleton_append, pieces_append_line]
  · rw [List.append_nil, pieces, List.append_nil]

theorem dropLineEnd_of_not_mem {body : List Char} (h : '\n' ∉ body) : dropLineEnd body = body := by
  rw [← List.mem_reverse] at h
  rw [dropLineEnd]
  split
  · rename_i r hr
    rw [hr] at h
    exact absurd List.mem_cons_self h
  · rename_i r _ hr
    rw [hr] at h
    exact absurd List.mem_cons_self h
  · rfl

/-- Only a line feed and a carriage return are dropped at the end of a line. -/
theorem exists_dropLineEnd_append (piece : List Char) :
    ∃ ending, (∀ c ∈ ending, isBlank c = true) ∧ dropLineEnd piece ++ ending = piece := by
  rw [dropLineEnd]
  split
  · rename_i r hr
    refine ⟨['\r', '\n'], isBlank_carriageReturn_lineFeed, ?_⟩
    rw [← List.reverse_reverse piece, hr]
    simp
  · rename_i r _ hr
    refine ⟨['\n'], isBlank_lineFeed, ?_⟩
    rw [← List.reverse_reverse piece, hr]
    simp
  · exact ⟨[], List.forall_mem_nil _, List.append_nil piece⟩

theorem trim_dropLineEnd (piece : List Char) : trim (dropLineEnd piece) = trim piece := by
  obtain ⟨ending, hblank, hpiece⟩ := exists_dropLineEnd_append piece
  conv_rhs => rw [← hpiece, trim_append_of_isBlank hblank]

theorem trimEnd_dropLineEnd (piece : List Char) : trimEnd (dropLineEnd piece) = trimEnd piece := by
  obtain ⟨ending, hblank, hpiece⟩ := exists_dropLineEnd_append piece
  conv_rhs => rw [← hpiece, trimEnd_append_of_isBlank hblank]

theorem dropLineEnd_line_isPrefix (body : List Char) : dropLineEnd (body ++ ['\n']) <+: body := by
  rw [dropLineEnd, List.reverse_append, List.reverse_singleton, List.singleton_append]
  split
  · rename_i r hr
    rw [← List.reverse_suffix, List.reverse_reverse, (List.cons.inj hr).2]
    exact List.suffix_cons '\r' r
  · rename_i r _ hr
    have hbody : r.reverse = body := by rw [← (List.cons.inj hr).2, List.reverse_reverse]
    exact hbody ▸ List.prefix_rfl
  · rename_i hline
    exact absurd rfl (hline body.reverse)

theorem dropLineEnd_line_eq_self_iff {body : List Char} :
    dropLineEnd (body ++ ['\n']) = body ↔ body.getLast? ≠ some '\r' := by
  rcases List.eq_nil_or_concat body with rfl | ⟨body, c, rfl⟩
  · simp [dropLineEnd]
  · by_cases hc : c = '\r'
    · simp [dropLineEnd, hc]
    · simp [dropLineEnd, hc]

/-- A line without a blank at its end does not end with a carriage return. -/
theorem dropLineEnd_line {body : List Char} (h : trimEnd body = body) :
    dropLineEnd (body ++ ['\n']) = body := by
  rw [dropLineEnd_line_eq_self_iff]
  intro hlast
  obtain ⟨front, rfl⟩ := List.getLast?_eq_some_iff.mp hlast
  rw [trimEnd, dropEndWhile_concat_of_pos (by decide)] at h
  have hlength := (h ▸ dropEndWhile_isPrefix isBlank front).length_le
  rw [List.length_append] at hlength
  exact absurd hlength (Nat.not_succ_le_self _)

theorem length_lines (cs : List Char) : (lines cs).length = (pieces cs).length := List.length_map _

theorem lines_line {body : List Char} (h : '\n' ∉ body) (rest : List Char) :
    lines (body ++ '\n' :: rest) = dropLineEnd (body ++ ['\n']) :: lines rest := by
  rw [lines, pieces_line h, List.map_cons, lines]

theorem lines_of_not_mem {body : List Char} (hne : body ≠ []) (h : '\n' ∉ body) :
    lines body = [body] := by
  rw [lines, pieces_of_not_mem hne h, List.map_singleton, dropLineEnd_of_not_mem h]

theorem not_mem_of_mem_lines {cs line : List Char} (h : line ∈ lines cs) : '\n' ∉ line := by
  obtain ⟨piece, hpiece, rfl⟩ := List.mem_map.mp h
  obtain ⟨body, hbody, rfl | rfl⟩ := exists_body_of_mem_pieces hpiece
  · exact fun hmem => hbody ((dropLineEnd_line_isPrefix body).subset hmem)
  · rwa [dropLineEnd_of_not_mem hbody]

/-- What is found in the lines of a text of lines is found in the first one, which may lack its
carriage return, or in the others. -/
theorem exists_findSome?_lines {β : Type} {f : List Char → Option β}
    (hf : f [] = none) {line : List Char} (h : '\n' ∉ line) (rest : List (List Char)) :
    ∃ shown, shown <+: line ∧ (trimEnd line = line → shown = line) ∧
      (lines (['\n'].intercalate (line :: rest))).findSome? f =
        (f shown).or ((lines (['\n'].intercalate rest)).findSome? f) := by
  cases rest with
  | nil =>
    refine ⟨line, List.prefix_rfl, fun _ => rfl, ?_⟩
    have hnil : (lines (['\n'].intercalate [])).findSome? f = none := by rw [List.intercalate_nil]; rfl
    rw [List.intercalate_singleton, hnil, Option.or_none]
    by_cases hne : line = []
    · rw [hne, hf]
      rfl
    · rw [lines_of_not_mem hne h, List.findSome?_singleton]
  | cons next rest =>
    refine ⟨dropLineEnd (line ++ ['\n']), dropLineEnd_line_isPrefix line, dropLineEnd_line, ?_⟩
    rw [List.intercalate_cons_cons, List.append_assoc, List.singleton_append,
      lines_line h, List.findSome?_cons]
    cases f (dropLineEnd (line ++ ['\n'])) <;> rfl

end NoteQuery.Text
