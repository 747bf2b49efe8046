import NoteQuery.Proofs.Template.LineStart

/-!
# The lines around an inserted text

A text goes between two lines of a note. The lines in front of it are ended before it is written;
the text itself is not, so that without a line feed at its end it runs on into the line behind it.
-/

namespace NoteQuery.Text

set_option autoImplicit false

theorem length_pieces (cs : List Char) :
    (pieces cs).length = cs.count '\n' + if cs.getLast?.getD '\n' = '\n' then 0 else 1 := by
  induction cs with
  | nil => rfl
  | cons c cs ih =>
    rw [pieces]
    cases cs with
    | nil => by_cases hc : c = '\n' <;> simp [pieces, hc]
    | cons d cs =>
      obtain ⟨p, ps, hp⟩ := List.exists_cons_of_ne_nil (pieces_ne_nil (List.cons_ne_nil d cs))
      rw [List.getLast?_cons_cons]
      by_cases hc : c = '\n'
      · rw [if_pos hc, List.length_cons, ih, hc, List.count_cons_self]
        omega
      · rw [if_neg hc, List.count_cons_of_ne hc, ← ih, hp]
        rfl

theorem nil_not_mem_pieces (cs : List Char) : [] ∉ pieces cs := by
  induction cs with
  | nil => exact List.not_mem_nil
  | cons c cs ih =>
    rw [pieces]
    split
    · simpa using ih
    · split
      · simp
      · rename_i p ps hp
        rw [hp] at ih
        simpa using List.not_mem_of_not_mem_cons ih

theorem endLine_of_lineFeed {cs : List Char} (h : cs.getLast? = some '\n') : endLine cs = cs := by
  simp [endLine, h]

theorem endLine_of_ne {cs : List Char} {c : Char} (h : cs.getLast? = some c) (hc : c ≠ '\n') :
    endLine cs = cs ++ ['\n'] := by
  simp [endLine, h, hc]

theorem endLine_take {cs : List Char} {k : Nat} (h : k < (pieces cs).length) :
    endLine ((pieces cs).take k).flatten = ((pieces cs).take k).flatten := by
  rcases eq_nil_or_getLast?_take h with hnil | hlast
  · rw [hnil]
    rfl
  · exact endLine_of_lineFeed hlast

theorem lines_append_iff (xs : List Char) {ys : List Char} (hys : ys ≠ []) :
    lines (xs ++ ys) = lines xs ++ lines ys ↔ xs = [] ∨ xs.getLast? = some '\n' := by
  constructor
  · intro h
    -- The lines are counted: where `xs` stops within a line, its last line and
    -- the first one of `ys` are one.
    have hlength := congrArg List.length h
    rw [List.length_append, length_lines, length_lines, length_lines, length_pieces,
      length_pieces xs, length_pieces ys,
      List.count_append, List.getLast?_append_of_ne_nil xs hys] at hlength
    cases hlast : xs.getLast? with
    | none => exact .inl (List.getLast?_eq_none_iff.mp hlast)
    | some c =>
      right
      rw [hlast, Option.getD_some] at hlength
      by_cases hc : c = '\n'
      · rw [hc]
      · rw [if_neg hc] at hlength
        omega
  · intro h
    rw [lines, pieces_append (h.imp_right .inl), List.map_append]
    rfl

/-- A line feed behind a text ends its last line, and takes a carriage return there with it. -/
theorem lines_append_lineFeed_iff {cs : List Char} (hne : cs ≠ []) (hlast : cs.getLast? ≠ some '\n') :
    lines (cs ++ ['\n']) = lines cs ↔ cs.getLast? ≠ some '\r' := by
  obtain ⟨xs, last, hpieces⟩ := (List.eq_nil_or_concat' (pieces cs)).resolve_left (pieces_ne_nil hne)
  obtain ⟨bodies, hbodies, rfl⟩ := exists_bodies_of_pieces_eq xs hpieces
  have hcs : cs = bodies.flatMap (· ++ ['\n']) ++ last := by
    rw [← flatten_pieces cs, hpieces, List.flatten_concat, ← List.flatMap_def]
  have hmem : last ∈ pieces cs := hpieces ▸ List.mem_concat_self
  have hend : cs.getLast? = last.getLast? := by
    rw [hcs]
    apply List.getLast?_append_of_ne_nil
    rintro rfl
    exact nil_not_mem_pieces cs hmem
  have hline : '\n' ∉ last := by
    obtain ⟨body, hbody, rfl | rfl⟩ := exists_body_of_mem_pieces hmem
    · rw [hend, List.getLast?_concat] at hlast
      exact absurd rfl hlast
    · exact hbody
  have hended : pieces (cs ++ ['\n']) = bodies.map (· ++ ['\n']) ++ [last ++ ['\n']] := by
    rw [hcs, List.append_assoc, pieces_flatMap_append hbodies, pieces_line hline]
    rfl
  rw [lines, lines, hended, hpieces, List.map_append, List.map_append, List.append_cancel_left_eq,
    List.map_singleton,
    List.map_singleton, List.singleton_inj, dropLineEnd_of_not_mem hline,
      dropLineEnd_line_eq_self_iff, hend]

/-- In front of a line nothing is lost but the end of the text. -/
theorem lines_insert_before_iff {cs : List Char} {k : Nat} (h : k < (pieces cs).length)
    (text : List Char) :
    lines (endLine ((pieces cs).take k).flatten ++ text ++ ((pieces cs).drop k).flatten) =
        (lines cs).take k ++ lines text ++ (lines cs).drop k ↔
      text = [] ∨ text.getLast? = some '\n' := by
  have hbehind : ((pieces cs).drop k).flatten ≠ [] := by
    intro hnil
    have hdrop : (pieces cs).drop k = [] := by
      rw [← pieces_drop, hnil]
      rfl
    rw [List.drop_eq_nil_iff] at hdrop
    omega
  have hlines : lines ((pieces cs).drop k).flatten = (lines cs).drop k := by
    rw [lines, pieces_drop, List.map_drop, lines]
  rw [endLine_take h, List.append_assoc, lines, pieces_take_append h, List.map_append,
    List.map_take, ← lines, ← lines, List.append_assoc, List.append_cancel_left_eq, ← hlines]
  exact lines_append_iff text hbehind

/-- Behind the last line nothing is lost but a carriage return without a line feed. -/
theorem lines_append_text_iff (cs text : List Char) :
    lines (endLine cs ++ text) = lines cs ++ lines text ↔ cs.getLast? ≠ some '\r' := by
  have hended (body : List Char) : lines ((body ++ ['\n']) ++ text) =
    lines (body ++ ['\n']) ++ lines text := by
    rw [List.append_assoc, List.singleton_append, lines, pieces_append_line,
      List.map_append, ← lines, ← lines]
  cases hlast : cs.getLast? with
  | none =>
    rw [List.getLast?_eq_none_iff.mp hlast]
    simp [endLine, lines, pieces]
  | some c =>
    by_cases hc : c = '\n'
    · obtain ⟨body, rfl⟩ := List.getLast?_eq_some_iff.mp (hc ▸ hlast)
      rw [endLine_of_lineFeed (hc ▸ hlast), hended, hc]
      simp
    · have hne : cs ≠ [] := by
        rintro rfl
        cases hlast
      have hopen : cs.getLast? ≠ some '\n' := by simpa [hlast] using hc
      rw [endLine_of_ne hlast hc, hended, List.append_cancel_right_eq,
        lines_append_lineFeed_iff hne hopen, hlast]

/-- The line in front of which a text goes; without one it goes behind the last line. -/
def insertionLine (cs : List Char) (line : Option Nat) : Nat := line.getD ((lines cs).length + 1)

theorem insertAt_eq_insertionLine (cs text : List Char) (line : Option Nat) :
    insertAt cs text line = insertAt cs text (some (insertionLine cs line)) := by
  cases line with
  | some n => rfl
  | none =>
    rw [insertionLine, Option.getD_none, length_lines,
      insertAt_some (Nat.le_add_left 1 _) (Nat.le_refl _),
      Nat.add_sub_cancel, List.take_length, List.drop_length, flatten_pieces,
        List.flatten_nil, List.append_nil]
    rfl

/-- The lines of a note stay as they are around those of an inserted text, but for two cases: a text
without a line feed at its end runs on into the line behind it, and a carriage return at the end of
the note is lost in front of it. -/
theorem lines_insertAt_iff (cs text : List Char) {line : Option Nat}
    (h : ∀ n ∈ line, 1 ≤ n ∧ n ≤ (lines cs).length + 1) :
    ∃ new, insertAt cs text line = .ok new ∧
      (lines new = (lines cs).take (insertionLine cs line - 1) ++ lines text ++
          (lines cs).drop (insertionLine cs line - 1) ↔
        (insertionLine cs line ≤ (lines cs).length → text = [] ∨ text.getLast? = some '\n') ∧
        (insertionLine cs line = (lines cs).length + 1 → cs.getLast? ≠ some '\r')) := by
  have hline : 1 ≤ insertionLine cs line ∧ insertionLine cs line ≤ (lines cs).length + 1 := by
    cases line with
    | none => exact ⟨Nat.le_add_left 1 _, Nat.le_refl _⟩
    | some n => exact h n rfl
  rw [insertAt_eq_insertionLine]
  generalize insertionLine cs line = n at hline
  obtain ⟨hfirst, hlast⟩ := hline
  rw [length_lines] at hlast ⊢
  refine ⟨_, insertAt_some hfirst hlast text, ?_⟩
  by_cases hbefore : n ≤ (pieces cs).length
  · have hpast : n ≠ (pieces cs).length + 1 := by omega
    rw [lines_insert_before_iff (by omega)]
    simp [hbefore, hpast]
  · obtain rfl : n = (pieces cs).length + 1 := by omega
    rw [Nat.add_sub_cancel, List.take_length, List.drop_length, flatten_pieces,
      List.flatten_nil, List.append_nil,
      ← length_lines, List.take_length, List.drop_length, List.append_nil, lines_append_text_iff]
    constructor
    · intro hreturn
      exact ⟨fun hle => absurd hle (Nat.not_succ_le_self _), fun _ => hreturn⟩
    · rintro ⟨-, hreturn⟩
      exact hreturn rfl

theorem lines_insertAt_iff_carriage_return :
    ((lines "a\r\nb".toList).length = 2 ∧ insertionLine "a\r\nb".toList (some 2) = 2) ∧
    insertAt "a\r\nb".toList "T\n".toList (some 2) = .ok "a\r\nT\nb".toList ∧
    lines "a\r\nT\nb".toList = [['a'], ['T'], ['b']] := by
  obtain ⟨new, hnew, hlines⟩ := @lines_insertAt_iff "a\r\nb".toList "T\n".toList (some 2) (by decide)
  have hinserted : insertAt "a\r\nb".toList "T\n".toList (some 2) = .ok "a\r\nT\nb".toList := rfl
  rw [hinserted] at hnew
  cases hnew
  exact ⟨⟨rfl, rfl⟩, hinserted, hlines.mpr ⟨fun _ => .inr rfl, fun h => nomatch h⟩⟩

/-- The text has no line feed at its end, so that it runs on into the second line. -/
theorem not_lines_insertAt : ¬∀ (cs text : List Char) (n : Nat), 1 ≤ n → n ≤ (lines cs).length + 1 →
    ∀ new, insertAt cs text (some n) = .ok new →
      lines new = (lines cs).take (n - 1) ++ lines text ++ (lines cs).drop (n - 1) := by
  intro h
  have hkept := h "a\nb\n".toList "T".toList 2 (by decide) (by decide) "a\nTb\n".toList rfl
  exact absurd hkept (by decide)

end NoteQuery.Text
