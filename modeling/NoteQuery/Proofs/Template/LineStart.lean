import NoteQuery.Proofs.Text.Pieces
import NoteQuery.Proofs.Text.Slice
import NoteQuery.Template.Insert

/-!
# Where lines start

The offsets behind the line feeds of a text are those of its pieces, the first one apart. So the
offset of a line counts the bytes of the lines in front of it, and a text is inserted at each line
of a note and behind the last one, and nowhere else.
-/

namespace NoteQuery.Text

set_option autoImplicit false

theorem lineStarts_line {body : List Char} (h : '\n' ∉ body) (rest : List Char) (offset : Nat) :
    lineStarts offset (body ++ '\n' :: rest) =
      (offset + bytes8 (body ++ ['\n'])) :: lineStarts (offset + bytes8 (body ++ ['\n'])) rest := by
  induction body generalizing offset with
  | nil => rfl
  | cons c body ih =>
    rw [List.cons_append, List.cons_append, lineStarts, if_neg (List.ne_of_not_mem_cons h).symm,
      ih (List.not_mem_of_not_mem_cons h), bytes8, Nat.add_assoc]

/-- A piece that is not the first one starts behind a line feed, at the bytes of those in front of it. -/
theorem getElem?_lineStarts {cs : List Char} {k : Nat} (h : k + 1 < (pieces cs).length) (offset : Nat) :
    (lineStarts offset cs)[k]? = some (offset + bytes8 ((pieces cs).take (k + 1)).flatten) := by
  -- Each step takes the first line off the text, and the offsets behind it start at its end.
  induction k generalizing cs offset with
  | zero =>
    obtain ⟨body, rest, hbody, rfl⟩ := exists_line_of_one_lt_length h
    rw [lineStarts_line hbody, pieces_line hbody, List.take_succ_cons, List.take_zero,
      List.flatten_singleton, List.getElem?_cons_zero]
  | succ k ih =>
    obtain ⟨body, rest, hbody, rfl⟩ := exists_line_of_one_lt_length (by omega : 1 < (pieces cs).length)
    rw [pieces_line hbody] at h ⊢
    rw [lineStarts_line hbody, List.getElem?_cons_succ, ih (Nat.lt_of_succ_lt_succ h),
      List.take_succ_cons, List.flatten_cons, Nat.add_assoc, ← bytes8_append]

theorem lineOffset?_of_le {cs : List Char} {k : Nat} (h : k ≤ (pieces cs).length) :
    lineOffset? cs (k + 1) = some (bytes8 ((pieces cs).take k).flatten) := by
  cases k with
  | zero => rfl
  | succ k =>
    rw [lineOffset?, length_lines]
    rcases Nat.eq_or_lt_of_le h with hlast | hinner
    · rw [if_pos hlast, hlast, List.take_length, flatten_pieces]
    · rw [if_neg (Nat.ne_of_lt hinner), List.getElem?_take_of_lt (Nat.lt_of_succ_lt hinner),
        getElem?_lineStarts hinner, Nat.zero_add]

theorem lineOffset?_of_lt {cs : List Char} {k : Nat} (h : (pieces cs).length < k) :
    lineOffset? cs (k + 1) = none := by
  cases k with
  | zero => exact absurd h (Nat.not_lt_zero _)
  | succ k =>
    -- There are no more offsets to choose from than lines.
    rw [lineOffset?, length_lines, if_neg (Nat.ne_of_gt h), List.getElem?_eq_none]
    exact Nat.le_trans (List.length_take_le _ _) (Nat.le_of_lt_succ h)

/-- An offset between two characters of a text, with a number of lines in front of it. The text
starts or ends there, or a line feed stands in front of it. -/
def StartsLine (cs : List Char) (count offset : Nat) : Prop :=
  ∃ before behind, before ++ behind = cs ∧ bytes8 before = offset ∧ (lines before).length = count ∧
    (offset = 0 ∨ before.getLast? = some '\n' ∨ offset = bytes8 cs)

theorem startsLine_take {cs : List Char} {k : Nat} (h : k ≤ (pieces cs).length) :
    StartsLine cs k (bytes8 ((pieces cs).take k).flatten) := by
  refine ⟨_, _, flatten_take_append_drop cs k, rfl, ?_, ?_⟩
  · rw [length_lines, pieces_take, List.length_take_of_le h]
  · rcases Nat.eq_or_lt_of_le h with rfl | hinner
    · right; right
      rw [List.take_length, flatten_pieces]
    · rcases eq_nil_or_getLast?_take hinner with hnil | hlast
      · rw [hnil]
        exact .inl rfl
      · exact .inr (.inl hlast)

/-- Only one offset has so many lines in front of it. -/
theorem StartsLine.eq_take {cs : List Char} {k offset : Nat} (h : StartsLine cs k offset) :
    k ≤ (pieces cs).length ∧ offset = bytes8 ((pieces cs).take k).flatten := by
  obtain ⟨before, behind, rfl, rfl, rfl, hstart⟩ := h
  have hpieces : pieces (before ++ behind) = pieces before ++ pieces behind := by
    apply pieces_append
    rwa [bytes8_append, Nat.left_eq_add, bytes8_eq_zero_iff, bytes8_eq_zero_iff] at hstart
  rw [hpieces, length_lines, List.take_left, flatten_pieces, List.length_append]
  exact ⟨Nat.le_add_right _ _, rfl⟩

theorem lineOffset?_eq_some_iff {cs : List Char} {k offset : Nat} :
    lineOffset? cs (k + 1) = some offset ↔ StartsLine cs k offset := by
  constructor
  · intro h
    rcases Nat.lt_or_ge (pieces cs).length k with hpast | hinside
    · rw [lineOffset?_of_lt hpast] at h
      cases h
    · rw [lineOffset?_of_le hinside] at h
      cases h
      exact startsLine_take hinside
  · intro h
    obtain ⟨hinside, rfl⟩ := h.eq_take
    exact lineOffset?_of_le hinside

theorem exists_lineOffset?_iff {cs : List Char} {k : Nat} :
    (∃ offset, lineOffset? cs (k + 1) = some offset) ↔ k ≤ (pieces cs).length := by
  constructor
  · rintro ⟨offset, h⟩
    exact (lineOffset?_eq_some_iff.mp h).eq_take.1
  · intro h
    exact ⟨_, lineOffset?_of_le h⟩

theorem cutBefore?_of_le {cs : List Char} {k : Nat} (h : k ≤ (pieces cs).length) :
    cutBefore? (k + 1) cs = some (((pieces cs).take k).flatten, ((pieces cs).drop k).flatten) := by
  have htake := takeBytes_append ((pieces cs).take k).flatten ((pieces cs).drop k).flatten
  have hdrop := dropBytes_append ((pieces cs).take k).flatten ((pieces cs).drop k).flatten
  rw [flatten_take_append_drop] at htake hdrop
  rw [cutBefore?, lineOffset?_of_le h, Option.map_some, htake, hdrop]

theorem insertAt_some {cs : List Char} {n : Nat} (hn : 1 ≤ n) (h : n ≤ (pieces cs).length + 1)
    (text : List Char) :
    insertAt cs text (some n) =
      .ok (endLine ((pieces cs).take (n - 1)).flatten ++ text ++
        ((pieces cs).drop (n - 1)).flatten) := by
  obtain ⟨k, rfl⟩ := Nat.exists_eq_add_of_le' hn
  rw [insertAt, cutBefore?_of_le (Nat.le_of_succ_le_succ h)]
  · rfl
  · simp

theorem insertAt_pastEnd {cs : List Char} {n : Nat} (h : (pieces cs).length + 1 < n) (text : List Char) :
    insertAt cs text (some n) = .error (.pastEnd n) := by
  obtain ⟨k, rfl⟩ := Nat.exists_eq_add_of_le' (Nat.one_le_of_lt h)
  rw [insertAt, cutBefore?, lineOffset?_of_lt (Nat.lt_of_succ_lt_succ h)]
  · rfl
  · simp

theorem insertAt_eq_error_iff (cs text : List Char) (line : Option Nat) (e : LineError) :
    insertAt cs text line = .error e ↔
      line = some 0 ∧ e = .zero ∨ ∃ n, line = some n ∧ (lines cs).length + 1 < n ∧ e = .pastEnd n := by
  cases line with
  | none => simp [insertAt]
  | some n =>
    rcases Nat.eq_zero_or_pos n with rfl | hn
    · simp [insertAt, eq_comm]
    · rw [length_lines]
      rcases Nat.lt_or_ge ((pieces cs).length + 1) n with hpast | hinside
      · simp [insertAt_pastEnd hpast, hpast, Nat.ne_of_gt hn, eq_comm]
      · simp [insertAt_some hn hinside, Nat.not_lt.mpr hinside, Nat.ne_of_gt hn]

/-- Each line and the place behind the last one have an offset, which is the only one with the lines
in front of it. A text goes to no other place. -/
theorem lineOffset_exact_and_insertAt_error_iff (cs : List Char) :
    (∀ n, 1 ≤ n →
      ((∃ offset, lineOffset? cs n = some offset) ↔ n ≤ (lines cs).length + 1) ∧
      ∀ offset, lineOffset? cs n = some offset ↔ StartsLine cs (n - 1) offset) ∧
    ∀ text line e, insertAt cs text line = .error e ↔
      line = some 0 ∧ e = .zero ∨ ∃ n, line = some n ∧ (lines cs).length + 1 < n ∧ e = .pastEnd n := by
  refine ⟨fun n hn => ?_, insertAt_eq_error_iff cs⟩
  obtain ⟨k, rfl⟩ := Nat.exists_eq_add_of_le' hn
  constructor
  · rw [exists_lineOffset?_iff, length_lines]
    exact Nat.succ_le_succ_iff.symm
  · exact fun _ => lineOffset?_eq_some_iff

/-- The last line has no line feed, so that only the end of the text is behind it. -/
theorem lineOffset_exact_and_insertAt_error_iff_open_end :
    (1 ≤ 2 ∧ lineOffset? "é\r\n\nb".toList 2 = some 4 ∧ StartsLine "é\r\n\nb".toList 1 4) ∧
    (1 ≤ 4 ∧ lineOffset? "é\r\n\nb".toList 4 = some 6 ∧ StartsLine "é\r\n\nb".toList 3 6) ∧
    (1 ≤ 5 ∧ ¬∃ offset, lineOffset? "é\r\n\nb".toList 5 = some offset) ∧
    insertAt "é\r\n\nb".toList "T".toList (some 5) = .error (.pastEnd 5) := by
  obtain ⟨hoffset, herror⟩ := lineOffset_exact_and_insertAt_error_iff "é\r\n\nb".toList
  have hsecond : lineOffset? "é\r\n\nb".toList 2 = some 4 := rfl
  have hend : lineOffset? "é\r\n\nb".toList 4 = some 6 := rfl
  have hcount : (lines "é\r\n\nb".toList).length = 3 := rfl
  refine ⟨⟨by decide, hsecond, ((hoffset 2 (by decide)).2 4).mp hsecond⟩,
    ⟨by decide, hend, ((hoffset 4 (by decide)).2 6).mp hend⟩, ⟨by decide, fun h => ?_⟩,
    (herror _ _ _).mpr (.inr ⟨5, rfl, by rw [hcount]; decide, rfl⟩)⟩
  have hinside := (hoffset 5 (by decide)).1.mp h
  rw [hcount] at hinside
  exact absurd hinside (by decide)

end NoteQuery.Text
