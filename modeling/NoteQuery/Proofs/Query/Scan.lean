import NoteQuery.Proofs.Text.Blank
import NoteQuery.Query.Block

/-!
# Scanning for blocks

What the scan makes of lines, said in whole blocks: a line that opens none stays, an opening line goes
with everything up to the first closing line behind it, and without such a line everything stays.
-/

namespace NoteQuery.Block

set_option autoImplicit false

abbrev Closing (line : List Char) : Prop := closes (content line) = true

abbrev Opening (fence line : List Char) : Prop := opens fence (content line) = true

inductive Scan (fence : List Char) : List (List Char) → List (Segment (List Char)) → Prop
  | nil : Scan fence [] []
  | line {line : List Char} {lines : List (List Char)} {segments : List (Segment (List Char))}
      (hopening : ¬Opening fence line) (hrest : Scan fence lines segments) :
      Scan fence (line :: lines) (.plain line :: segments)
  | unclosed {opener : List Char} {lines : List (List Char)} (hopening : Opening fence opener)
      (hclosing : ∀ l ∈ lines, ¬Closing l) :
      Scan fence (opener :: lines) [.plain (opener ++ lines.flatten)]
  | block {opener closer : List Char} {inner lines : List (List Char)}
    {segments : List (Segment (List Char))}
      (hopening : Opening fence opener) (hinner : ∀ l ∈ inner, ¬Closing l) (hclosing : Closing closer)
      (hrest : Scan fence lines segments) :
      Scan fence (opener :: (inner ++ closer :: lines))
        (.marked (opener ++ inner.flatten ++ content closer) :: .plain (lineEnd closer) :: segments)

theorem segmentsAfter_unclosed {fence : List Char} {lines : List (List Char)}
    (h : ∀ l ∈ lines, ¬Closing l)
    (text : List Char) : segmentsAfter fence (some text) lines = [.plain (text ++ lines.flatten)] := by
  induction lines generalizing text with
  | nil => rw [segmentsAfter, List.flatten_nil, List.append_nil]
  | cons line lines ih =>
    obtain ⟨hline, hlines⟩ := List.forall_mem_cons.mp h
    rw [segmentsAfter, if_neg hline, ih hlines, List.flatten_cons, List.append_assoc]

theorem segmentsAfter_closed {fence closer : List Char} {inner lines : List (List Char)}
    (hinner : ∀ l ∈ inner, ¬Closing l) (hclosing : Closing closer) (text : List Char) :
    segmentsAfter fence (some text) (inner ++ closer :: lines) =
      .marked (text ++ inner.flatten ++ content closer) :: .plain (lineEnd closer) ::
        segmentsAfter fence none lines := by
  induction inner generalizing text with
  | nil => rw [List.nil_append, segmentsAfter, if_pos hclosing, List.flatten_nil, List.append_nil]
  | cons line inner ih =>
    obtain ⟨hline, hinner⟩ := List.forall_mem_cons.mp hinner
    rw [List.cons_append, segmentsAfter, if_neg hline, ih hinner, List.flatten_cons, ← List.append_assoc]

/-- Either no line closes, or there is a first one that does. -/
theorem forall_not_closing_or (lines : List (List Char)) : (∀ l ∈ lines, ¬Closing l) ∨
    ∃ inner closer rest, lines = inner ++ closer :: rest ∧ (∀ l ∈ inner, ¬Closing l) ∧
      Closing closer := by
  induction lines with
  | nil => exact .inl (List.forall_mem_nil _)
  | cons line lines ih =>
    by_cases hline : Closing line
    · exact .inr ⟨[], line, lines, rfl, List.forall_mem_nil _, hline⟩
    · rcases ih with hnone | ⟨inner, closer, rest, rfl, hinner, hclosing⟩
      · exact .inl (List.forall_mem_cons.mpr ⟨hline, hnone⟩)
      · exact .inr ⟨line :: inner, closer, rest, rfl, List.forall_mem_cons.mpr ⟨hline, hinner⟩, hclosing⟩

-- On the number of lines, as a block takes several at once.
theorem scan_segmentsAfter (fence : List Char) (lines : List (List Char)) :
    Scan fence lines (segmentsAfter fence none lines) := by
  cases lines with
  | nil => exact .nil
  | cons line lines =>
    by_cases hline : Opening fence line
    · rw [segmentsAfter, if_pos hline]
      rcases forall_not_closing_or lines with hnone | ⟨inner, closer, rest, rfl, hinner, hclosing⟩
      · rw [segmentsAfter_unclosed hnone]
        exact .unclosed hline hnone
      · rw [segmentsAfter_closed hinner hclosing]
        exact .block hline hinner hclosing (scan_segmentsAfter fence rest)
    · rw [segmentsAfter, if_neg hline]
      exact .line hline (scan_segmentsAfter fence lines)
termination_by lines.length

theorem scan_segments (fence note : List Char) : Scan fence (Text.pieces note) (segments fence note) :=
  scan_segmentsAfter fence (Text.pieces note)

theorem content_isPrefix (line : List Char) : content line <+: line := Text.dropEndWhile_isPrefix _ line

theorem content_append_lineEnd (line : List Char) : content line ++ lineEnd line = line :=
  List.prefix_iff_eq_append.mp (content_isPrefix line)

theorem Scan.write {fence : List Char} {lines : List (List Char)} {segments : List (Segment (List Char))}
    (h : Scan fence lines segments) : Segment.write id segments = lines.flatten := by
  induction h with
  | nil => rfl
  | line _ _ ih => rw [Segment.write, ih, List.flatten_cons]
  | unclosed => rw [Segment.write, Segment.write, List.append_nil, List.flatten_cons]
  | @block opener closer inner lines segments _ _ _ _ ih =>
    rw [Segment.write, Segment.write, ih, id, List.append_assoc, ← List.append_assoc (content closer),
      content_append_lineEnd, List.append_assoc, List.flatten_cons,
        List.flatten_append, List.flatten_cons]

theorem write_segments (fence note : List Char) : Segment.write id (segments fence note) = note := by
  rw [(scan_segments fence note).write, Text.flatten_pieces]

end NoteQuery.Block
