import NoteQuery.Proofs.Query.Scan
import NoteQuery.Proofs.Text.Slice
import NoteQuery.Query.Run

/-!
# Where the blocks of a note are

The blocks that the scan finds are ranges of the note, each from an opening line to the first
closing line behind it. Rendering replaces these ranges and leaves every other byte as it is.
-/

namespace NoteQuery.Block

set_option autoImplicit false

open Text

/-- The blocks of a note, each with the bytes at which it starts and ends. -/
def found (fence note : List Char) : List (Nat × Nat × List Char) :=
  Segment.spans bytes8 id 0 (segments fence note)

/-- A range of lines that is a block: an opening line, lines of which none closes, and a
closing line without its line end. -/
inductive BlockAt (fence : List Char) : List (List Char) → Nat × Nat × List Char → Prop
  | mk (before : List (List Char)) {opener closer : List Char} {inner : List (List Char)}
    (after : List (List Char))
      (hopening : Opening fence opener) (hinner : ∀ l ∈ inner, ¬Closing l) (hclosing : Closing closer) :
      BlockAt fence (before ++ opener :: (inner ++ closer :: after))
        (bytes8 before.flatten, bytes8 (before.flatten ++ (opener ++ inner.flatten ++ content closer)),
          opener ++ inner.flatten ++ content closer)

def Outside (ranges : List (Nat × Nat × List Char)) (before : List (List Char))
    (line : List Char) : Prop :=
  ∀ r ∈ ranges, ¬(r.1 ≤ bytes8 before.flatten ∧ bytes8 (before.flatten ++ content line) ≤ r.2.1)

theorem bytes8_block (before inner : List (List Char)) (opener closer : List Char) :
    bytes8 before.flatten + bytes8 (opener ++ inner.flatten ++ content closer) +
        bytes8 (lineEnd closer) =
      bytes8 (before ++ opener :: (inner ++ [closer])).flatten := by
  have hcloser : bytes8 closer = bytes8 (content closer) + bytes8 (lineEnd closer) := by
    rw [← bytes8_append, content_append_lineEnd]
  simp only [List.flatten_append, List.flatten_cons, List.flatten_nil, List.append_nil,
    bytes8_append, hcloser]
  omega

theorem Scan.blockAt {fence : List Char} {lines : List (List Char)}
    {segments : List (Segment (List Char))}
    (h : Scan fence lines segments) (before : List (List Char)) {r : Nat × Nat × List Char}
    (hr : r ∈ Segment.spans bytes8 id (bytes8 before.flatten) segments) :
    BlockAt fence (before ++ lines) r := by
  induction h generalizing before with
  | nil => cases hr
  | @line line lines segments _ _ ih =>
    have hbytes : bytes8 before.flatten + bytes8 line = bytes8 (before ++ [line]).flatten := by simp
    rw [Segment.spans, hbytes] at hr
    simpa using ih _ hr
  | unclosed => cases hr
  | @block opener closer inner lines segments hopening hinner hclosing _ ih =>
    rw [Segment.spans, Segment.spans, id, bytes8_block] at hr
    rcases List.mem_cons.mp hr with rfl | hr
    · rw [← bytes8_append]
      exact .mk before lines hopening hinner hclosing
    · simpa using ih _ hr

theorem bytes8_content_le (line : List Char) : bytes8 (content line) ≤ bytes8 line := by
  rw [← content_append_lineEnd line, bytes8_append, content_append_lineEnd]
  exact Nat.le_add_right _ _

theorem not_outside_of_mem_block {before earlier inner later : List (List Char)}
    {opener closer line : List Char}
    (h : opener :: (inner ++ [closer]) = earlier ++ line :: later) :
    bytes8 before.flatten ≤ bytes8 (before ++ earlier).flatten ∧
      bytes8 ((before ++ earlier).flatten ++ content line) ≤
        bytes8 before.flatten + bytes8 (opener ++ inner.flatten ++ content closer) := by
  have hblock : opener ++ inner.flatten = (opener :: inner).flatten := rfl
  rw [List.flatten_append, bytes8_append, bytes8_append, bytes8_append,
    bytes8_append (opener ++ inner.flatten), hblock]
  refine ⟨Nat.le_add_right _ _, ?_⟩
  rcases List.eq_nil_or_concat later with rfl | ⟨later, last, rfl⟩
  · have hlines : opener :: inner = earlier ∧ [closer] = [line] := List.append_inj' h rfl
    obtain ⟨rfl, hline⟩ := hlines
    cases hline
    exact Nat.le_of_eq (Nat.add_assoc _ _ _)
  · have hlines : opener :: inner = earlier ++ line :: later := by
      have happend :
          (opener :: inner) ++ [closer] = (earlier ++ line :: later) ++ [last] := by simpa using h
      exact (List.append_inj' happend rfl).1
    have hcontent := bytes8_content_le line
    rw [hlines, List.flatten_append, List.flatten_cons, bytes8_append, bytes8_append]
    omega

theorem Scan.not_closing_of_outside {fence : List Char} {lines : List (List Char)}
    {segments : List (Segment (List Char))}
    (h : Scan fence lines segments) (before earlier : List (List Char)) {after : List (List Char)}
    {line : List Char} (hlines : lines = earlier ++ line :: after) (hopening : Opening fence line)
    (houtside : Outside (Segment.spans bytes8 id (bytes8 before.flatten) segments)
      (before ++ earlier) line) :
    ∀ l ∈ after, ¬Closing l := by
  induction h generalizing before earlier with
  | nil => simp at hlines
  | @line other lines segments hother _ ih =>
    cases earlier with
    | nil =>
      cases hlines
      exact absurd hopening hother
    | cons _ earlier =>
      cases hlines
      have hbytes : bytes8 before.flatten + bytes8 other = bytes8 (before ++ [other]).flatten := by simp
      rw [Segment.spans, hbytes] at houtside
      refine ih (before ++ [other]) earlier rfl ?_
      simpa using houtside
  | unclosed _ hclosing =>
    cases earlier with
    | nil =>
      cases hlines
      exact hclosing
    | cons _ earlier =>
      cases hlines
      exact fun l hl => hclosing l (List.mem_append_right earlier (List.mem_cons_of_mem line hl))
  | @block opener closer inner lines segments _ _ _ _ ih =>
    rw [Segment.spans, Segment.spans, id, bytes8_block] at houtside
    have hsplit : (opener :: (inner ++ [closer])) ++ lines = earlier ++ line :: after := by
      simpa using hlines
    -- The line is behind the block, or it is one of the lines of the block.
    rcases List.append_eq_append_iff.mp hsplit with ⟨more, rfl, hmore⟩ | ⟨more, hblock, hmore⟩
    · refine ih (before ++ opener :: (inner ++ [closer])) more hmore ?_
      intro r hr
      have hr' := houtside r (List.mem_cons_of_mem _ hr)
      simpa using hr'
    · cases more with
      | nil =>
        rw [List.append_nil] at hblock
        refine ih (before ++ opener :: (inner ++ [closer])) [] hmore.symm ?_
        intro r hr
        have hr' := houtside r (List.mem_cons_of_mem _ hr)
        rw [← hblock] at hr'
        simpa using hr'
      | cons _ later =>
        cases hmore
        exact absurd (not_outside_of_mem_block hblock) (houtside _ List.mem_cons_self)

theorem tables_eq_splice {fence note : List Char} {page : List (Segment Query)}
    (h : queries fence note = .ok page)
    (notes : List Note) : tables notes page = splice 0 note (List.zipWith
      (fun r q => (r.1, r.2.1, (q.run notes).markdown.toList)) (found fence note)
        (Segment.marks page)) := by
  have hsplice := Segment.write_eq_splice h id (fun q => (q.run notes).markdown.toList) 0 []
  rw [List.nil_append, List.nil_append, write_segments] at hsplice
  exact hsplice

theorem found_exact_and_render_splices (fence note : List Char) :
    (found fence note).Pairwise (fun r s => r.2.1 ≤ s.1) ∧
    (∀ r ∈ found fence note, r.1 ≤ r.2.1 ∧ r.2.1 ≤ bytes8 note ∧ slice r.1 r.2.1 note = r.2.2 ∧
      BlockAt fence (pieces note) r) ∧
    (∀ before line after, pieces note = before ++ line :: after → Opening fence line →
      Outside (found fence note) before line → ∀ l ∈ after, ¬Closing l) ∧
    ∀ notes text, render fence note notes = .ok text → ∃ page, queries fence note = .ok page ∧
      (Segment.marks page).length = (found fence note).length ∧
      (found fence note).map (fun r => query fence r.2.2) = (Segment.marks page).map .ok ∧
      text = splice 0 note
        (List.zipWith (fun r q => (r.1, r.2.1, (q.run notes).markdown.toList)) (found fence note)
        (Segment.marks page)) ∧
      (found fence note = [] → text = note) := by
  have hscan := scan_segments fence note
  refine ⟨Segment.pairwise_spans _ _ _ _, fun r hr => ?_,
    fun before line after hlines hopening houtside => ?_, fun notes text htext => ?_⟩
  · obtain ⟨hinside, hslice⟩ := Segment.slice_of_mem_spans [] hr
    rw [List.nil_append, write_segments] at hinside hslice
    exact ⟨(Segment.le_of_mem_spans hr).2, hinside, hslice, hscan.blockAt [] hr⟩
  · exact hscan.not_closing_of_outside [] before hlines hopening houtside
  · obtain ⟨page, hpage, rfl⟩ := Segment.exists_of_map_eq_ok htext
    have hqueries := Segment.map_spans_of_mapMarks hpage bytes8 id 0
    have hlength := congrArg List.length hqueries
    rw [List.length_map, List.length_map] at hlength
    refine ⟨page, hpage, hlength.symm, hqueries, tables_eq_splice hpage notes, fun hnone => ?_⟩
    rw [tables_eq_splice hpage notes, hnone, List.zipWith_nil_left, splice]

example : found "q".toList "a\n```q\nb\n ``` \r\n```q".toList =
    [(2, 14, "```q\nb\n ``` ".toList)] := by decide

/-- Two opening lines that no closing line follows are both outside of all blocks. -/
theorem not_at_most_one_opener_outside :
    ¬∀ (fence note : List Char) before line after before' line' after',
    pieces note = before ++ line :: after → pieces note = before' ++ line' :: after' →
      Opening fence line →
    Opening fence line' → Outside (found fence note) before line →
      Outside (found fence note) before' line' →
    before = before' := by
  intro h
  have hlines : pieces "```fmq\n```fmq\n".toList = ["```fmq\n".toList, "```fmq\n".toList] := by decide
  have hopening : Opening "fmq".toList "```fmq\n".toList := by decide
  have hfound : found "fmq".toList "```fmq\n```fmq\n".toList = [] := by decide
  have hsame := h "fmq".toList "```fmq\n```fmq\n".toList [] _ _ ["```fmq\n".toList] _ _ hlines
    hlines hopening hopening
    (by rw [hfound]; exact List.forall_mem_nil _) (by rw [hfound]; exact List.forall_mem_nil _)
  cases hsame

end NoteQuery.Block
