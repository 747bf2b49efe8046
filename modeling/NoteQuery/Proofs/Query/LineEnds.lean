import NoteQuery.Proofs.Query.FirstFault
import NoteQuery.Proofs.Text.Returns

/-!
# Notes whose lines end with carriage returns

A note whose lines end with a carriage return and a line feed has the same blocks with the same
queries as the note with line feeds alone. It is rendered with the same tables, and only the text
around the tables has the carriage returns.
-/

namespace NoteQuery

set_option autoImplicit false

open Text

namespace Segment

variable {α β γ ε : Type}

/-- Changes the text of a plain segment in one way, and what is marked in another. -/
def map (f : List Char → List Char) (g : α → β) : Segment α → Segment β
  | plain cs => plain (f cs)
  | marked a => marked (g a)

theorem marks_map (f : List Char → List Char) (g : α → β) (segments : List (Segment α)) :
    marks (segments.map (map f g)) = (marks segments).map g := by
  induction segments with
  | nil => rfl
  | cons segment segments ih =>
    cases segment with
    | plain cs => exact ih
    | marked a => exact congrArg (g a :: ·) ih

/-- Where a change of the marked parts does not change what they are replaced by, the plain
parts are all that changes. -/
theorem mapMarks_map {q : β → Except ε γ} {p : α → Except ε γ} (f : List Char → List Char) {g : α → β}
    {segments : List (Segment α)} (h : ∀ a ∈ marks segments, q (g a) = p a) :
    mapMarks q (segments.map (map f g)) = (mapMarks p segments).map (List.map (map f id)) := by
  induction segments with
  | nil => rfl
  | cons segment segments ih =>
    cases segment with
    | plain cs =>
      rw [List.map_cons, map, mapMarks, ih h, mapMarks]
      cases mapMarks p segments <;> rfl
    | marked a =>
      obtain ⟨ha, h⟩ := List.forall_mem_cons.mp h
      rw [List.map_cons, map, mapMarks, ha, ih h, mapMarks]
      cases p a with
      | error e => rfl
      | ok b => cases mapMarks p segments <;> rfl

theorem mem_write_of_mem_marks {f : α → List Char} {segments : List (Segment α)} {a : α}
    (ha : a ∈ marks segments) {c : Char} (hc : c ∈ f a) : c ∈ write f segments := by
  induction segments with
  | nil => cases ha
  | cons segment segments ih =>
    cases segment with
    | plain cs => exact List.mem_append_right cs (ih ha)
    | marked b =>
      rcases List.mem_cons.mp ha with rfl | ha
      · exact List.mem_append_left _ hc
      · exact List.mem_append_right (f b) (ih ha)

end Segment

namespace Block

theorem not_mem_content {note line : List Char} (h : line ∈ pieces note) : '\n' ∉ content line := by
  obtain ⟨body, hbody, rfl | rfl⟩ := exists_body_of_mem_pieces h
  · rw [content, dropEndWhile_concat_of_pos (by decide)]
    exact fun hmem => hbody ((content_isPrefix body).subset hmem)
  · exact fun hmem => hbody ((content_isPrefix line).subset hmem)

theorem content_withReturns {note line : List Char} (h : line ∈ pieces note) :
    content (withReturns line) = content line := by
  obtain ⟨body, hbody, rfl | rfl⟩ := exists_body_of_mem_pieces h
  · rw [withReturns_append, withReturns_of_not_mem hbody, content, content,
      dropEndWhile_append_of_forall (by simp [withReturns]),
      dropEndWhile_append_of_forall (by simp)]
  · rw [withReturns_of_not_mem hbody]

theorem lineEnd_withReturns {note line : List Char} (h : line ∈ pieces note) :
    lineEnd (withReturns line) = withReturns (lineEnd line) := by
  have hline : content line ++ lineEnd (withReturns line) =
      content line ++ withReturns (lineEnd line) := by
    conv_lhs => rw [← content_withReturns h, content_append_lineEnd]
    conv_rhs => rw [← withReturns_of_not_mem (not_mem_content h), ← withReturns_append,
      content_append_lineEnd]
  exact List.append_cancel_left hline

/-- The scan takes the same way through the lines with carriage returns. -/
theorem segmentsAfter_withReturns (fence : List Char) {note : List Char} (opened : Option (List Char))
    {lines : List (List Char)} (h : ∀ line ∈ lines, line ∈ pieces note) :
    segmentsAfter fence (opened.map withReturns) (lines.map withReturns) =
      (segmentsAfter fence opened lines).map (Segment.map withReturns withReturns) := by
  induction lines generalizing opened with
  | nil => cases opened <;> rfl
  | cons line lines ih =>
    obtain ⟨hline, hlines⟩ := List.forall_mem_cons.mp h
    cases opened with
    | none =>
      rw [List.map_cons, Option.map_none, segmentsAfter, content_withReturns hline, segmentsAfter]
      by_cases hopening : Opening fence line
      · rw [if_pos hopening, if_pos hopening]
        exact ih (some line) hlines
      · rw [if_neg hopening, if_neg hopening, List.map_cons]
        exact congrArg _ (ih none hlines)
    | some text =>
      rw [List.map_cons, Option.map_some, segmentsAfter, content_withReturns hline, segmentsAfter]
      by_cases hclosing : Closing line
      · rw [if_pos hclosing, if_pos hclosing, List.map_cons, List.map_cons, Segment.map,
          Segment.map, withReturns_append,
          withReturns_of_not_mem (not_mem_content hline), lineEnd_withReturns hline]
        exact congrArg _ (congrArg _ (ih none hlines))
      · rw [if_neg hclosing, if_neg hclosing, ← withReturns_append]
        exact ih (some (text ++ line)) hlines

theorem segments_withReturns (fence note : List Char) :
    segments fence (withReturns note) =
      (segments fence note).map (Segment.map withReturns withReturns) := by
  rw [segments, pieces_withReturns]
  exact segmentsAfter_withReturns fence none fun _ hline => hline

theorem query_withReturns (fence : List Char) {block : List Char} (h : '\r' ∉ block) :
    query fence (withReturns block) = query fence block := by
  have hstart : '\r' ∉ trimStart block := fun hmem => h ((List.dropWhile_sublist isBlank).subset hmem)
  have hquery : Query.ofChars (withReturns block) = Query.ofChars block := by
    simp only [Query.ofChars, Query.clauseLines, lines_withReturns h]
  rw [query, trimStart_withReturns, lines_withReturns hstart, hquery, query]

theorem not_mem_of_mem_marks {fence note block : List Char} {c : Char} (h : c ∉ note)
    (hblock : block ∈ Segment.marks (segments fence note)) : c ∉ block := by
  intro hmem
  rw [← write_segments fence note] at h
  exact h (Segment.mem_write_of_mem_marks (f := id) hblock hmem)

theorem queries_withReturns (fence : List Char) {note : List Char} (h : '\r' ∉ note) :
    queries fence (withReturns note) =
      (queries fence note).map (List.map (Segment.map withReturns id)) := by
  rw [queries, segments_withReturns]
  exact Segment.mapMarks_map withReturns fun block hblock =>
    query_withReturns fence (not_mem_of_mem_marks h hblock)

theorem map_found (fence note : List Char) :
    (found fence note).map (fun r => r.2.2) = Segment.marks (segments fence note) :=
  Segment.map_spans bytes8 id 0 _

theorem map_found_withReturns (fence note : List Char) :
    (found fence (withReturns note)).map (fun r => r.2.2) =
      (found fence note).map fun r => withReturns r.2.2 := by
  rw [map_found, segments_withReturns, Segment.marks_map, ← map_found, List.map_map]
  rfl

/-- With carriage returns a note has as many blocks, each with the same query or the same error, and
it is rendered with the same tables, while the text around them gets the carriage returns. -/
theorem found_and_render_withReturns (fence : List Char) {note : List Char} (h : '\r' ∉ note) :
    (found fence (withReturns note)).length = (found fence note).length ∧
    (found fence (withReturns note)).map (fun r => query fence r.2.2) =
      (found fence note).map (fun r => query fence r.2.2) ∧
    (∀ notes e, render fence (withReturns note) notes = .error e ↔ render fence note notes = .error e) ∧
    ∀ notes text, render fence note notes = .ok text → ∃ page, queries fence note = .ok page ∧
      text = Segment.write (fun q => (q.run notes).markdown.toList) page ∧
      render fence (withReturns note) notes =
        .ok (Segment.write (fun q => (q.run notes).markdown.toList)
          (page.map (Segment.map withReturns id))) := by
  have hblocks := map_found_withReturns fence note
  refine ⟨?_, ?_, fun notes e => ?_, fun notes text htext => ?_⟩
  · simpa only [List.length_map] using congrArg List.length hblocks
  · have hqueries := congrArg (List.map (query fence)) hblocks
    rw [List.map_map, List.map_map] at hqueries
    refine hqueries.trans (List.map_congr_left fun r hr => ?_)
    apply query_withReturns
    exact not_mem_of_mem_marks h (map_found fence note ▸ List.mem_map_of_mem hr)
  · rw [render_eq_error_iff, render_eq_error_iff, queries_withReturns fence h, Segment.map_eq_error_iff]
  · obtain ⟨page, hpage, rfl⟩ := Segment.exists_of_map_eq_ok htext
    refine ⟨page, hpage, rfl, ?_⟩
    rw [render, queries_withReturns fence h, hpage]
    rfl

theorem found_and_render_withReturns_one_block :
    '\r' ∉ "a\n ```q\ntable x\nfrom #p\n```\n```q\nb".toList ∧
    (found "q".toList (withReturns "a\n ```q\ntable x\nfrom #p\n```\n```q\nb".toList)).length = 1 ∧
    render "q".toList "a\n ```q\ntable x\nfrom #p\n```\n```q\nb".toList [] =
      .ok "a\n| File | x |\n| --- | --- |\n```q\nb".toList ∧
    render "q".toList (withReturns "a\n ```q\ntable x\nfrom #p\n```\n```q\nb".toList) [] =
      .ok "a\r\n| File | x |\n| --- | --- |\r\n```q\r\nb".toList := by
  have hreturn : '\r' ∉ "a\n ```q\ntable x\nfrom #p\n```\n```q\nb".toList := by decide
  have hrender : render "q".toList "a\n ```q\ntable x\nfrom #p\n```\n```q\nb".toList [] =
      .ok "a\n| File | x |\n| --- | --- |\n```q\nb".toList := rfl
  obtain ⟨hfound, -, -, hrenders⟩ := found_and_render_withReturns "q".toList hreturn
  obtain ⟨page, hpage, -, hreturns⟩ := hrenders [] _ hrender
  cases hpage
  exact ⟨hreturn, hfound, hrender, hreturns⟩

end Block

end NoteQuery
