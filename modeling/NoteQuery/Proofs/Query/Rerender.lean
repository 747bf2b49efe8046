import NoteQuery.Proofs.Query.Canonical
import NoteQuery.Proofs.Query.Ranges
import NoteQuery.Proofs.Query.TableLines

/-!
# Rendering again

A rendered page has no blocks, so that rendering it again leaves it as it is. The lines
between the blocks open none, a block that is not closed stays without a closing line, and the
lines of a table open no block.
-/

namespace NoteQuery.Block

set_option autoImplicit false

open Text

/-- No opening line has a closing line behind it. -/
def Quiet (fence : List Char) : List (List Char) → Prop
  | [] => True
  | line :: lines => (Opening fence line → ∀ l ∈ lines, ¬Closing l) ∧ Quiet fence lines

theorem quiet_of_not_closing {fence : List Char} {lines : List (List Char)}
    (h : ∀ l ∈ lines, ¬Closing l) :
    Quiet fence lines := by
  induction lines with
  | nil => trivial
  | cons line lines ih =>
    obtain ⟨-, hlines⟩ := List.forall_mem_cons.mp h
    exact ⟨fun _ => hlines, ih hlines⟩

theorem quiet_append {fence : List Char} {xs ys : List (List Char)} (hxs : ∀ l ∈ xs, ¬Opening fence l)
    (hys : Quiet fence ys) : Quiet fence (xs ++ ys) := by
  induction xs with
  | nil => exact hys
  | cons line xs ih =>
    obtain ⟨hline, hxs⟩ := List.forall_mem_cons.mp hxs
    exact ⟨fun hopening => absurd hopening hline, ih hxs⟩

theorem not_opening_of_head? {fence line : List Char} (h : line.head? = some '|') :
    ¬Opening fence line := by
  obtain ⟨r, rfl⟩ := List.head?_eq_some_iff.mp h
  have htrim : trim (content ('|' :: r)) = '|' :: dropEndWhile isBlank (content r) := by
    rw [content, dropEndWhile_cons_of_neg (by decide), trim_cons_of_neg (by decide)]
    rfl
  rw [Opening, opens, htrim]
  exact Bool.false_ne_true

theorem lineEnd_line (body : List Char) : lineEnd (body ++ ['\n']) = lineEnd body ++ ['\n'] := by
  have hcontent : content (body ++ ['\n']) = content body := dropEndWhile_concat_of_pos (by decide) body
  rw [lineEnd, hcontent, List.drop_append_of_le_length (content_isPrefix body).length_le]
  rfl

theorem not_mem_lineEnd {line : List Char} {c : Char} (h : c ∉ line) : c ∉ lineEnd line :=
  fun hmem => h (List.mem_of_mem_drop hmem)

theorem Scan.marks_eq_nil {fence : List Char} {lines : List (List Char)}
    {segments : List (Segment (List Char))}
    (h : Scan fence lines segments) (hquiet : Quiet fence lines) : Segment.marks segments = [] := by
  induction h with
  | nil => rfl
  | line _ _ ih => exact ih hquiet.2
  | unclosed => rfl
  | block hopening _ hclosing =>
    exact absurd hclosing (hquiet.1 hopening _ (List.mem_append_right _ List.mem_cons_self))

/-- What is written for the segments of a scan is quiet, if the marks are written as tables. -/
theorem Scan.quiet_write {ε β : Type} {fence : List Char} {lines : List (List Char)}
    {segments : List (Segment (List Char))} (h : Scan fence lines segments) {cs : List Char}
    (hlines : pieces cs = lines) {q : List Char → Except ε β} {page : List (Segment β)}
    (hpage : Segment.mapMarks q segments = .ok page)
    {table : β → List Char} (htable : ∀ b ∈ Segment.marks page, ∃ rows, Barred rows ∧
      table b = ['\n'].intercalate rows) :
    Quiet fence (pieces (Segment.write table page)) := by
  induction h generalizing cs page with
  | nil =>
    cases hpage
    trivial
  | @line line lines segments hopening hrest ih =>
    obtain ⟨page', hpage', rfl⟩ := Segment.mapMarks_plain_eq_ok hpage
    rw [Segment.write]
    rcases pieces_eq_cons hlines with ⟨body, rest, hbody, rfl, hrest⟩ | ⟨-, rfl, rfl⟩
    · rw [List.append_assoc, List.singleton_append, pieces_line hbody]
      exact ⟨fun h => absurd h hopening, ih hrest.symm hpage' htable⟩
    · cases hrest
      cases hpage'
      rw [Segment.write, List.append_nil, hlines]
      exact ⟨fun h => absurd h hopening, trivial⟩
  | @unclosed opener lines hopening hclosing =>
    cases hpage
    have hcs : opener ++ lines.flatten = cs := by rw [← flatten_pieces cs, hlines, List.flatten_cons]
    rw [Segment.write, Segment.write, List.append_nil, hcs, hlines]
    exact ⟨fun _ => hclosing, quiet_of_not_closing hclosing⟩
  | @block opener closer inner lines segments _ _ _ hrest ih =>
    obtain ⟨b, pageAfter, -, hpageAfter, rfl⟩ := Segment.mapMarks_marked_eq_ok hpage
    obtain ⟨page', hpage', rfl⟩ := Segment.mapMarks_plain_eq_ok hpageAfter
    obtain ⟨⟨rows, hrows, htext⟩, htable⟩ := List.forall_mem_cons.mp htable
    obtain ⟨rest, hcloser⟩ := exists_pieces_eq_of_append (opener :: inner) hlines
    rw [Segment.write, Segment.write, htext]
    rcases pieces_eq_cons hcloser.symm with ⟨body, rest, hbody, rfl, hrest⟩ | ⟨hmem, -, rfl⟩
    · have hbar := hrows.head?_of_mem_pieces (not_mem_lineEnd hbody) (.inr rfl)
      rw [lineEnd_line, List.append_assoc (lineEnd body), ← List.append_assoc,
        List.singleton_append, pieces_append_line]
      exact quiet_append (fun l hl => not_opening_of_head? (hbar l hl)) (ih hrest.symm hpage' htable)
    · -- The block ends the note, so that its last row is the last line.
      have hbar := hrows.head?_of_mem_pieces (not_mem_lineEnd hmem) (.inl rfl)
      cases hrest
      cases hpage'
      rw [Segment.write, ← List.append_assoc, ← List.append_nil (pieces _)]
      exact quiet_append (fun l hl => not_opening_of_head? (hbar l hl)) trivial

/-- The blocks of a page are queries, so that their tables have a line for each row. -/
theorem exists_barred_of_mem_marks {fence note : List Char} {page : List (Segment Query)}
    {notes : List Note}
    (hpage : queries fence note = .ok page) (hnames : ∀ n ∈ notes, '\n' ∉ n.name.toList)
    (hcells : ∀ q ∈ Segment.marks page, ∀ n ∈ notes, ∀ f ∈ q.fields,
      '\n' ∉ (f.resolve n.record).toList) {q : Query}
    (hq : q ∈ Segment.marks page) :
    ∃ rows, Barred rows ∧ (q.run notes).markdown.toList = ['\n'].intercalate rows := by
  have hqueries := Segment.map_spans_of_mapMarks hpage bytes8 id 0
  obtain ⟨r, -, hr⟩ := List.mem_map.mp (hqueries ▸ List.mem_map_of_mem (f := Except.ok) hq)
  have hblock : Query.ofChars r.2.2 = .ok q := by
    rw [query] at hr
    split at hr
    · exact hr
    · cases hr
  refine Table.OneLine.exists_barred ⟨List.forall_mem_cons.mpr ⟨by decide, List.forall_mem_map.mpr ?_⟩,
    List.forall_mem_map.mpr fun n hn => List.forall_mem_cons.mpr ⟨?_, List.forall_mem_map.mpr ?_⟩⟩
  · exact fun f hf => ((Query.canonical_of_ofChars hblock).fields f hf).plain.not_mem
  · have hname := hnames n (List.mem_filter.mp hn).1
    simp [Note.link, hname]
  · exact hcells q hq n (List.mem_filter.mp hn).1

theorem render_render {fence note text : List Char} {notes : List Note}
    (h : render fence note notes = .ok text) (hnames : ∀ n ∈ notes, '\n' ∉ n.name.toList)
    (hcells : ∀ page, queries fence note = .ok page → ∀ q ∈ Segment.marks page,
      ∀ n ∈ notes, ∀ f ∈ q.fields, '\n' ∉ (f.resolve n.record).toList) (notes' : List Note) :
    found fence text = [] ∧ (∃ page, queries fence text = .ok page ∧ Segment.marks page = []) ∧
      render fence text notes' = .ok text := by
  obtain ⟨page, hpage, rfl⟩ := Segment.exists_of_map_eq_ok h
  have hquiet : Quiet fence (pieces (tables notes page)) :=
    (scan_segments fence note).quiet_write rfl hpage
    fun q hq => exists_barred_of_mem_marks hpage hnames (hcells page hpage) hq
  have hmarks := (scan_segments fence (tables notes page)).marks_eq_nil hquiet
  have hfound : found fence (tables notes page) = [] := Segment.spans_eq_nil hmarks
  obtain ⟨page', hpage', hmarks'⟩ := Segment.exists_mapMarks_of_marks_eq_nil (f := query fence) hmarks
  refine ⟨hfound, ⟨page', hpage', hmarks'⟩, ?_⟩
  rw [render, show queries fence (tables notes page) = .ok page' from hpage', Except.map,
    tables_eq_splice hpage', hfound, List.zipWith_nil_left, splice]

theorem render_render_one_block :
    render "q".toList "```q\ntable a\nfrom #p\n```\n".toList
      [⟨"n", "n.md", [("a", .text "x"), ("tags", .text "p")]⟩] =
      .ok "| File | a |\n| --- | --- |\n| [[n]] | x |\n".toList ∧
    ∀ notes, render "q".toList "| File | a |\n| --- | --- |\n| [[n]] | x |\n".toList notes =
      .ok "| File | a |\n| --- | --- |\n| [[n]] | x |\n".toList := by
  have hrender : render "q".toList "```q\ntable a\nfrom #p\n```\n".toList
      [⟨"n", "n.md", [("a", .text "x"), ("tags", .text "p")]⟩] =
      .ok "| File | a |\n| --- | --- |\n| [[n]] | x |\n".toList := rfl
  have hqueries : queries "q".toList "```q\ntable a\nfrom #p\n```\n".toList =
      .ok [.marked ⟨[⟨"a", "a", .whole⟩], "p", none⟩, .plain ['\n']] := rfl
  have hcell : Field.resolve [("a", .text "x"), ("tags", .text "p")] ⟨"a", "a", .whole⟩ = "x" := rfl
  refine ⟨hrender, fun notes => (render_render hrender ?_ ?_ notes).2.2⟩
  · exact List.forall_mem_singleton.mpr (by decide)
  · intro page hpage
    rw [hqueries] at hpage
    cases hpage
    refine List.forall_mem_singleton.mpr
      (List.forall_mem_singleton.mpr (List.forall_mem_singleton.mpr ?_))
    rw [hcell]
    decide

end NoteQuery.Block
