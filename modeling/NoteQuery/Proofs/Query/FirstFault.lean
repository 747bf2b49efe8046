import NoteQuery.Proofs.Query.Ranges
import NoteQuery.Proofs.Text.Pieces

/-!
# The first faulty block

Reading the blocks of a note and rendering the note fail together. They fail when a block has no
proper query, with what is wrong about the first such block. That a block opens its fence is never
in doubt, as the scan has found it by its opening line.
-/

namespace NoteQuery

set_option autoImplicit false

open Text

/-- A function fails on an item of a list, and on no item before it. -/
def FirstFailure {α β ε : Type} (f : α → Except ε β) (e : ε) (xs : List α) : Prop :=
  ∃ before x after, xs = before ++ x :: after ∧ (∀ y ∈ before, ∃ b, f y = .ok b) ∧ f x = .error e

namespace FirstFailure

variable {α β γ ε : Type} {f : α → Except ε β} {e : ε}

theorem not_nil : ¬FirstFailure f e [] := by
  rintro ⟨before, x, after, hsplit, -⟩
  exact List.append_ne_nil_of_right_ne_nil before (List.cons_ne_nil x after) hsplit.symm

theorem cons_iff {x : α} {xs : List α} :
    FirstFailure f e (x :: xs) ↔ f x = .error e ∨ (∃ b, f x = .ok b) ∧ FirstFailure f e xs := by
  constructor
  · rintro ⟨before, y, after, hsplit, hbefore, hy⟩
    cases before with
    | nil =>
      cases hsplit
      exact .inl hy
    | cons z before =>
      cases hsplit
      obtain ⟨hz, hbefore⟩ := List.forall_mem_cons.mp hbefore
      exact .inr ⟨hz, before, y, after, rfl, hbefore, hy⟩
  · rintro (hx | ⟨hx, before, y, after, rfl, hbefore, hy⟩)
    · exact ⟨[], x, xs, rfl, List.forall_mem_nil _, hx⟩
    · exact ⟨x :: before, y, after, rfl, List.forall_mem_cons.mpr ⟨hx, hbefore⟩, hy⟩

theorem map_iff {g : γ → α} {xs : List γ} :
    FirstFailure f e (xs.map g) ↔ FirstFailure (fun x => f (g x)) e xs := by
  induction xs with
  | nil => exact iff_of_false not_nil not_nil
  | cons x xs ih => rw [List.map_cons, cons_iff, cons_iff, ih]

theorem congr {f' : α → Except ε β} {xs : List α} (h : ∀ x ∈ xs, f x = f' x) :
    FirstFailure f e xs ↔ FirstFailure f' e xs := by
  induction xs with
  | nil => exact iff_of_false not_nil not_nil
  | cons x xs ih =>
    obtain ⟨hx, hxs⟩ := List.forall_mem_cons.mp h
    rw [cons_iff, cons_iff, hx, ih hxs]

theorem exists_iff {xs : List α} : (∃ e, FirstFailure f e xs) ↔ ∃ x ∈ xs, ∃ e, f x = .error e := by
  constructor
  · rintro ⟨e, before, x, after, rfl, -, hx⟩
    exact ⟨x, List.mem_append_right before List.mem_cons_self, e, hx⟩
  · rintro ⟨x, hx, e, he⟩
    induction xs with
    | nil => cases hx
    | cons y xs ih =>
      cases hy : f y with
      | error e' => exact ⟨e', cons_iff.mpr (.inl hy)⟩
      | ok b =>
        rcases List.mem_cons.mp hx with rfl | hx
        · rw [hy] at he
          cases he
        · obtain ⟨e', hfirst⟩ := ih hx
          exact ⟨e', cons_iff.mpr (.inr ⟨⟨b, hy⟩, hfirst⟩)⟩

end FirstFailure

namespace Segment

variable {α β ε : Type}

theorem map_spans (size : List Char → Nat) (f : α → List Char) (offset : Nat)
    (segments : List (Segment α)) :
    (spans size f offset segments).map (fun r => r.2.2) = marks segments := by
  induction segments generalizing offset with
  | nil => rfl
  | cons segment segments ih =>
    cases segment with
    | plain cs => exact ih _
    | marked a => exact congrArg (a :: ·) (ih _)

theorem map_eq_error_iff {f : α → β} {x : Except ε α} {e : ε} : x.map f = .error e ↔ x = .error e := by
  cases x <;> simp [Except.map]

theorem mapMarks_eq_error_iff {f : α → Except ε β} {segments : List (Segment α)} {e : ε} :
    mapMarks f segments = .error e ↔ FirstFailure f e (marks segments) := by
  induction segments with
  | nil =>
    refine iff_of_false ?_ FirstFailure.not_nil
    intro h
    cases h
  | cons segment segments ih =>
    cases segment with
    | plain cs => rw [mapMarks, map_eq_error_iff, ih, marks]
    | marked a =>
      rw [mapMarks, marks, FirstFailure.cons_iff]
      cases f a with
      | error e' => simp
      | ok b => simp [map_eq_error_iff, ih]

end Segment

theorem Query.ofChars_ne_notABlock (cs : List Char) (name : String) :
    ofChars cs ≠ .error (.notABlock name) := by
  intro h
  simp only [ofChars] at h
  repeat' split at h
  all_goals cases h

namespace Block

theorem opens_congr {fence line line' : List Char} (h : trim line = trim line') :
    opens fence line = opens fence line' := by
  rw [opens, opens, h]

theorem trim_content (line : List Char) : trim (content line) = trim line := by
  obtain ⟨ending, hending, hline⟩ := exists_dropEndWhile_append (fun c => c == '\r' || c == '\n') line
  have hblank : ∀ c ∈ ending, isBlank c = true := by
    intro c hc
    have hend := hending c hc
    rw [Bool.or_eq_true, beq_iff_eq, beq_iff_eq] at hend
    rcases hend with rfl | rfl <;> decide
  conv_rhs => rw [← hline, trim_append_of_isBlank hblank]
  rfl

/-- An opening line has its mark somewhere, so that trimming a block at its
start stays within that line. -/
theorem trimStart_append_of_opens {fence line : List Char} (h : opens fence line = true)
    (rest : List Char) :
    trimStart (line ++ rest) = trimStart line ++ rest := by
  rw [trimStart, List.dropWhile_append, if_neg]
  · rfl
  · intro hempty
    rw [← trimStart, List.isEmpty_iff] at hempty
    rw [opens, trim, hempty] at h
    cases h

/-- The first line of a block opens the fence, seen from the block as it was seen from the note. -/
theorem opens_head_lines {fence body : List Char} (hbody : '\n' ∉ body)
    (hopening : Opening fence (body ++ ['\n']))
    (rest : List Char) : opens fence ((lines (trimStart (body ++ '\n' :: rest))).headD []) = true := by
  have hline : trim (content (body ++ ['\n'])) = trim body := by
    rw [trim_content, trim_append_of_isBlank isBlank_lineFeed]
  have hopens : opens fence body = true := opens_congr hline ▸ hopening
  have hstart : '\n' ∉ trimStart body := fun hmem => hbody ((List.dropWhile_sublist isBlank).subset hmem)
  have htrim : trim (dropLineEnd (trimStart body ++ ['\n'])) = trim body := by
    rw [trim_dropLineEnd, trim_append_of_isBlank isBlank_lineFeed, trim_trimStart]
  rw [trimStart_append_of_opens hopens, lines_line hstart, List.headD_cons, opens_congr htrim]
  exact hopens

/-- A block that the scan finds is read as a query, whatever is in front of its mark and behind it. -/
theorem query_of_blockAt {fence note : List Char} {r : Nat × Nat × List Char}
    (h : BlockAt fence (pieces note) r) :
    query fence r.2.2 = Query.ofChars r.2.2 := by
  generalize hlines : pieces note = lines at h
  cases h with
  | @mk before opener closer inner after hopening _ _ =>
    obtain ⟨rest, hrest⟩ := exists_pieces_eq_of_append before hlines
    rcases pieces_eq_cons hrest.symm with ⟨body, -, hbody, rfl, -⟩ | ⟨-, -, hnil⟩
    · have hhead := opens_head_lines hbody hopening (inner.flatten ++ content closer)
      rw [query, List.append_assoc, List.append_assoc, List.singleton_append, if_pos hhead]
    · exact absurd hnil (List.append_ne_nil_of_right_ne_nil inner (List.cons_ne_nil closer after))

theorem query_of_mem_found {fence note : List Char} {r : Nat × Nat × List Char}
    (h : r ∈ found fence note) :
    query fence r.2.2 = Query.ofChars r.2.2 :=
  query_of_blockAt ((scan_segments fence note).blockAt [] h)

theorem queries_eq_error_iff {fence note : List Char} {e : QueryError} :
    queries fence note = .error e ↔
      FirstFailure (fun r => Query.ofChars r.2.2) e (found fence note) := by
  rw [queries, Segment.mapMarks_eq_error_iff, ← Segment.map_spans bytes8 id 0, FirstFailure.map_iff]
  exact FirstFailure.congr fun r hr => query_of_mem_found hr

theorem render_eq_error_iff {fence note : List Char} {notes : List Note} {e : QueryError} :
    render fence note notes = .error e ↔ queries fence note = .error e :=
  Segment.map_eq_error_iff

theorem length_marks_of_queries {fence note : List Char} {page : List (Segment Query)}
    (h : queries fence note = .ok page) : (Segment.marks page).length = (found fence note).length := by
  have hqueries := congrArg List.length (Segment.map_spans_of_mapMarks h bytes8 id 0)
  rw [List.length_map, List.length_map] at hqueries
  exact hqueries.symm

theorem fails_at_first_fault (fence note : List Char) :
    (∀ r ∈ found fence note, ∀ name, query fence r.2.2 ≠ .error (.notABlock name)) ∧
    (∀ e, queries fence note = .error e ↔
      FirstFailure (fun r => Query.ofChars r.2.2) e (found fence note)) ∧
    (∀ notes e, render fence note notes = .error e ↔ queries fence note = .error e) ∧
    ((∃ e, queries fence note = .error e) ↔ ∃ r ∈ found fence note, ∃ e,
      Query.ofChars r.2.2 = .error e) ∧
    ((∀ r ∈ found fence note, ∃ q, Query.ofChars r.2.2 = .ok q) → ∃ page, queries fence note = .ok page ∧
      (Segment.marks page).length = (found fence note).length ∧
      ∀ notes, render fence note notes = .ok (tables notes page)) := by
  have hsome : (∃ e, queries fence note = .error e) ↔ ∃ r ∈ found fence note, ∃ e,
    Query.ofChars r.2.2 = .error e := by
    simp only [queries_eq_error_iff]
    exact FirstFailure.exists_iff
  refine ⟨fun r hr name => ?_, fun e => queries_eq_error_iff,
    fun notes e => render_eq_error_iff, hsome, fun hall => ?_⟩
  · rw [query_of_mem_found hr]
    exact Query.ofChars_ne_notABlock r.2.2 name
  · cases hpage : queries fence note with
    | error e =>
      obtain ⟨r, hr, e', he'⟩ := hsome.mp ⟨e, hpage⟩
      obtain ⟨q, hq⟩ := hall r hr
      rw [hq] at he'
      cases he'
    | ok page =>
      refine ⟨page, rfl, length_marks_of_queries hpage, fun notes => ?_⟩
      rw [render, hpage, Except.map]

example : queries "q".toList "x\n\u2003```q\r\ntable a\n``` \n```q\n```\n".toList =
    .error .missingFrom := rfl

end Block

end NoteQuery
