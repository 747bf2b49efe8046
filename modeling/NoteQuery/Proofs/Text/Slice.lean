import NoteQuery.Text.Blank
import NoteQuery.Text.Segment

/-!
# Slices of texts

Cutting texts at positions in bytes. The spans of the marked parts of a text are slices of it, in
order, and writing the marked parts out differently replaces these slices and nothing else.
-/

namespace NoteQuery.Text

set_option autoImplicit false

/-- The text from one position to another. -/
def slice (start stop : Nat) (cs : List Char) : List Char :=
  takeBytes (stop - start) (dropBytes start cs)

@[simp] theorem bytes8_append (xs ys : List Char) : bytes8 (xs ++ ys) = bytes8 xs + bytes8 ys := by
  induction xs with
  | nil => simp [bytes8]
  | cons c xs ih =>
    rw [List.cons_append, bytes8, bytes8, ih]
    omega

theorem bytes8_eq_zero_iff {cs : List Char} : bytes8 cs = 0 ↔ cs = [] := by
  cases cs with
  | nil => simp [bytes8]
  | cons c cs =>
    have hpos := c.utf8Size_pos
    simp only [bytes8, List.cons_ne_nil, iff_false]
    omega

theorem takeBytes_append (xs ys : List Char) : takeBytes (bytes8 xs) (xs ++ ys) = xs := by
  induction xs with
  | nil =>
    cases ys with
    | nil => rfl
    | cons c ys =>
      have hpos := c.utf8Size_pos
      rw [List.nil_append, takeBytes, bytes8, if_neg (by omega)]
  | cons c xs ih => rw [List.cons_append, takeBytes, bytes8, if_pos (by omega),
    Nat.add_sub_cancel_left, ih]

theorem dropBytes_append (xs ys : List Char) : dropBytes (bytes8 xs) (xs ++ ys) = ys := by
  induction xs with
  | nil =>
    cases ys with
    | nil => rfl
    | cons c ys =>
      have hpos := c.utf8Size_pos
      rw [List.nil_append, dropBytes, bytes8, if_neg (by omega)]
  | cons c xs ih => rw [List.cons_append, dropBytes, bytes8, if_pos (by omega),
    Nat.add_sub_cancel_left, ih]

theorem slice_append (xs ys zs : List Char) :
    slice (bytes8 xs) (bytes8 xs + bytes8 ys) (xs ++ (ys ++ zs)) = ys := by
  rw [slice, dropBytes_append, Nat.add_sub_cancel_left, takeBytes_append]

/-- A text with other texts in place of what stands between given positions;
the text starts at the cursor. -/
def splice (cursor : Nat) (cs : List Char) : List (Nat × Nat × List Char) → List Char
  | [] => cs
  | (start, stop, text) :: rest =>
    takeBytes (start - cursor) cs ++ text ++ splice stop (dropBytes (stop - cursor) cs) rest

end NoteQuery.Text

namespace NoteQuery.Segment

set_option autoImplicit false

open Text

variable {α β ε : Type}

theorem le_of_mem_spans {size : List Char → Nat} {f : α → List Char} {offset : Nat}
    {segments : List (Segment α)}
    {r : Nat × Nat × α} (h : r ∈ spans size f offset segments) : offset ≤ r.1 ∧ r.1 ≤ r.2.1 := by
  induction segments generalizing offset with
  | nil => cases h
  | cons segment segments ih =>
    cases segment with
    | plain cs =>
      obtain ⟨hstart, hstop⟩ := ih h
      exact ⟨Nat.le_trans (Nat.le_add_right _ _) hstart, hstop⟩
    | marked a =>
      rcases List.mem_cons.mp h with rfl | h
      · exact ⟨Nat.le_refl _, Nat.le_add_right _ _⟩
      · obtain ⟨hstart, hstop⟩ := ih h
        exact ⟨Nat.le_trans (Nat.le_add_right _ _) hstart, hstop⟩

theorem pairwise_spans (size : List Char → Nat) (f : α → List Char) (offset : Nat)
    (segments : List (Segment α)) :
    (spans size f offset segments).Pairwise fun r s => r.2.1 ≤ s.1 := by
  induction segments generalizing offset with
  | nil => exact .nil
  | cons segment segments ih =>
    cases segment with
    | plain cs => exact ih _
    | marked a => exact .cons (fun s hs => (le_of_mem_spans hs).1) (ih _)

/-- Each span is inside the written text, and what stands there is the written part. -/
theorem slice_of_mem_spans {f : α → List Char} {segments : List (Segment α)}
    (pre : List Char) {r : Nat × Nat × α} (h : r ∈ spans bytes8 f (bytes8 pre) segments) :
    r.2.1 ≤ bytes8 (pre ++ write f segments) ∧ slice r.1 r.2.1 (pre ++ write f segments) = f r.2.2 := by
  induction segments generalizing pre with
  | nil => cases h
  | cons segment segments ih =>
    cases segment with
    | plain cs =>
      rw [spans, ← bytes8_append] at h
      rw [write, ← List.append_assoc]
      exact ih _ h
    | marked a =>
      rcases List.mem_cons.mp h with rfl | h
      · refine ⟨?_, slice_append pre (f a) _⟩
        rw [write, bytes8_append, bytes8_append, ← Nat.add_assoc]
        exact Nat.le_add_right _ _
      · rw [← bytes8_append] at h
        rw [write, ← List.append_assoc]
        exact ih _ h

theorem exists_of_map_eq_ok {f : α → β} {x : Except ε α} {b : β} (h : x.map f = .ok b) :
    ∃ a, x = .ok a ∧ f a = b := by
  cases x with
  | error e => cases h
  | ok a =>
    cases h
    exact ⟨a, rfl, rfl⟩

theorem mapMarks_marked_eq_ok {q : α → Except ε β} {a : α} {segments : List (Segment α)}
    {page : List (Segment β)} (h : mapMarks q (marked a :: segments) = .ok page) :
    ∃ b page', q a = .ok b ∧ mapMarks q segments = .ok page' ∧ page = marked b :: page' := by
  rw [mapMarks] at h
  split at h
  · cases h
  · rename_i b hb
    obtain ⟨page', hpage', rfl⟩ := exists_of_map_eq_ok h
    exact ⟨b, page', hb, hpage', rfl⟩

theorem mapMarks_plain_eq_ok {q : α → Except ε β} {cs : List Char} {segments : List (Segment α)}
    {page : List (Segment β)} (h : mapMarks q (plain cs :: segments) = .ok page) :
    ∃ page', mapMarks q segments = .ok page' ∧ page = plain cs :: page' := by
  obtain ⟨page', hpage', rfl⟩ := exists_of_map_eq_ok h
  exact ⟨page', hpage', rfl⟩

theorem map_spans_of_mapMarks {q : α → Except ε β} {segments : List (Segment α)}
    {page : List (Segment β)}
    (h : mapMarks q segments = .ok page) (size : List Char → Nat) (f : α → List Char) (offset : Nat) :
    (spans size f offset segments).map (fun r => q r.2.2) = (marks page).map .ok := by
  induction segments generalizing offset page with
  | nil =>
    cases h
    rfl
  | cons segment segments ih =>
    cases segment with
    | plain cs =>
      obtain ⟨page', hpage', rfl⟩ := mapMarks_plain_eq_ok h
      exact ih hpage' _
    | marked a =>
      obtain ⟨b, page', hb, hpage', rfl⟩ := mapMarks_marked_eq_ok h
      rw [spans, List.map_cons, marks, List.map_cons, hb, ih hpage']

theorem spans_eq_nil {size : List Char → Nat} {f : α → List Char} {offset : Nat}
    {segments : List (Segment α)}
    (h : marks segments = []) : spans size f offset segments = [] := by
  induction segments generalizing offset with
  | nil => rfl
  | cons segment segments ih =>
    cases segment with
    | plain cs => exact ih h
    | marked a => cases h

theorem exists_mapMarks_of_marks_eq_nil {f : α → Except ε β} {segments : List (Segment α)}
    (h : marks segments = []) :
    ∃ page, mapMarks f segments = .ok page ∧ marks page = [] := by
  induction segments with
  | nil => exact ⟨[], rfl, rfl⟩
  | cons segment segments ih =>
    cases segment with
    | plain cs =>
      obtain ⟨page, hpage, hmarks⟩ := ih h
      exact ⟨plain cs :: page, by rw [mapMarks, hpage, Except.map], hmarks⟩
    | marked a => cases h

/-- Written out differently, the marked parts are replaced in place and all else is kept. -/
theorem write_eq_splice {q : α → Except ε β} {segments : List (Segment α)} {page : List (Segment β)}
    (h : mapMarks q segments = .ok page) (f : α → List Char) (g : β → List Char)
    (cursor : Nat) (pre : List Char) :
    pre ++ write g page = splice cursor (pre ++ write f segments)
      (List.zipWith (fun r b => (r.1, r.2.1, g b)) (spans bytes8 f (cursor + bytes8 pre) segments)
        (marks page)) := by
  induction segments generalizing cursor pre page with
  | nil =>
    cases h
    rfl
  | cons segment segments ih =>
    cases segment with
    | plain cs =>
      obtain ⟨page', hpage', rfl⟩ := mapMarks_plain_eq_ok h
      have hrest := ih hpage' cursor (pre ++ cs)
      rw [bytes8_append, ← Nat.add_assoc, List.append_assoc, List.append_assoc] at hrest
      exact hrest
    | marked a =>
      obtain ⟨b, page', hb, hpage', rfl⟩ := mapMarks_marked_eq_ok h
      have hrest := ih hpage' (cursor + bytes8 pre + bytes8 (f a)) []
      have hstop : cursor + bytes8 pre + bytes8 (f a) - cursor = bytes8 (pre ++ f a) := by
        rw [bytes8_append]
        omega
      rw [spans, marks, List.zipWith_cons_cons, splice, write, write, Nat.add_sub_cancel_left,
        takeBytes_append, hstop, ← List.append_assoc pre (f a), dropBytes_append]
      simpa [List.append_assoc, bytes8] using hrest

end NoteQuery.Segment
