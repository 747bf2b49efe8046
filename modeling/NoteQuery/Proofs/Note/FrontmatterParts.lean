import NoteQuery.Note.Frontmatter
import NoteQuery.Proofs.Text.Pieces

/-!
# The parts of a note with frontmatter

A note whose frontmatter is closed is made of parts that can be told apart in only one way.
Splitting the note finds its YAML and its body among them, so that nothing is lost and nothing is
cut elsewhere. All other notes are refused.
-/

namespace NoteQuery

set_option autoImplicit false

open Text

namespace Frontmatter

theorem isMark_iff {line : List Char} : isMark line = true ↔ trimEnd line = mark := beq_iff_eq

theorem isMark_congr {line line' : List Char} (h : trimEnd line = trimEnd line') :
    isMark line = isMark line' := by
  rw [isMark, isMark, h]

theorem isMark_line (body : List Char) : isMark (body ++ ['\n']) = isMark body :=
  isMark_congr (trimEnd_append_of_isBlank isBlank_lineFeed body)

def Spaces (cs : List Char) : Prop := ∀ c ∈ cs, isBlank c = true ∧ c ≠ '\n'

theorem Spaces.isMark {cs : List Char} (h : Spaces cs) : isMark (mark ++ cs) = true := by
  rw [isMark_iff, trimEnd_append_of_isBlank fun c hc => (h c hc).1]
  rfl

theorem Spaces.not_mem {cs : List Char} (h : Spaces cs) : '\n' ∉ mark ++ cs := by
  rw [List.mem_append, not_or]
  exact ⟨by decide, fun hmem => (h '\n' hmem).2 rfl⟩

theorem exists_spaces_of_isMark {line : List Char} (h : isMark line = true) (hline : '\n' ∉ line) :
    ∃ cs, Spaces cs ∧ line = mark ++ cs := by
  obtain ⟨ending, hending, hsplit⟩ := exists_dropEndWhile_append isBlank line
  rw [← trimEnd, isMark_iff.mp h] at hsplit
  refine ⟨ending, fun c hc => ⟨hending c hc, ?_⟩, hsplit.symm⟩
  rintro rfl
  exact hline (hsplit ▸ List.mem_append_right mark hc)

/-- What a note with closed frontmatter is made of. -/
@[ext]
structure Parts where
  byteOrderMark : Bool
  blanks : List Char
  /-- What follows the opening mark on its line. -/
  afterOpening : List Char
  lines : List (List Char)
  afterClosing : List Char
  /-- What follows the line feed of the closing line; without it the note ends there. -/
  rest? : Option (List Char)
  isBlank_of_mem : ∀ c ∈ blanks, isBlank c = true
  spaces_opening : Spaces afterOpening
  ne_mark : ∀ line ∈ lines, '\n' ∉ line ∧ trimEnd line ≠ mark
  spaces_closing : Spaces afterClosing

namespace Parts

def start (p : Parts) : List Char := (if p.byteOrderMark then ['\ufeff'] else []) ++ p.blanks

def opening (p : Parts) : List Char := mark ++ p.afterOpening ++ ['\n']

def yaml (p : Parts) : List Char := p.lines.flatMap (· ++ ['\n'])

def closing (p : Parts) : List Char := mark ++ p.afterClosing ++ if p.rest?.isSome then ['\n'] else []

def rest (p : Parts) : List Char := p.rest?.getD []

def text (p : Parts) : List Char := p.start ++ (p.opening ++ (p.yaml ++ (p.closing ++ p.rest)))

theorem isMark_opening (p : Parts) : isMark p.opening = true := by
  rw [opening, isMark_line]
  exact p.spaces_opening.isMark

theorem isMark_closing (p : Parts) : isMark p.closing = true := by
  rw [closing]
  split
  · rw [isMark_line]
    exact p.spaces_closing.isMark
  · rw [List.append_nil]
    exact p.spaces_closing.isMark

theorem isMark_of_mem_lines (p : Parts) : ∀ line ∈ p.lines.map (· ++ ['\n']), isMark line = false := by
  rw [List.forall_mem_map]
  intro line hline
  rw [isMark_line, Bool.eq_false_iff, Ne, isMark_iff]
  exact (p.ne_mark line hline).2

theorem pieces_closing (p : Parts) : pieces (p.closing ++ p.rest) = p.closing :: pieces p.rest := by
  rw [closing, rest]
  cases p.rest? with
  | none =>
    have hne : mark ++ p.afterClosing ≠ [] := List.append_ne_nil_of_left_ne_nil (by decide) _
    simpa [pieces] using pieces_of_not_mem hne p.spaces_closing.not_mem
  | some rest => simpa using pieces_line p.spaces_closing.not_mem rest

end Parts

theorem body_of_ne {note : List Char} (h : ∀ r, note ≠ '\ufeff' :: r) : body note = trimStart note := by
  rw [body]
  exact h

theorem body_append {byteOrderMark : Bool} {blanks note : List Char}
    (hblanks : ∀ c ∈ blanks, isBlank c = true) (hnote : note.head? = some '-') :
    body ((if byteOrderMark then ['\ufeff'] else []) ++ blanks ++ note) = note := by
  obtain ⟨r, rfl⟩ := List.head?_eq_some_iff.mp hnote
  have htrim : trimStart (blanks ++ '-' :: r) = '-' :: r := by
    rw [trimStart, List.dropWhile_append_of_pos hblanks]
    exact trimStart_cons_of_neg (by decide) r
  cases byteOrderMark with
  | true => exact htrim
  | false =>
    rw [if_neg Bool.false_ne_true, List.nil_append, body_of_ne, htrim]
    -- Neither a blank nor the first hyphen is a byte order mark.
    intro r' hr'
    cases blanks with
    | nil => exact absurd (List.cons.inj hr').1 (by decide)
    | cons c blanks =>
      rw [(List.cons.inj hr').1] at hblanks
      exact absurd (hblanks _ List.mem_cons_self) (by decide)

theorem exists_start (note : List Char) : ∃ (byteOrderMark : Bool) (blanks : List Char),
    (∀ c ∈ blanks, isBlank c = true) ∧
      note = (if byteOrderMark then ['\ufeff'] else []) ++ blanks ++ body note := by
  have htrim : ∀ cs : List Char, cs = cs.takeWhile isBlank ++ trimStart cs :=
    fun cs => List.takeWhile_append_dropWhile.symm
  by_cases hmark : ∃ r, note = '\ufeff' :: r
  · obtain ⟨r, rfl⟩ := hmark
    exact ⟨true, _, fun c => List.mem_takeWhile_imp, congrArg ('\ufeff' :: ·) (htrim r)⟩
  · refine ⟨false, note.takeWhile isBlank, fun c => List.mem_takeWhile_imp, ?_⟩
    rw [body_of_ne (not_exists.mp hmark)]
    exact htrim note

theorem Parts.body_text (p : Parts) : body p.text = p.opening ++ (p.yaml ++ (p.closing ++ p.rest)) :=
  body_append p.isBlank_of_mem rfl

theorem Parts.pieces_text (p : Parts) :
    pieces (body p.text) = p.opening :: (p.lines.map (· ++ ['\n']) ++ p.closing :: pieces p.rest) := by
  rw [p.body_text, opening, List.append_assoc (mark ++ _), List.singleton_append,
    pieces_line p.spaces_opening.not_mem, yaml,
    pieces_flatMap_append fun line hline => (p.ne_mark line hline).1, pieces_closing]

theorem isOpened_eq {note line : List Char} {lines : List (List Char)}
    (h : pieces (body note) = line :: lines) :
    isOpened note = isMark line := by
  rw [isOpened, Text.lines, h, List.map_cons, List.headD_cons, isMark_congr (trimEnd_dropLineEnd line)]

theorem exists_pieces_of_isOpened {note : List Char} (h : isOpened note = true) :
    ∃ line lines, pieces (body note) = line :: lines ∧ isMark line = true := by
  cases hpieces : pieces (body note) with
  | nil =>
    rw [isOpened, Text.lines, hpieces] at h
    cases h
  | cons line lines => exact ⟨line, lines, rfl, isOpened_eq hpieces ▸ h⟩

/-- The lines of a note that can be split: marks open and close the YAML, and none is between them. -/
theorem split_eq_ok_iff {note yaml rest : List Char} : split note = .ok (yaml, rest) ↔
    ∃ opening inner closing after, pieces (body note) = opening :: (inner ++ closing :: after) ∧
      isMark opening = true ∧
      (∀ line ∈ inner, isMark line = false) ∧ isMark closing = true ∧ yaml = inner.flatten ∧
        rest = after.flatten := by
  constructor
  · intro h
    rw [split] at h
    split at h
    · cases h
    · rename_i hopened
      obtain ⟨opening, lines, hpieces, hopening⟩ := exists_pieces_of_isOpened (by simpa using hopened)
      simp only [hpieces, List.drop_one, List.tail_cons] at h
      split at h
      · cases h
      · rename_i closing after hdrop
        cases h
        refine ⟨opening, _, closing, after, ?_, hopening, fun line hline => ?_, ?_, rfl, rfl⟩
        · rw [← hdrop, List.takeWhile_append_dropWhile, hpieces]
        · simpa using List.mem_takeWhile_imp hline
        · have hhead := List.head?_dropWhile_not (fun line => !isMark line) lines
          rw [hdrop] at hhead
          simpa using hhead
  · rintro ⟨opening, inner, closing, after, hpieces, hopening, hinner, hclosing, rfl, rfl⟩
    have hopened : isOpened note = true := (isOpened_eq hpieces).trans hopening
    have hnot : ∀ line ∈ inner, (!isMark line) = true := by simpa using hinner
    rw [split, if_neg (by simp [hopened])]
    simp [hpieces, List.dropWhile_append_of_pos hnot, List.takeWhile_append_of_pos hnot, hclosing]

theorem Parts.split_text (p : Parts) : split p.text = .ok (p.yaml, p.rest) := by
  refine split_eq_ok_iff.mpr ⟨_, _, _, _, p.pieces_text, p.isMark_opening, p.isMark_of_mem_lines,
    p.isMark_closing, ?_, ?_⟩
  · rw [yaml, List.flatMap_def]
  · rw [flatten_pieces]

theorem exists_afterClosing {cs closing : List Char} {after : List (List Char)}
    (h : pieces cs = closing :: after) (hclosing : isMark closing = true) :
    ∃ (afterClosing : List Char) (rest? : Option (List Char)), Spaces afterClosing ∧
      closing = (mark ++ afterClosing ++ if rest?.isSome then ['\n'] else []) ∧
        rest?.getD [] = after.flatten := by
  rcases pieces_eq_cons h with ⟨line, rest, hline, rfl, rfl⟩ | ⟨hline, -, rfl⟩
  · rw [isMark_line] at hclosing
    obtain ⟨afterClosing, hspaces, rfl⟩ := exists_spaces_of_isMark hclosing hline
    exact ⟨afterClosing, some rest, hspaces, rfl, (flatten_pieces rest).symm⟩
  · obtain ⟨afterClosing, hspaces, rfl⟩ := exists_spaces_of_isMark hclosing hline
    exact ⟨afterClosing, none, hspaces, (List.append_nil _).symm, rfl⟩

theorem exists_parts_of_split {note yaml rest : List Char} (h : split note = .ok (yaml, rest)) :
    ∃ p : Parts, p.text = note ∧ p.yaml = yaml ∧ p.rest = rest := by
  obtain ⟨opening, inner, closing, after, hpieces, hopening, hinner, hclosing, rfl, rfl⟩ :=
    split_eq_ok_iff.mp h
  obtain ⟨byteOrderMark, blanks, hblanks, hnote⟩ := exists_start note
  obtain ⟨bodies, hbodies, hlines⟩ := exists_bodies_of_pieces_eq (opening :: inner) hpieces
  obtain ⟨cs, hcs⟩ := exists_pieces_eq_of_append (opening :: inner) hpieces
  obtain ⟨afterClosing, rest?, hspaces, rfl, hrest⟩ := exists_afterClosing hcs.symm hclosing
  cases bodies with
  | nil => cases hlines
  | cons first lines =>
    obtain ⟨rfl, rfl⟩ := List.cons.inj hlines
    obtain ⟨hfirst, hothers⟩ := List.forall_mem_cons.mp hbodies
    rw [isMark_line] at hopening
    obtain ⟨afterOpening, hopeningSpaces, rfl⟩ := exists_spaces_of_isMark hopening hfirst
    have hmark : ∀ line ∈ lines, '\n' ∉ line ∧ trimEnd line ≠ mark := by
      intro line hline
      have hline' := hinner _ (List.mem_map_of_mem hline)
      rw [isMark_line, Bool.eq_false_iff, Ne, isMark_iff] at hline'
      exact ⟨hothers line hline, hline'⟩
    refine ⟨⟨byteOrderMark, blanks, afterOpening, lines, afterClosing, rest?, hblanks,
      hopeningSpaces, hmark, hspaces⟩, ?_, List.flatMap_def, hrest⟩
    rw [hnote, ← flatten_pieces (body note), hpieces]
    simp [Parts.text, Parts.start, Parts.opening, Parts.yaml, Parts.closing, Parts.rest,
      hrest, List.flatMap_def]

/-- Two ways to cut a list at the first item of a kind are the same. -/
theorem eq_of_first_eq {α : Type} {kind : α → Bool} {xs xs' ys ys' : List α} {x x' : α}
    (hxs : ∀ a ∈ xs, kind a = false)
    (hx : kind x = true) (hxs' : ∀ a ∈ xs', kind a = false) (hx' : kind x' = true)
    (h : xs ++ x :: ys = xs' ++ x' :: ys') : xs = xs' ∧ x = x' ∧ ys = ys' := by
  induction xs generalizing xs' with
  | nil =>
    cases xs' with
    | nil =>
      obtain ⟨rfl, rfl⟩ := List.cons.inj h
      exact ⟨rfl, rfl, rfl⟩
    | cons a xs' =>
      rw [(List.cons.inj h).1, hxs' a List.mem_cons_self] at hx
      cases hx
  | cons a xs ih =>
    cases xs' with
    | nil =>
      rw [← (List.cons.inj h).1, hxs a List.mem_cons_self] at hx'
      cases hx'
    | cons a' xs' =>
      obtain ⟨rfl, hrest⟩ := List.cons.inj h
      obtain ⟨rfl, rfl, rfl⟩ := ih (List.forall_mem_cons.mp hxs).2 (List.forall_mem_cons.mp hxs').2 hrest
      exact ⟨rfl, rfl, rfl⟩

namespace Parts

variable {p q : Parts}

theorem eq_of_start_eq (h : p.start = q.start) :
    p.byteOrderMark = q.byteOrderMark ∧ p.blanks = q.blanks := by
  have hblank : ∀ r : Parts, '\ufeff' ∉ r.blanks :=
    fun r hmem => absurd (r.isBlank_of_mem _ hmem) (by decide)
  have hp := hblank p
  have hq := hblank q
  rw [start, start] at h
  cases hpMark : p.byteOrderMark <;> cases hqMark : q.byteOrderMark <;> simp only [hpMark, hqMark] at h
  · exact ⟨rfl, h⟩
  · rw [show p.blanks = '\ufeff' :: q.blanks from h] at hp
    exact absurd List.mem_cons_self hp
  · rw [show q.blanks = '\ufeff' :: p.blanks from h.symm] at hq
    exact absurd List.mem_cons_self hq
  · exact ⟨rfl, (List.cons.inj h).2⟩

theorem eq_of_closing_eq (hclosing : p.closing = q.closing) (hrest : p.rest = q.rest) :
    p.afterClosing = q.afterClosing ∧ p.rest? = q.rest? := by
  have hp := p.spaces_closing.not_mem
  have hq := q.spaces_closing.not_mem
  rw [closing, closing] at hclosing
  rw [rest, rest] at hrest
  cases hpRest : p.rest? <;> cases hqRest : q.rest? <;>
    simp only [hpRest, hqRest, Option.isSome_none, Option.isSome_some, if_true,
      Bool.false_eq_true, if_false,
      List.append_nil, Option.getD_none, Option.getD_some] at hclosing hrest
  · exact ⟨List.append_cancel_left hclosing, rfl⟩
  · rw [hclosing] at hp
    exact absurd (List.mem_append_right _ List.mem_cons_self) hp
  · rw [← hclosing] at hq
    exact absurd (List.mem_append_right _ List.mem_cons_self) hq
  · exact ⟨List.append_cancel_left (List.append_cancel_right hclosing), congrArg some hrest⟩

theorem eq_of_text_eq (h : p.text = q.text) : p = q := by
  have hstart : p.start = q.start := by
    have htext : p.start ++ body p.text = q.start ++ body q.text := by
      rw [body_text, body_text]
      exact h
    rw [h] at htext
    exact List.append_cancel_right htext
  have hpieces : pieces (body p.text) = pieces (body q.text) := by rw [h]
  rw [pieces_text, pieces_text] at hpieces
  obtain ⟨hopening, hlines⟩ := List.cons.inj hpieces
  obtain ⟨hinner, hclosing, hafter⟩ :=
    eq_of_first_eq p.isMark_of_mem_lines p.isMark_closing q.isMark_of_mem_lines
    q.isMark_closing hlines
  have hrest : p.rest = q.rest := by rw [← flatten_pieces p.rest, hafter, flatten_pieces]
  obtain ⟨hmark, hblanks⟩ := eq_of_start_eq hstart
  obtain ⟨hafterClosing, hrest?⟩ := eq_of_closing_eq hclosing hrest
  have hafterOpening : p.afterOpening = q.afterOpening :=
    List.append_cancel_left (List.append_cancel_right hopening)
  have hinjective : Function.Injective fun line : List Char => line ++ ['\n'] :=
    fun line line' => List.append_cancel_right
  exact Parts.ext hmark hblanks hafterOpening (List.map_injective_iff.mpr hinjective hinner)
    hafterClosing hrest?

end Parts

/-- The frontmatter of a note that cannot be split is not opened or not closed. -/
theorem of_split_eq_error {note : List Char} {e : FrontmatterError} (h : split note = .error e) :
    isOpened note = false ∧ e = .notOpened ∨ isOpened note = true ∧ e = .notClosed := by
  simp only [split] at h
  split at h
  · rename_i hopened
    cases h
    exact .inl ⟨by simpa using hopened, rfl⟩
  · rename_i hopened
    split at h
    · cases h
      exact .inr ⟨by simpa using hopened, rfl⟩
    · cases h

theorem split_exact_and_lossless (note : List Char) :
    (∀ yaml rest, split note = .ok (yaml, rest) ↔ ∃ p : Parts, p.text = note ∧
      p.yaml = yaml ∧ p.rest = rest) ∧
    (∀ p q : Parts, p.text = note → q.text = note → p = q) ∧
    ((∀ p : Parts, p.text ≠ note) → ∃ e reason, split note = .error e ∧
      e.message = "parse error: " ++ reason ∧
      (isOpened note = false ∧ e = .notOpened ∨ isOpened note = true ∧ e = .notClosed)) ∧
    (isOpened note = false → record note = .ok .empty) := by
  refine ⟨fun yaml rest => ⟨exists_parts_of_split, ?_⟩,
    fun p q hp hq => Parts.eq_of_text_eq (hp.trans hq.symm), fun hnone => ?_, fun hopened => ?_⟩
  · rintro ⟨p, rfl, rfl, rfl⟩
    exact p.split_text
  · cases hsplit : split note with
    | ok found =>
      obtain ⟨yaml, rest⟩ := found
      obtain ⟨p, hp, -⟩ := exists_parts_of_split hsplit
      exact absurd hp (hnone p)
    | error e =>
      rcases of_split_eq_error hsplit with ⟨hopened, rfl⟩ | ⟨hopened, rfl⟩
      · exact ⟨_, "File must start with '---' frontmatter delimiter", rfl, rfl, .inl ⟨hopened, rfl⟩⟩
      · exact ⟨_, "No closing '---' frontmatter delimiter found", rfl, rfl, .inr ⟨hopened, rfl⟩⟩
  · rw [record, hopened]
    rfl

example : split "\ufeff \n---\t\r\na---\r\n\n---\u2003".toList = .ok ("a---\r\n\n".toList, []) := rfl

end Frontmatter

end NoteQuery
