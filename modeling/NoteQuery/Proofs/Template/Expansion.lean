import NoteQuery.Proofs.Text.Mark
import NoteQuery.Proofs.Text.Slice
import NoteQuery.Template.Placeholder

/-!
# Expanding placeholders

A text is laid out as gaps and placeholders in turn, with a rest behind them that has no
placeholder. Expansion replaces each placeholder by the value of its code and nothing else, so texts
that do not share a placeholder are expanded one by one.
-/

namespace NoteQuery.Placeholder

set_option autoImplicit false

open Text

/-- A placeholder and the text between it and the placeholder before it. -/
structure Part where
  gap : List Char
  code : List Char

/-- The gap ends at the first opening mark, and the code at the first closing mark. -/
structure Part.Shortest (p : Part) : Prop where
  gap : Clear openMark p.gap (enclosed p.code)
  code : Clear closeMark p.code closeMark

def laidOut : List Part → List Char → List (Segment (List Char))
  | [], rest => [.plain rest]
  | p :: parts, rest => .plain p.gap :: .marked p.code :: laidOut parts rest

/-- The placeholders of a text, each with the bytes at which it starts and ends. -/
def found (cs : List Char) : List (Nat × Nat × List Char) :=
  Segment.spans bytes8 enclosed 0 (segments cs)

/-- Where the last placeholder ends; without one, the start of the text. -/
def cursor (cs : List Char) : Nat := (found cs).foldl (fun _ span => span.2.1) 0

def behind (cs : List Char) : List Char := dropBytes (cursor cs) cs

/-- A text without placeholders: it has no opening mark, or none that is closed. -/
inductive Bare : List Char → Prop
  | unopened {cs : List Char} (hopen : Clear openMark cs []) : Bare cs
  | unclosed {gap code : List Char} (hopen : Clear openMark gap (openMark ++ code))
    (hclose : Clear closeMark code []) :
      Bare (gap ++ (openMark ++ code))

inductive Scan : List Char → List Part → List Char → Prop
  | rest {cs : List Char} (hbare : Bare cs) : Scan cs [] cs
  | placeholder {p : Part} {cs rest : List Char} {parts : List Part} (hpart : p.Shortest)
    (hrest : Scan cs parts rest) :
      Scan (p.gap ++ (enclosed p.code ++ cs)) (p :: parts) rest

-- On the length of the text, as a placeholder takes several characters at once.
theorem exists_scan (cs : List Char) : ∃ parts rest, Scan cs parts rest := by
  rcases clear_or_exists_first openMark cs with hopen | ⟨gap, opened, hcs, hopen⟩
  · exact ⟨[], cs, .rest (.unopened hopen)⟩
  · rcases clear_or_exists_first closeMark opened with hclose | ⟨code, after, hopened, hclose⟩
    · rw [hcs]
      exact ⟨[], _, .rest (.unclosed hopen hclose)⟩
    · have hsplit : cs = gap ++ (enclosed code ++ after) := by
        rw [hcs, hopened, enclosed, List.append_assoc, List.append_assoc]
      have hshorter : after.length < cs.length := by
        simp only [hsplit, enclosed, List.length_append, openMark, List.length_cons]
        omega
      have hgap : Clear openMark gap (enclosed code ++ after) := by
        rwa [hopened, ← List.append_assoc code, ← List.append_assoc openMark,
          ← List.append_assoc openMark] at hopen
      have hpart : Part.Shortest ⟨gap, code⟩ := ⟨hgap.of_append, hclose.of_append⟩
      obtain ⟨parts, rest, hscan⟩ := exists_scan after
      rw [hsplit]
      exact ⟨⟨gap, code⟩ :: parts, rest, .placeholder hpart hscan⟩
termination_by cs.length

theorem segmentsAfter_none_cons {c : Char} {cs : List Char} (h : ¬openMark <+: c :: cs) :
    segmentsAfter none (c :: cs) = .plain [c] :: segmentsAfter none cs := by
  rw [segmentsAfter]
  rintro r rfl rfl
  exact h ⟨r, rfl⟩

theorem segmentsAfter_some_cons {c : Char} {code cs : List Char} (h : ¬closeMark <+: c :: cs) :
    segmentsAfter (some code) (c :: cs) = segmentsAfter (some (c :: code)) cs := by
  rw [segmentsAfter]
  rintro r rfl rfl
  exact h ⟨r, rfl⟩

theorem segmentsAfter_clear_open {gap cs : List Char} (h : Clear openMark gap cs) :
    segmentsAfter none (gap ++ cs) = gap.map (fun c => .plain [c]) ++ segmentsAfter none cs := by
  induction gap with
  | nil => rfl
  | cons c gap ih =>
    obtain ⟨hstart, hgap⟩ := clear_cons_iff.mp h
    rw [List.cons_append, segmentsAfter_none_cons hstart, ih hgap, List.map_cons, List.cons_append]

theorem segmentsAfter_clear_close {code cs : List Char} (h : Clear closeMark code cs)
    (before : List Char) :
    segmentsAfter (some before) (code ++ cs) = segmentsAfter (some (code.reverse ++ before)) cs := by
  induction code generalizing before with
  | nil => rfl
  | cons c code ih =>
    obtain ⟨hstart, hcode⟩ := clear_cons_iff.mp h
    rw [List.cons_append, segmentsAfter_some_cons hstart, ih hcode, List.reverse_cons, List.append_assoc,
      List.singleton_append]

theorem segments_unopened {cs : List Char} (h : Clear openMark cs []) :
    segments cs = cs.map (fun c => .plain [c]) ++ [] := by
  have hcs := segmentsAfter_clear_open h
  rwa [List.append_nil] at hcs

theorem segments_unclosed {gap code : List Char} (hopen : Clear openMark gap (openMark ++ code))
    (hclose : Clear closeMark code []) :
    segments (gap ++ (openMark ++ code)) =
      gap.map (fun c => .plain [c]) ++ [.plain (openMark ++ code)] := by
  have hcode := segmentsAfter_clear_close hclose []
  rw [List.append_nil, List.append_nil] at hcode
  have hopened : segmentsAfter none (openMark ++ code) = segmentsAfter (some []) code := rfl
  rw [segments, segmentsAfter_clear_open hopen, hopened, hcode, segmentsAfter, List.reverse_reverse]

theorem segments_placeholder {p : Part} (h : p.Shortest) (cs : List Char) :
    segments (p.gap ++ (enclosed p.code ++ cs)) =
      p.gap.map (fun c => .plain [c]) ++ .marked p.code :: segments cs := by
  have hgap : Clear openMark p.gap (enclosed p.code ++ cs) := h.gap.append (Nat.le_add_left _ _) cs
  have hcode : Clear closeMark p.code (closeMark ++ cs) := h.code.append (Nat.le_succ _) cs
  have hopened : segmentsAfter none (enclosed p.code ++ cs) =
      segmentsAfter (some []) (p.code ++ (closeMark ++ cs)) := by
    rw [enclosed, List.append_assoc, List.append_assoc]
    rfl
  have hclosed : segmentsAfter (some p.code.reverse) (closeMark ++ cs) =
      .marked p.code :: segmentsAfter none cs := by
    have hmark : segmentsAfter (some p.code.reverse) (closeMark ++ cs) =
      .marked p.code.reverse.reverse :: segmentsAfter none cs := rfl
    rw [hmark, List.reverse_reverse]
  rw [segments, segmentsAfter_clear_open hgap, hopened, segmentsAfter_clear_close hcode,
    List.append_nil, hclosed]
  rfl

theorem write_map_plain (f : List Char → List Char) (cs : List Char)
    (segments : List (Segment (List Char))) :
    Segment.write f (cs.map (fun c => .plain [c]) ++ segments) = cs ++ Segment.write f segments := by
  induction cs with
  | nil => rfl
  | cons c cs ih => rw [List.map_cons, List.cons_append, Segment.write, ih,
    List.singleton_append, List.cons_append]

theorem spans_map_plain (f : List Char → List Char) (offset : Nat) (cs : List Char)
    (segments : List (Segment (List Char))) :
    Segment.spans bytes8 f offset (cs.map (fun c => .plain [c]) ++ segments) =
      Segment.spans bytes8 f (offset + bytes8 cs) segments := by
  induction cs generalizing offset with
  | nil => rfl
  | cons c cs ih =>
    rw [List.map_cons, List.cons_append, Segment.spans, ih, Nat.add_assoc, ← bytes8_append,
      List.singleton_append]

namespace Bare

variable {cs : List Char} (h : Bare cs)
include h

theorem write_segments (f : List Char → List Char) : Segment.write f (segments cs) = cs := by
  cases h with
  | unopened hopen => rw [segments_unopened hopen, write_map_plain, Segment.write, List.append_nil]
  | unclosed hopen hclose =>
    rw [segments_unclosed hopen hclose, write_map_plain, Segment.write, Segment.write, List.append_nil]

theorem spans_segments (offset : Nat) : Segment.spans bytes8 enclosed offset (segments cs) = [] := by
  cases h with
  | unopened hopen => rw [segments_unopened hopen, spans_map_plain, Segment.spans]
  | unclosed hopen hclose =>
    rw [segments_unclosed hopen hclose, spans_map_plain, Segment.spans, Segment.spans]

theorem not_closed (u v w : List Char) : cs ≠ u ++ openMark ++ v ++ closeMark ++ w := by
  intro hmarks
  cases h with
  | unopened hopen =>
    have hlength := hopen u (v ++ closeMark ++ w) (by simp [hmarks])
    rw [hmarks] at hlength
    simp only [List.length_append, openMark, List.length_cons] at hlength
    omega
  | @unclosed gap code hopen hclose =>
    have hgap := hopen u (v ++ closeMark ++ w) (by simp [hmarks])
    -- The closing mark begins behind the first opening mark, so it is in the code.
    have hprefix : gap ++ openMark <+: u ++ openMark ++ v := by
      apply List.prefix_of_prefix_length_le ⟨code, List.append_assoc gap openMark code⟩
      · exact ⟨closeMark ++ w, by simp [hmarks]⟩
      · simp only [List.length_append]
        omega
    obtain ⟨inner, hinner⟩ := hprefix
    have hcode : code = inner ++ closeMark ++ w := by
      rw [← hinner, ← List.append_assoc gap] at hmarks
      simpa using hmarks
    have hlength := hclose inner w (by simp [hcode])
    rw [hcode] at hlength
    simp only [List.length_append, closeMark, List.length_cons] at hlength
    omega

end Bare

namespace Scan

variable {cs rest : List Char} {parts : List Part} (h : Scan cs parts rest)
include h

theorem text_eq : cs = Segment.write enclosed (laidOut parts rest) := by
  induction h with
  | rest => rw [laidOut, Segment.write, Segment.write, List.append_nil]
  | placeholder _ _ ih => rw [laidOut, Segment.write, Segment.write, ← ih]

theorem write_segments (f : List Char → List Char) :
    Segment.write f (segments cs) = Segment.write f (laidOut parts rest) := by
  induction h with
  | rest hbare => rw [hbare.write_segments, laidOut, Segment.write, Segment.write, List.append_nil]
  | placeholder hpart _ ih =>
    rw [segments_placeholder hpart, write_map_plain, Segment.write, ih, laidOut,
      Segment.write, Segment.write]

theorem spans_segments (offset : Nat) :
    Segment.spans bytes8 enclosed offset (segments cs) = Segment.spans bytes8 enclosed offset
      (laidOut parts rest) := by
  induction h generalizing offset with
  | rest hbare => rw [hbare.spans_segments, laidOut, Segment.spans, Segment.spans]
  | placeholder hpart _ ih =>
    rw [segments_placeholder hpart, spans_map_plain, Segment.spans, ih, laidOut,
      Segment.spans, Segment.spans]

theorem shortest : ∀ p ∈ parts, p.Shortest := by
  induction h with
  | rest => exact List.forall_mem_nil _
  | placeholder hpart _ ih => exact List.forall_mem_cons.mpr ⟨hpart, ih⟩

theorem bare_rest : Bare rest := by
  induction h with
  | rest hbare => exact hbare
  | placeholder _ _ ih => exact ih

/-- Text behind the rest is scanned on its own, unless an opening mark begins in the rest. -/
theorem write_segments_append {more : List Char} (hmore : Clear openMark rest more)
    (f : List Char → List Char) :
    Segment.write f (segments (cs ++ more)) =
      Segment.write f (segments cs) ++ Segment.write f (segments more) := by
  induction h with
  | @rest cs hbare =>
    have happend : segments (cs ++ more) = cs.map (fun c => .plain [c]) ++ segments more :=
      segmentsAfter_clear_open hmore
    rw [happend, write_map_plain, hbare.write_segments]
  | placeholder hpart _ ih =>
    rw [List.append_assoc, List.append_assoc, segments_placeholder hpart,
      segments_placeholder hpart, write_map_plain,
      write_map_plain, Segment.write, Segment.write, ih hmore, List.append_assoc, List.append_assoc]

end Scan

theorem exists_before_rest (parts : List Part) (rest : List Char) (offset : Nat) :
    ∃ before, Segment.write enclosed (laidOut parts rest) = before ++ rest ∧
      (Segment.spans bytes8 enclosed offset (laidOut parts rest)).foldl (fun _ span => span.2.1) offset =
        offset + bytes8 before := by
  induction parts generalizing offset with
  | nil => exact ⟨[], List.append_nil rest, rfl⟩
  | cons p parts ih =>
    obtain ⟨before, hwrite, hcursor⟩ := ih (offset + bytes8 p.gap + bytes8 (enclosed p.code))
    refine ⟨p.gap ++ (enclosed p.code ++ before), ?_, ?_⟩
    · rw [laidOut, Segment.write, Segment.write, hwrite, List.append_assoc, List.append_assoc]
    · rw [laidOut, Segment.spans, Segment.spans, List.foldl_cons, hcursor, bytes8_append, bytes8_append]
      omega

theorem Scan.rest_eq_behind {cs rest : List Char} {parts : List Part} (h : Scan cs parts rest) :
    rest = behind cs := by
  obtain ⟨before, hwrite, hcursor⟩ := exists_before_rest parts rest 0
  have htext : cs = before ++ rest := h.text_eq.trans hwrite
  have hbehind : behind cs = dropBytes (bytes8 before) cs := by
    rw [behind, cursor, found, h.spans_segments, hcursor, Nat.zero_add]
  rw [hbehind, htext, dropBytes_append]

theorem clear_open_of_not_infix {cs more : List Char} (h : ¬openMark <:+: behind cs)
    (hjoin : ¬(cs.getLast? = some '<' ∧ more.head? = some '%')) : Clear openMark (behind cs) more := by
  apply clear_of_not_infix h
  rintro ⟨hlast, hhead⟩
  obtain ⟨parts, rest, hscan⟩ := exists_scan cs
  obtain ⟨before, hwrite, -⟩ := exists_before_rest parts rest 0
  apply hjoin
  rw [← hscan.rest_eq_behind] at hlast
  rw [hscan.text_eq, hwrite, List.getLast?_append, hlast]
  exact ⟨rfl, hhead⟩

theorem expand_append {cs more : List Char} (h : ¬openMark <:+: behind cs)
    (hjoin : ¬(cs.getLast? = some '<' ∧ more.head? = some '%')) (now : Instant) :
    expand now (cs ++ more) = expand now cs ++ expand now more := by
  obtain ⟨parts, rest, hscan⟩ := exists_scan cs
  have hclear := clear_open_of_not_infix h hjoin
  rw [← hscan.rest_eq_behind] at hclear
  exact hscan.write_segments_append hclear (value now)

theorem scan_exact_and_expand_local (cs : List Char) :
    (∃ parts rest, cs = Segment.write enclosed (laidOut parts rest) ∧
      found cs = Segment.spans bytes8 enclosed 0 (laidOut parts rest) ∧
      (∀ p ∈ parts, p.Shortest) ∧ (∀ u v w, rest ≠ u ++ openMark ++ v ++ closeMark ++ w) ∧
        rest = behind cs ∧
      ∀ now, expand now cs = Segment.write (value now) (laidOut parts rest)) ∧
    (∀ now code, (∀ v, Expr.evalText now.environment (String.ofList (trim code)) = .ok v →
      value now code = v.chars) ∧
      ∀ e, Expr.evalText now.environment (String.ofList (trim code)) = .error e →
        value now code = "<Error: ".toList ++ e.message.toList ++ ['>']) ∧
    ∀ more, ¬openMark <:+: behind cs → ¬(cs.getLast? = some '<' ∧ more.head? = some '%') →
      ∀ now, expand now (cs ++ more) = expand now cs ++ expand now more := by
  obtain ⟨parts, rest, hscan⟩ := exists_scan cs
  refine ⟨⟨parts, rest, ?_⟩, ?_, ?_⟩
  · exact ⟨hscan.text_eq, hscan.spans_segments 0, hscan.shortest, hscan.bare_rest.not_closed,
      hscan.rest_eq_behind, fun now => hscan.write_segments (value now)⟩
  · intro now code
    constructor
    · intro v hv
      rw [value, hv]
    · intro e he
      rw [value, he]
  · intro more hopen hjoin now
    exact expand_append hopen hjoin now

theorem scan_exact_and_expand_local_text : ¬openMark <:+: behind "x<%'a'%>y".toList ∧ ∀ now,
    value now "'a'".toList = ['a'] ∧
    expand now ("x<%'a'%>y".toList ++ "<%".toList) =
      expand now "x<%'a'%>y".toList ++ expand now "<%".toList := by
  have hopen : ¬openMark <:+: behind "x<%'a'%>y".toList := by decide
  obtain ⟨-, hvalue, happend⟩ := scan_exact_and_expand_local "x<%'a'%>y".toList
  refine ⟨hopen, fun now => ⟨?_, happend "<%".toList hopen (by decide) now⟩⟩
  apply (hvalue now "'a'".toList).1 (.text "a")
  cbv

end NoteQuery.Placeholder
