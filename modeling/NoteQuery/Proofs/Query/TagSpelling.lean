import NoteQuery.Note.Basic
import NoteQuery.Proofs.Query.Canonical

/-!
# Tags and how they are spelled

A query and a note both drop one hash and the blanks around a tag, but only the query also
drops the blanks behind the hash. So a note that stores the tag as the query spells it is
found unless there are such blanks.
-/

namespace NoteQuery

set_option autoImplicit false

open Text

/-- A hash at the start of the trimmed text with a blank directly behind it. -/
def BlankAfterHash (cs : List Char) : Prop := ∃ c r, trim cs = '#' :: c :: r ∧ isBlank c = true

theorem trimEnd_behind_hash {cs r : List Char} (h : trim cs = '#' :: r) : trimEnd r = r := by
  have hend := (trim_eq_self_iff.mp (trim_trim cs)).2
  rw [h, trimEnd, dropEndWhile_cons_of_neg (by decide)] at hend
  exact (List.cons.inj hend).2

theorem trim_eq_self_iff_not_blank {c : Char} {r : List Char} (hend : trimEnd (c :: r) = c :: r) :
    trim (c :: r) = c :: r ↔ isBlank c = false := by
  rw [trim_eq_self_iff, and_iff_left hend]
  constructor
  · intro hstart
    have hhead := List.head?_dropWhile_not isBlank (c :: r)
    rw [← trimStart, hstart] at hhead
    exact hhead
  · intro hc
    exact trimStart_cons_of_neg hc r

theorem Note.tagName_of_hash {cs r : List Char} (h : trim cs = '#' :: r) : tagName cs = r := by
  simp only [tagName, h]

theorem Query.tagOf_of_hash {cs r : List Char} (h : trim cs = '#' :: r) : tagOf cs = trim r := by
  simp only [tagOf, h]

theorem Note.tagName_of_not_hash {cs : List Char} (h : ∀ r, trim cs ≠ '#' :: r) :
    tagName cs = trim cs := by
  rw [tagName]
  split
  · exact absurd ‹_› (h _)
  · rfl

theorem Query.tagOf_of_not_hash {cs : List Char} (h : ∀ r, trim cs ≠ '#' :: r) : tagOf cs = trim cs := by
  rw [tagOf]
  split
  · exact absurd ‹_› (h _)
  · rfl

theorem Note.tagName_eq_tagOf_iff {cs : List Char} :
    tagName cs = Query.tagOf cs ↔ ¬BlankAfterHash cs := by
  by_cases hhash : ∃ r, trim cs = '#' :: r
  · obtain ⟨r, hr⟩ := hhash
    have hend := trimEnd_behind_hash hr
    rw [tagName_of_hash hr, Query.tagOf_of_hash hr, BlankAfterHash, hr]
    cases r with
    | nil => simp [trim, trimStart, trimEnd, dropEndWhile]
    | cons c r =>
      rw [eq_comm, trim_eq_self_iff_not_blank hend, ← Bool.not_eq_true]
      simp
  · rw [tagName_of_not_hash (not_exists.mp hhash), Query.tagOf_of_not_hash (not_exists.mp hhash)]
    constructor
    · rintro - ⟨c, r, hcons, -⟩
      exact hhash ⟨c :: r, hcons⟩
    · intro _
      rfl

theorem Note.hasTag_sequence_iff {n : Note} {items : List Value}
    (h : n.record.get? "tags" = some (.sequence items))
    (tag : String) : n.hasTag tag = true ↔ ∃ v ∈ items, v.isAbsent = false ∧
      Note.tagName v.chars = tag.toList := by
  simp [hasTag, tags, h, tagsOf]

namespace Query

theorem clause?_from_line {s : String} (hs : '\n' ∉ s.toList) :
    clause? "from" (clauseLines ("table x\nfrom " ++ s).toList) = some (' ' :: s.toList) := by
  have htext : ("table x\nfrom " ++ s).toList =
      "table x".toList ++ '\n' :: ("from ".toList ++ s.toList) := by
    rw [String.toList_append]
    rfl
  have hline : '\n' ∉ "from ".toList ++ s.toList := by
    rw [List.mem_append, not_or]
    exact ⟨by decide, hs⟩
  rw [htext, clauseLines, lines_line (by decide), lines_of_not_mem (by simp) hline]
  rfl

/-- The tag of a query in two lines is the spelling without its blanks and one hash. -/
theorem tag_eq_of_ofText {s : String} (hs : '\n' ∉ s.toList) {q : Query}
    (h : ofText ("table x\nfrom " ++ s) = .ok q) :
    q.tag.toList = tagOf s.toList := by
  obtain ⟨table, source, -, hsource, -, -, rfl⟩ := ofChars_eq_ok_iff.mp h
  rw [clause?_from_line hs] at hsource
  cases hsource
  rw [String.toList_ofList, tagOf, tagOf, trim_cons_of_pos (by decide)]

/-- Whether a tag is found by its own spelling depends only on what stands behind its hash. -/
theorem hasTag_own_spelling_iff {s : String} (hs : '\n' ∉ s.toList) {q : Query}
    (h : ofText ("table x\nfrom " ++ s) = .ok q) :
    (∀ (n : Note) (items : List Value), n.record.get? "tags" = some (.sequence items) → .text s ∈ items →
      n.hasTag q.tag = true) ↔ ¬BlankAfterHash s.toList := by
  rw [← Note.tagName_eq_tagOf_iff, ← tag_eq_of_ofText hs h]
  constructor
  · intro hfound
    have halone := hfound ⟨"n", "n.md", [("tags", .sequence [.text s])]⟩ [.text s] rfl List.mem_cons_self
    obtain ⟨v, hv, -, hname⟩ := (Note.hasTag_sequence_iff rfl q.tag).mp halone
    obtain rfl := List.mem_singleton.mp hv
    exact hname
  · intro hname n items htags hmem
    exact (Note.hasTag_sequence_iff htags q.tag).mpr ⟨.text s, hmem, rfl, hname⟩

theorem hasTag_own_spelling_iff_two_hashes :
    ofText "table x\nfrom  ##a " = .ok ⟨[⟨"x", "x", .whole⟩], "#a", none⟩ ∧
    Note.hasTag ⟨"n", "n.md", [("tags", .sequence [.absent, .text " ##a "])]⟩ "#a" = true := by
  have hread : ofText ("table x\nfrom " ++ " ##a ") = .ok ⟨[⟨"x", "x", .whole⟩], "#a", none⟩ := rfl
  have hblank : ¬BlankAfterHash " ##a ".toList := by
    rintro ⟨c, r, hcons, hblank⟩
    have htrim : trim " ##a ".toList = ['#', '#', 'a'] := rfl
    rw [htrim] at hcons
    cases hcons
    cases hblank
  refine ⟨hread, (hasTag_own_spelling_iff (by decide) hread).mpr hblank _ [.absent, .text " ##a "] rfl ?_⟩
  exact List.mem_cons_of_mem _ List.mem_cons_self

/-- With a blank behind the hash the note keeps a blank that the query drops. -/
theorem not_hasTag_own_spelling :
    ¬∀ (s : String) (q : Query), '\n' ∉ s.toList → ofText ("table x\nfrom " ++ s) = .ok q →
    ∀ (n : Note) (items : List Value), n.record.get? "tags" = some (.sequence items) → .text s ∈ items →
      n.hasTag q.tag = true := by
  intro hfound
  have hread : ofText ("table x\nfrom " ++ "# a") = .ok ⟨[⟨"x", "x", .whole⟩], "a", none⟩ := rfl
  have hmissed : Note.hasTag ⟨"n", "n.md", [("tags", .sequence [.text "# a"])]⟩ "a" = false := rfl
  have htag := hfound "# a" _ (by decide) hread ⟨"n", "n.md", [("tags", .sequence [.text "# a"])]⟩
    [.text "# a"] rfl List.mem_cons_self
  rw [hmissed] at htag
  cases htag

end Query

end NoteQuery
