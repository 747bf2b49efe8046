import NoteQuery.Proofs.Query.TagSpelling

/-!
# Tags as a sequence and as one text

Tags that have no commas and blanks can be written as a sequence or as one text with commas
and blanks between them. Either way a note has the same tags, and neither their order nor
how often one is written matters.
-/

namespace NoteQuery.Note

set_option autoImplicit false

open Text

def separates (c : Char) : Bool := c == ',' || isBlank c

structure IsTagWord (w : String) : Prop where
  ne_empty : w ≠ ""
  not_separates : ∀ c ∈ w.toList, separates c = false

instance (w : String) : Decidable (IsTagWord w) :=
  decidable_of_iff (w ≠ "" ∧ w.toList.any separates = false)
    ⟨fun ⟨hempty, hany⟩ => ⟨hempty, by simpa using hany⟩, fun ⟨hempty, hnone⟩ =>
      ⟨hempty, by simpa using hnone⟩⟩

/-- A text of words, each with a run of separators behind it, of which only the last may be empty. -/
inductive WordText : List String → List Char → Prop where
  | nil : WordText [] []
  | last (w : String) {run : List Char} (hrun : ∀ c ∈ run, separates c = true) :
    WordText [w] (w.toList ++ run)
  | cons (w : String) {run : List Char} {words : List String} {cs : List Char} (hne : run ≠ [])
      (hrun : ∀ c ∈ run, separates c = true) (hrest : WordText words cs) :
      WordText (w :: words) (w.toList ++ (run ++ cs))

/-- The metadata values that list words as tags. -/
inductive Lists (words : List String) : Value → Prop where
  | sequence : Lists words (.sequence (words.map .text))
  | text {front cs : List Char} (hfront : ∀ c ∈ front, separates c = true) (hcs : WordText words cs) :
      Lists words (.text (String.ofList (front ++ cs)))

theorem tagWords_eq (cs : List Char) : tagWords cs = (cs.splitOnP separates).filter (· != []) := by
  rw [tagWords, splitOn_eq_splitOnP]
  rfl

theorem tagWords_append_separator {c : Char} (hc : separates c = true) (xs ys : List Char) :
    tagWords (xs ++ c :: ys) = tagWords xs ++ tagWords ys := by
  rw [tagWords_eq, List.splitOnP_append_cons _ _ hc, List.filter_append, ← tagWords_eq, ← tagWords_eq]

theorem tagWords_separators_append {run : List Char} (hrun : ∀ c ∈ run, separates c = true)
    (ys : List Char) :
    tagWords (run ++ ys) = tagWords ys := by
  induction run with
  | nil => rfl
  | cons c run ih =>
    obtain ⟨hc, hrun⟩ := List.forall_mem_cons.mp hrun
    rw [List.cons_append, ← List.nil_append (c :: _), tagWords_append_separator hc, ih hrun]
    rfl

theorem tagWords_append_run {run : List Char} (hne : run ≠ [])
    (hrun : ∀ c ∈ run, separates c = true) (xs ys : List Char) :
    tagWords (xs ++ (run ++ ys)) = tagWords xs ++ tagWords ys := by
  obtain ⟨c, run, rfl⟩ := List.exists_cons_of_ne_nil hne
  obtain ⟨hc, hrun⟩ := List.forall_mem_cons.mp hrun
  rw [List.cons_append, tagWords_append_separator hc, tagWords_separators_append hrun]

theorem tagWords_append_separators {run : List Char} (hrun : ∀ c ∈ run, separates c = true)
    (xs : List Char) :
    tagWords (xs ++ run) = tagWords xs := by
  by_cases hne : run = []
  · rw [hne, List.append_nil]
  · rw [← List.append_nil run, tagWords_append_run hne hrun]
    exact List.append_nil _

theorem tagWords_of_isTagWord {w : String} (h : IsTagWord w) : tagWords w.toList = [w.toList] := by
  have hne : w.toList ≠ [] := fun hnil => h.ne_empty (String.toList_injective hnil)
  rw [tagWords_eq, List.splitOnP_eq_singleton h.not_separates]
  simp [hne]

theorem WordText.tagWords {words : List String} {cs : List Char} (h : WordText words cs)
    (hwords : ∀ w ∈ words, IsTagWord w) :
    tagWords cs = words.map String.toList := by
  induction h with
  | nil => rfl
  | last w hrun =>
    rw [tagWords_append_separators hrun, tagWords_of_isTagWord (hwords w List.mem_cons_self)]
    rfl
  | cons w hne hrun _ ih =>
    obtain ⟨hw, hwords⟩ := List.forall_mem_cons.mp hwords
    rw [tagWords_append_run hne hrun, tagWords_of_isTagWord hw, ih hwords]
    rfl

theorem Lists.tagsOf {words : List String} {v : Value} (h : Lists words v)
    (hwords : ∀ w ∈ words, IsTagWord w) :
    tagsOf v = words.map String.toList := by
  cases h with
  | sequence =>
    have hkept : (words.map Value.text).filter (fun v => !v.isAbsent) = words.map Value.text := by
      apply List.filter_eq_self.mpr
      simp [Value.isAbsent]
    rw [Note.tagsOf, hkept, List.map_map]
    rfl
  | text hfront hcs =>
    rw [Note.tagsOf, String.toList_ofList, tagWords_separators_append hfront, hcs.tagWords hwords]

theorem hasTag_iff_of_lists {n : Note} {words : List String} {v : Value} (hn : n.get? "tags" = some v)
    (hv : Lists words v) (hwords : ∀ w ∈ words, IsTagWord w) (tag : String) :
    n.hasTag tag = true ↔ ∃ w ∈ words, tagName w.toList = tag.toList := by
  have htags : n.record.get? "tags" = some v := hn
  simp [hasTag, tags, htags, hv.tagsOf hwords]

theorem hasTag_eq_of_lists {n n' : Note} {words words' : List String} {v v' : Value}
    (hwords : ∀ w ∈ words, IsTagWord w) (hsame : ∀ w, w ∈ words' ↔ w ∈ words)
    (hn : n.get? "tags" = some v)
    (hv : Lists words v) (hn' : n'.get? "tags" = some v') (hv' : Lists words' v') (tag : String) :
    n.hasTag tag = n'.hasTag tag ∧
      (n.hasTag tag = true ↔ ∃ w ∈ words, tagName w.toList = tag.toList) := by
  have hwords' : ∀ w ∈ words', IsTagWord w := fun w hw => hwords w ((hsame w).mp hw)
  have hiff := hasTag_iff_of_lists hn hv hwords tag
  have hiff' := hasTag_iff_of_lists hn' hv' hwords' tag
  refine ⟨?_, hiff⟩
  rw [Bool.eq_iff_iff, hiff, hiff']
  simp only [hsame]

theorem hasTag_eq_of_lists_shuffled :
    Note.hasTag ⟨"n", "n.md", [("tags", .sequence [.text "a", .text "##b"])]⟩ "#b" =
      Note.hasTag ⟨"m", "m.md", [("tags", .text ", ##b\u3000a,,\na ")]⟩ "#b" ∧
    Note.hasTag ⟨"n", "n.md", [("tags", .sequence [.text "a", .text "##b"])]⟩ "#b" = true := by
  have hwords : ∀ w ∈ ["a", "##b"], IsTagWord w :=
    List.forall_mem_cons.mpr ⟨by decide, List.forall_mem_singleton.mpr (by decide)⟩
  have hsame : ∀ w, w ∈ ["##b", "a", "a"] ↔ w ∈ ["a", "##b"] := by
    intro w
    simp only [List.mem_cons, List.not_mem_nil, or_false, or_self]
    exact or_comm
  have hcs : WordText ["##b", "a", "a"]
      ("##b".toList ++ (['\u3000'] ++ ("a".toList ++ ([',', ',', '\n'] ++ ("a".toList ++ [' ']))))) :=
    .cons "##b" (by simp) (List.all_eq_true.mp rfl)
      (.cons "a" (by simp) (List.all_eq_true.mp rfl) (.last "a" (List.all_eq_true.mp rfl)))
  have hlists : Lists ["##b", "a", "a"] (.text (String.ofList ([',', ' '] ++ _))) :=
    .text (List.all_eq_true.mp rfl) hcs
  have hn : Note.get? ⟨"n", "n.md", [("tags", .sequence [.text "a", .text "##b"])]⟩ "tags" =
      some (.sequence (["a", "##b"].map .text)) := rfl
  have hm : Note.get? ⟨"m", "m.md", [("tags", .text ", ##b\u3000a,,\na ")]⟩ "tags" =
      some (.text (String.ofList ([',', ' '] ++ _))) := rfl
  obtain ⟨heq, hiff⟩ := hasTag_eq_of_lists hwords hsame hn .sequence hm hlists "#b"
  exact ⟨heq, hiff.mpr ⟨"##b", by decide, rfl⟩⟩

end NoteQuery.Note
