import NoteQuery.Proofs.Query.Canonical
import NoteQuery.Proofs.Query.TableLines

/-!
# Reading a table back

A table is read in lines, and a line in cells between bars that stand behind no backslash.
Cells are written as they are, so that a written table has its lines and cells only if no cell
has a line feed or such a bar.
-/

namespace NoteQuery

set_option autoImplicit false

open Text

/-- The parts of a line between its bars; a bar behind a backslash does not divide. -/
def barPartsAfter (escaped : Bool) : List Char → List (List Char)
  | [] => [[]]
  | c :: cs =>
    if c = '|' ∧ escaped = false then [] :: barPartsAfter false cs
    else (barPartsAfter (c == '\\') cs).modifyHead (c :: ·)

/-- The cells of a line; bars at its ends only enclose them. -/
def lineCells (line : List Char) : List (List Char) :=
  let parts := barPartsAfter false line
  let parts := if parts.head? = some [] then parts.tail else parts
  if parts.getLast? = some [] then parts.dropLast else parts

/-- Whether a text has a number of lines and each of them a number of cells. -/
def ReadsAsTable (lines columns : Nat) (text : List Char) : Prop :=
  (text.splitOn '\n').length = lines ∧ ∀ line ∈ text.splitOn '\n', (lineCells line).length = columns

/-- Whether each bar of a text stands behind a backslash. -/
def BarsEscaped (cs : List Char) : Prop :=
  ∀ before after, cs = before ++ '|' :: after → before.getLast? = some '\\'

/-- Whether a text can be one cell of one line. -/
def Fits (cell : List Char) : Prop := '\n' ∉ cell ∧ BarsEscaped cell

theorem barPartsAfter_ne_nil (escaped : Bool) (cs : List Char) : barPartsAfter escaped cs ≠ [] := by
  induction cs generalizing escaped with
  | nil => exact List.cons_ne_nil _ _
  | cons c cs ih =>
    rw [barPartsAfter]
    split
    · exact List.cons_ne_nil _ _
    · simpa using ih (c == '\\')

theorem barPartsAfter_append (escaped : Bool) (xs rest : List Char) :
    barPartsAfter escaped (xs ++ ' ' :: '|' :: rest) =
      barPartsAfter escaped (xs ++ [' ']) ++ barPartsAfter false rest := by
  induction xs generalizing escaped with
  | nil => cases escaped <;> rfl
  | cons c xs ih =>
    rw [List.cons_append, List.cons_append, barPartsAfter, barPartsAfter]
    split
    · rw [ih]
      rfl
    · rw [ih]
      obtain ⟨part, parts, hparts⟩ :=
        List.exists_cons_of_ne_nil (barPartsAfter_ne_nil (c == '\\') (xs ++ [' ']))
      rw [hparts]
      rfl

theorem length_barPartsAfter_eq_one_iff {escaped : Bool} {cs : List Char} :
    (barPartsAfter escaped cs).length = 1 ↔
    ∀ before after, cs = before ++ '|' :: after → before = [] ∧ escaped = true ∨
      before.getLast? = some '\\' := by
  -- A bar at the start of the rest is judged by the character that was just
  -- read, so that the flag varies.
  induction cs generalizing escaped with
  | nil => simp [barPartsAfter]
  | cons c cs ih =>
    rw [barPartsAfter]
    split
    · rename_i hbar
      obtain ⟨rfl, rfl⟩ := hbar
      constructor
      · intro hlength
        exact absurd (List.length_eq_zero_iff.mp (Nat.succ.inj hlength)) (barPartsAfter_ne_nil false cs)
      · intro h
        rcases h [] cs rfl with ⟨-, hfalse⟩ | hnone
        · cases hfalse
        · cases hnone
    · rename_i hbar
      have hlast (before : List Char) : (c :: before).getLast? = some '\\' ↔
          before = [] ∧ (c == '\\') = true ∨ before.getLast? = some '\\' := by
        cases before <;> simp [List.getLast?_cons]
      rw [List.length_modifyHead, ih]
      constructor
      · intro h before after hcut
        cases before with
        | nil =>
          obtain ⟨hc, -⟩ := List.cons.inj hcut
          exact .inl ⟨rfl, by simpa [hc] using hbar⟩
        | cons d before =>
          obtain ⟨rfl, hrest⟩ := List.cons.inj hcut
          exact .inr ((hlast before).mpr (h before after hrest))
      · intro h before after hcut
        rcases h (c :: before) after (by rw [hcut]; rfl) with ⟨hnil, -⟩ | hbackslash
        · cases hnil
        · exact (hlast before).mp hbackslash

theorem barsEscaped_iff {cs : List Char} : BarsEscaped cs ↔ (barPartsAfter false cs).length = 1 := by
  simp [length_barPartsAfter_eq_one_iff, BarsEscaped]

instance (cs : List Char) : Decidable (BarsEscaped cs) := decidable_of_iff _ barsEscaped_iff.symm

instance (cell : List Char) : Decidable (Fits cell) := inferInstanceAs (Decidable (_ ∧ _))

instance (lines columns : Nat) (text : List Char) : Decidable (ReadsAsTable lines columns text) :=
  inferInstanceAs (Decidable (_ ∧ _))

theorem length_barPartsAfter_cons {c : Char} (hbar : c ≠ '|') (hbackslash : c ≠ '\\')
    (escaped : Bool) (cs : List Char) :
    (barPartsAfter escaped (c :: cs)).length = (barPartsAfter false cs).length := by
  rw [barPartsAfter, if_neg (fun h => hbar h.1), List.length_modifyHead,
    beq_eq_false_iff_ne.mpr hbackslash]

theorem length_barPartsAfter_append {ys : List Char} (h : '|' ∉ ys) (escaped : Bool) (xs : List Char) :
    (barPartsAfter escaped (xs ++ ys)).length = (barPartsAfter escaped xs).length := by
  induction xs generalizing escaped with
  | nil =>
    refine length_barPartsAfter_eq_one_iff.mpr fun before after hcut => absurd ?_ h
    rw [← List.nil_append ys, hcut]
    exact List.mem_append_right _ List.mem_cons_self
  | cons c xs ih =>
    rw [List.cons_append, barPartsAfter, barPartsAfter]
    split
    · rw [List.length_cons, List.length_cons, ih]
    · rw [List.length_modifyHead, List.length_modifyHead, ih]

def padded (cell : List Char) : List Char := ' ' :: (cell ++ [' '])

theorem length_barPartsAfter_padded_eq_one_iff {cell : List Char} :
    (barPartsAfter false (padded cell)).length = 1 ↔ BarsEscaped cell := by
  rw [padded, length_barPartsAfter_cons (by decide) (by decide),
    length_barPartsAfter_append (by decide), barsEscaped_iff]

section

variable {α β : Type} {f : α → List β}

theorem length_le_length_flatMap (hf : ∀ a, f a ≠ []) (as : List α) :
    as.length ≤ (as.flatMap f).length := by
  induction as with
  | nil => exact Nat.le_refl 0
  | cons a as ih =>
    have hpos := List.length_pos_iff.mpr (hf a)
    rw [List.flatMap_cons, List.length_append, List.length_cons]
    omega

theorem length_flatMap_eq_iff (hf : ∀ a, f a ≠ []) (as : List α) :
    (as.flatMap f).length = as.length ↔ ∀ a ∈ as, (f a).length = 1 := by
  induction as with
  | nil => simp
  | cons a as ih =>
    have hpos := List.length_pos_iff.mpr (hf a)
    have hle := length_le_length_flatMap hf as
    rw [List.flatMap_cons, List.length_append, List.length_cons, List.forall_mem_cons, ← ih]
    omega

end

theorem splitOn_append_cons (c : Char) (xs ys : List Char) :
    (xs ++ c :: ys).splitOn c = xs.splitOn c ++ ys.splitOn c :=
  List.splitOnP_append_cons xs ys (beq_self_eq_true c)

theorem splitOn_intercalate_eq_flatMap {c : Char} {rows : List (List Char)} (h : rows ≠ []) :
    ([c].intercalate rows).splitOn c = rows.flatMap (List.splitOn c) := by
  induction rows with
  | nil => exact absurd rfl h
  | cons row rows ih =>
    cases rows with
    | nil => rw [List.intercalate_singleton, List.flatMap_singleton]
    | cons next rows =>
      rw [List.intercalate_cons_cons, List.append_assoc, List.singleton_append, List.flatMap_cons,
        ← ih (List.cons_ne_nil next rows), splitOn_append_cons]

theorem intercalate_eq_flatMap {cells : List String} (h : cells ≠ []) :
    ' ' :: (" | ".toList.intercalate (cells.map String.toList) ++ " |".toList) =
      cells.flatMap fun c => padded c.toList ++ ['|'] := by
  induction cells with
  | nil => exact absurd rfl h
  | cons c cells ih =>
    cases cells with
    | nil =>
      rw [List.map_singleton, List.intercalate_singleton, List.flatMap_singleton,
        padded, List.cons_append, List.append_assoc]
      rfl
    | cons d cells =>
      rw [List.flatMap_cons, ← ih (List.cons_ne_nil d cells), List.map_cons, List.map_cons,
        List.intercalate_cons_cons, padded, ← List.map_cons]
      simp

theorem barPartsAfter_flatMap (cells : List String) :
    barPartsAfter false (cells.flatMap fun c => padded c.toList ++ ['|']) =
      (cells.flatMap fun c => barPartsAfter false (padded c.toList)) ++ [[]] := by
  induction cells with
  | nil => rfl
  | cons c cells ih =>
    have hcut (rest : List Char) :
        padded c.toList ++ ['|'] ++ rest = (' ' :: c.toList) ++ ' ' :: '|' :: rest := by
      simp [padded]
    rw [List.flatMap_cons, hcut, barPartsAfter_append, ih, List.flatMap_cons, List.append_assoc]
    rfl

theorem lineCells_rowText {cells : List String} (h : cells ≠ []) :
    lineCells (Table.rowText cells).toList = cells.flatMap fun c =>
      barPartsAfter false (padded c.toList) := by
  have hparts : barPartsAfter false (Table.rowText cells).toList =
      [] :: ((cells.flatMap fun c => barPartsAfter false (padded c.toList)) ++ [[]]) := by
    rw [Table.toList_rowText, intercalate_eq_flatMap h, barPartsAfter, if_pos ⟨rfl, rfl⟩,
      barPartsAfter_flatMap]
  rw [lineCells, hparts]
  simp

theorem length_lineCells_rowText_eq_iff {cells : List String} (h : cells ≠ []) :
    (lineCells (Table.rowText cells).toList).length = cells.length ↔
      ∀ c ∈ cells, BarsEscaped c.toList := by
  rw [lineCells_rowText h, length_flatMap_eq_iff (fun _ => barPartsAfter_ne_nil _ _) cells]
  simp only [length_barPartsAfter_padded_eq_one_iff]

theorem splitOn_of_not_mem {c : Char} {cs : List Char} (h : c ∉ cs) : cs.splitOn c = [cs] :=
  List.splitOnP_eq_singleton fun _ hd => beq_eq_false_iff_ne.mpr fun heq => h (heq ▸ hd)

theorem length_splitOn_eq_one_iff {c : Char} {cs : List Char} : (cs.splitOn c).length = 1 ↔ c ∉ cs := by
  constructor
  · intro hlength hmem
    obtain ⟨before, after, rfl⟩ := List.append_of_mem hmem
    have hbefore := List.length_pos_iff.mpr (List.splitOnP_ne_nil (· == c) before)
    have hafter := List.length_pos_iff.mpr (List.splitOnP_ne_nil (· == c) after)
    rw [splitOn_append_cons, List.length_append, List.splitOn, List.splitOn] at hlength
    omega
  · intro h
    rw [splitOn_of_not_mem h]
    rfl

theorem flatMap_splitOn_of_not_mem {c : Char} {rows : List (List Char)} (h : ∀ row ∈ rows, c ∉ row) :
    rows.flatMap (List.splitOn c) = rows := by
  induction rows with
  | nil => rfl
  | cons row rows ih =>
    obtain ⟨hrow, hrows⟩ := List.forall_mem_cons.mp h
    rw [List.flatMap_cons, splitOn_of_not_mem hrow, ih hrows]
    rfl

/-- Rows read as they are exactly if each of their cells fits. -/
theorem readsAsTable_rows_iff {rows : List (List String)} (hrows : rows ≠ []) {columns : Nat}
    (hcolumns : columns ≠ 0) (hlength : ∀ cells ∈ rows, cells.length = columns) :
    ReadsAsTable rows.length columns (['\n'].intercalate (rows.map fun cells =>
      (Table.rowText cells).toList)) ↔
      ∀ cells ∈ rows, ∀ c ∈ cells, Fits c.toList := by
  have hmem : ((rows.map fun cells => (Table.rowText cells).toList).flatMap
    (List.splitOn '\n')).length = rows.length ↔ ∀ cells ∈ rows, ∀ c ∈ cells, '\n' ∉ c.toList := by
    have hlines := length_flatMap_eq_iff (List.splitOnP_ne_nil (· == '\n'))
      (rows.map fun cells => (Table.rowText cells).toList)
    rw [List.length_map, List.forall_mem_map] at hlines
    refine hlines.trans (forall₂_congr fun cells _ => ?_)
    exact length_splitOn_eq_one_iff.trans Table.not_mem_rowText_iff
  -- Only rows without a line feed are the lines that are read.
  have hbars (h : ∀ cells ∈ rows, ∀ c ∈ cells, '\n' ∉ c.toList) :
      (∀ line ∈ (rows.map fun cells => (Table.rowText cells).toList).flatMap (List.splitOn '\n'),
        (lineCells line).length = columns) ↔ ∀ cells ∈ rows, ∀ c ∈ cells, BarsEscaped c.toList := by
    rw [flatMap_splitOn_of_not_mem
      (List.forall_mem_map.mpr fun cells hcells => Table.not_mem_rowText_iff.mpr (h cells hcells)),
        List.forall_mem_map]
    refine forall₂_congr fun cells hcells => ?_
    have hne : cells ≠ [] := List.length_pos_iff.mp (hlength cells hcells ▸ Nat.pos_of_ne_zero hcolumns)
    rw [← length_lineCells_rowText_eq_iff hne, hlength cells hcells]
  rw [ReadsAsTable, splitOn_intercalate_eq_flatMap (by simpa using hrows), hmem, and_congr_right hbars]
  constructor
  · rintro ⟨hmem, hbars⟩ cells hcells c hc
    exact ⟨hmem cells hcells c hc, hbars cells hcells c hc⟩
  · intro h
    exact ⟨fun cells hcells c hc => (h cells hcells c hc).1, fun cells hcells c hc =>
      (h cells hcells c hc).2⟩

namespace Query

theorem fits_link_iff {n : Note} : Fits n.link.toList ↔ Fits n.name.toList := by
  have hlink : n.link.toList = '[' :: '[' :: (n.name.toList ++ [']', ']']) := by
    rw [Note.link, String.toList_append, String.toList_append]
    rfl
  have hbars : BarsEscaped n.link.toList ↔ BarsEscaped n.name.toList := by
    rw [barsEscaped_iff, hlink, length_barPartsAfter_cons (by decide) (by decide),
      length_barPartsAfter_cons (by decide) (by decide), length_barPartsAfter_append (by decide),
        barsEscaped_iff]
  rw [Fits, Fits, hbars, hlink]
  simp

theorem readsAsTable_run_iff {cs : List Char} {q : Query} (h : ofChars cs = .ok q) (notes : List Note) :
    ReadsAsTable (2 + (q.run notes).rows.length) (1 + q.fields.length) (q.run notes).markdown.toList ↔
      (∀ f ∈ q.fields, BarsEscaped f.source.toList) ∧
      ∀ n ∈ notes, q.selects n = true → Fits n.name.toList ∧
        ∀ f ∈ q.fields, Fits (f.resolve n.record).toList := by
  have hheaders : (∀ c ∈ (q.run notes).headers, Fits c.toList) ↔
    ∀ f ∈ q.fields, BarsEscaped f.source.toList := by
    rw [run, List.forall_mem_cons, List.forall_mem_map]
    refine (and_iff_right (by decide)).trans (forall₂_congr fun f hf => ?_)
    exact and_iff_right ((canonical_of_ofChars h).fields f hf).plain.not_mem
  have hrows : (∀ row ∈ (q.run notes).rows, ∀ c ∈ row, Fits c.toList) ↔
      ∀ n ∈ notes, q.selects n = true → Fits n.name.toList ∧
        ∀ f ∈ q.fields, Fits (f.resolve n.record).toList := by
    rw [run, List.forall_mem_map]
    simp only [List.mem_filter, and_imp, row, List.forall_mem_cons, List.forall_mem_map, fits_link_iff]
  have hdividers : ∀ c ∈ (q.run notes).headers.map fun _ => "---", Fits c.toList :=
    List.forall_mem_map.mpr fun _ _ => by decide
  have hcells : ∀ cells ∈ (q.run notes).headers :: ((q.run notes).headers.map fun _ =>
    "---") :: (q.run notes).rows, cells.length = 1 + q.fields.length := by
    have hheader : (q.run notes).headers.length = 1 + q.fields.length := by simp [run, Nat.add_comm]
    refine List.forall_mem_cons.mpr ⟨hheader,
      List.forall_mem_cons.mpr ⟨(List.length_map _).trans hheader, ?_⟩⟩
    exact List.forall_mem_map.mpr fun n _ => by simp [row, Nat.add_comm]
  have hiff := readsAsTable_rows_iff (List.cons_ne_nil _ _) (Nat.add_comm .. ▸ Nat.succ_ne_zero _) hcells
  rw [List.length_cons, List.length_cons, Nat.add_assoc, Nat.add_comm, ← Table.toList_markdown,
    List.forall_mem_cons, List.forall_mem_cons, and_iff_right hdividers, hheaders, hrows] at hiff
  exact hiff

theorem readsAsTable_run_iff_one_note :
    ofChars "table a\nfrom #p".toList = .ok ⟨[⟨"a", "a", .whole⟩], "p", none⟩ ∧
    ReadsAsTable 3 2 (run ⟨[⟨"a", "a", .whole⟩], "p", none⟩
      [⟨"n", "n.md", [("a", .text "x \\| y"), ("tags", .text "p")]⟩]).markdown.toList := by
  have hread : ofChars "table a\nfrom #p".toList = .ok ⟨[⟨"a", "a", .whole⟩], "p", none⟩ := rfl
  have hcell : Field.resolve [("a", .text "x \\| y"), ("tags", .text "p")] ⟨"a", "a", .whole⟩ =
    "x \\| y" := rfl
  have hiff := readsAsTable_run_iff hread [⟨"n", "n.md", [("a", .text "x \\| y"), ("tags", .text "p")]⟩]
  refine ⟨hread, hiff.mpr ⟨List.forall_mem_singleton.mpr (by decide), List.forall_mem_singleton.mpr ?_⟩⟩
  intro hselects
  constructor
  · decide
  · refine List.forall_mem_singleton.mpr ?_
    rw [hcell]
    decide

/-- A bar in a value makes one cell more, and a line feed makes one line more. -/
theorem not_readsAsTable_run : ∃ q, ofChars "table a\nfrom #p".toList = .ok q ∧
    ∀ text ∈ ["x | y", "x\ny"], ¬ReadsAsTable
      (2 + (q.run [⟨"n", "n.md", [("a", .text text), ("tags", .text "p")]⟩]).rows.length)
        (1 + q.fields.length)
      (q.run [⟨"n", "n.md", [("a", .text text), ("tags", .text "p")]⟩]).markdown.toList := by
  refine ⟨⟨[⟨"a", "a", .whole⟩], "p", none⟩, rfl,
    List.forall_mem_cons.mpr ⟨?_, List.forall_mem_singleton.mpr ?_⟩⟩
  · have hrun : run ⟨[⟨"a", "a", .whole⟩], "p", none⟩
      [⟨"n", "n.md", [("a", .text "x | y"), ("tags", .text "p")]⟩] =
        ⟨["File", "a"], [["[[n]]", "x | y"]]⟩ := rfl
    rw [hrun]
    decide
  · have hrun : run ⟨[⟨"a", "a", .whole⟩], "p", none⟩
      [⟨"n", "n.md", [("a", .text "x\ny"), ("tags", .text "p")]⟩] =
        ⟨["File", "a"], [["[[n]]", "x\ny"]]⟩ := rfl
    rw [hrun]
    decide

end Query

end NoteQuery
