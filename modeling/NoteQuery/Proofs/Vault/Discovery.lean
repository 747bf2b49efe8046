import Mathlib.Data.List.Sort
import NoteQuery.Proofs.File.Reordering
import NoteQuery.Vault.Basic

/-!
# What a vault finds

The notes of a folder are exactly the files whose names are names of notes and whose places are
shown. Sorting each folder by itself puts all of them in the order of their places, so that the
order in which folders list their entries does not matter.
-/

namespace NoteQuery

set_option autoImplicit false

/-- A note at a place of a tree: what its name and the names on the way to it have to be. -/
structure Settings.Finds (s : Settings) (t : Tree) (place : List RawText) (f : File) : Prop where
  at_eq : t.at? place = .ok (.file f)
  shows : ∀ name ∈ place, s.shows name = true
  isNote : ∃ name, place.getLast? = some name ∧ s.isNote name = true

namespace Tree

variable {s : Settings}

def notesUnder (s : Settings) (name : RawText) (t : Tree) : List (List RawText × File) :=
  if !s.shows name then []
  else match t with
    | file f => if s.isNote name then [([name], f)] else []
    | folder entries => ((folder entries).notes s).map fun (place, f) => (name :: place, f)

theorem entryNotes_eq_map (entries : List (RawText × Tree)) :
    entryNotes s entries = entries.map fun entry => (entry.1, notesUnder s entry.1 entry.2) := by
  induction entries with
  | nil => rw [entryNotes, List.map_nil]
  | cons entry entries ih =>
    obtain ⟨name, t⟩ := entry
    cases t <;> simp only [entryNotes, List.map_cons, ih, notesUnder]

theorem notes_folder (entries : List (RawText × Tree)) :
    (folder entries).notes s =
      ((entries.map fun entry => (entry.1, notesUnder s entry.1 entry.2)).mergeSort
      fun a b => decide (a.1 ≤ b.1)).flatMap (·.2) := by
  rw [notes, entryNotes_eq_map]

theorem mem_notes_folder {entries : List (RawText × Tree)} {found : List RawText × File} :
    found ∈ (folder entries).notes s ↔ ∃ name t, (name, t) ∈ entries ∧ found ∈ notesUnder s name t := by
  rw [notes_folder, List.mem_flatMap]
  constructor
  · rintro ⟨_, hmem, hfound⟩
    obtain ⟨⟨name, t⟩, hentry, rfl⟩ := List.mem_map.mp (List.mem_mergeSort.mp hmem)
    exact ⟨name, t, hentry, hfound⟩
  · rintro ⟨name, t, hentry, hfound⟩
    exact ⟨(name, notesUnder s name t),
      List.mem_mergeSort.mpr (List.mem_map.mpr ⟨(name, t), hentry, rfl⟩), hfound⟩

theorem mem_notesUnder {name : RawText} {t : Tree} {place : List RawText} {f : File} :
    (place, f) ∈ notesUnder s name t ↔
      s.shows name = true ∧ ((place = [name] ∧ t = file f ∧ s.isNote name = true) ∨
        ∃ rest, place = name :: rest ∧ (rest, f) ∈ t.notes s) := by
  unfold notesUnder
  cases hshows : s.shows name with
  | false => simp
  | true =>
    cases t with
    | file g => cases hnote : s.isNote name <;> simp [notes, eq_comm]
    | folder entries =>
      simp only [Bool.not_true, Bool.false_eq_true, if_false, true_and, reduceCtorEq,
        false_and, and_false, false_or, List.mem_map, Prod.mk.injEq, Prod.exists]
      constructor
      · rintro ⟨rest, g, hmem, rfl, rfl⟩
        exact ⟨rest, rfl, hmem⟩
      · rintro ⟨rest, rfl, hmem⟩
        exact ⟨rest, f, hmem, rfl, rfl⟩

theorem finds_folder_iff {entries : List (RawText × Tree)} (hnodup : (entries.map Prod.fst).Nodup)
    {place : List RawText} {f : File} :
    s.Finds (folder entries) place f ↔ ∃ name t, (name, t) ∈ entries ∧ s.shows name = true ∧
      ((place = [name] ∧ t = file f ∧ s.isNote name = true) ∨ ∃ rest, place = name :: rest ∧
        s.Finds t rest f) := by
  constructor
  · rintro ⟨hat, hshows, last, hlast, hnote⟩
    cases place with
    | nil => cases hat
    | cons name rest =>
      rw [List.forall_mem_cons] at hshows
      obtain ⟨t, hlookup, hat⟩ := exists_lookup_of_at? hat
      refine ⟨name, t, Text.mem_of_lookup hlookup, hshows.1, ?_⟩
      cases rest with
      | nil =>
        rw [at?_nil] at hat
        obtain rfl := Option.some.inj hlast
        exact .inl ⟨rfl, Except.ok.inj hat, hnote⟩
      | cons next rest =>
        rw [List.getLast?_cons_cons] at hlast
        exact .inr ⟨next :: rest, rfl, hat, hshows.2, last, hlast, hnote⟩
  · rintro ⟨name, t, hentry, hshows, ⟨rfl, rfl, hnote⟩ | ⟨rest, rfl, hat, hrest, last, hlast, hnote⟩⟩
    · refine ⟨?_, List.forall_mem_singleton.mpr hshows, name, rfl, hnote⟩
      rw [at?_entry hnodup hentry, at?_nil]
    · refine ⟨?_, List.forall_mem_cons.mpr ⟨hshows, hrest⟩, last, ?_, hnote⟩
      · rw [at?_entry hnodup hentry, hat]
      · rw [List.getLast?_cons, hlast, Option.getD_some]

/-- The notes of a tree are all there, at every depth, and nothing else is. -/
theorem mem_notes_iff {t : Tree} (ht : t.Proper) {place : List RawText} {f : File} :
    (place, f) ∈ t.notes s ↔ s.Finds t place f := by
  -- On the tree: a folder finds what its entries find, with one more name in front.
  induction ht generalizing place with
  | file g =>
    rw [notes]
    constructor
    · intro h
      cases h
    · rintro ⟨hat, -, last, hlast, -⟩
      cases place with
      | nil => cases hlast
      | cons name rest => cases hat
  | folder hnodup _ _ ih =>
    rw [mem_notes_folder, finds_folder_iff hnodup]
    refine exists_congr fun name => exists_congr fun t => and_congr_right fun hentry => ?_
    simp only [mem_notesUnder, ih name t hentry]

theorem exists_place_of_mem_notesUnder {name : RawText} {t : Tree} {found : List RawText × File}
    (h : found ∈ notesUnder s name t) : ∃ rest, found.1 = name :: rest := by
  obtain ⟨-, ⟨hplace, -, -⟩ | ⟨rest, hplace, -⟩⟩ := mem_notesUnder.mp h
  · exact ⟨[], hplace⟩
  · exact ⟨rest, hplace⟩

theorem pairwise_notesUnder (name : RawText) {t : Tree}
    (h : (t.notes s).Pairwise fun a b => List.Lex (· < ·) a.1 b.1) :
    (notesUnder s name t).Pairwise fun a b => List.Lex (· < ·) a.1 b.1 := by
  unfold notesUnder
  split
  · exact .nil
  · cases t with
    | file f =>
      dsimp only
      split
      · exact List.pairwise_singleton _ _
      · exact .nil
    | folder entries => exact List.pairwise_map.mpr (h.imp .cons)

/-- The notes of a tree stand in the order of their places, each of which comes once. -/
theorem pairwise_notes {t : Tree} (ht : t.Proper) :
    (t.notes s).Pairwise fun a b => List.Lex (· < ·) a.1 b.1 := by
  induction ht with
  | file f =>
    rw [notes]
    exact .nil
  | @folder entries hnodup _ _ ih =>
    rw [notes_folder, List.pairwise_flatMap]
    constructor
    · intro found hfound
      obtain ⟨⟨name, t⟩, hentry, rfl⟩ := List.mem_map.mp (List.mem_mergeSort.mp hfound)
      exact pairwise_notesUnder name (ih name t hentry)
    · have hnames : ((entries.map fun entry => (entry.1, notesUnder s entry.1 entry.2)).map Prod.fst).Nodup := by
        rwa [List.map_map]
      apply (Text.pairwise_mergeSort Prod.fst hnames).imp_of_mem
      intro found other hfound hother hlt a ha b hb
      obtain ⟨⟨name, t⟩, -, rfl⟩ := List.mem_map.mp (List.mem_mergeSort.mp hfound)
      obtain ⟨⟨next, u⟩, -, rfl⟩ := List.mem_map.mp (List.mem_mergeSort.mp hother)
      obtain ⟨place, hplace⟩ := exists_place_of_mem_notesUnder ha
      obtain ⟨other, hother⟩ := exists_place_of_mem_notesUnder hb
      rw [hplace, hother]
      exact .rel hlt

theorem Reordered.finds_iff {t t' : Tree} (h : t.Reordered t') {place : List RawText} {f : File} :
    s.Finds t place f ↔ s.Finds t' place f := by
  constructor
  · rintro ⟨hat, hshows, hnote⟩
    exact ⟨(h.at?_file_iff place f).mp hat, hshows, hnote⟩
  · rintro ⟨hat, hshows, hnote⟩
    exact ⟨(h.at?_file_iff place f).mpr hat, hshows, hnote⟩

theorem Reordered.notes_eq {t t' : Tree} (h : t.Reordered t') (ht : t.Proper) :
    t.notes s = t'.notes s := by
  have hasymm : Std.Asymm fun a b : List RawText × File => List.Lex (· < ·) a.1 b.1 :=
    ⟨fun a b => List.lex_asymm fun hlt => Std.Asymm.asymm _ _ hlt⟩
  -- Two strictly ordered lists of the same notes are one list, so the entries need
  -- not be compared folder by folder.
  apply List.Pairwise.eq_of_mem_iff (pairwise_notes ht) (pairwise_notes (h.proper ht))
  rintro ⟨place, f⟩
  rw [mem_notes_iff ht, mem_notes_iff (h.proper ht), h.finds_iff]

end Tree

theorem Settings.shows_iff {s : Settings} {name : RawText} :
    s.shows name = true ↔ s.includeHidden = true ∨ name.lossy.toList.head? ≠ some '.' := by
  rw [shows, Bool.or_eq_true, bne_iff_ne]

namespace Vault

/-- What is found, said of the paths of the vault: a note has the extension, and no
name below the root is hidden. -/
theorem finds_iff_extension? (v : Vault) {t : Tree} (ht : t.Proper) (hfolder : t.isFile = false)
    {place : List RawText} {f : File} :
    v.settings.Finds t place f ↔
      t.at? place = .ok (.file f) ∧ (Path.extension? (v.pathOf place)).bind RawText.text? =
        some v.settings.extension ∧
        (v.settings.includeHidden = true ∨ ∀ name ∈ place, name.lossy.toList.head? ≠ some '.') := by
  have hshown : (∀ name ∈ place, v.settings.shows name = true) ↔
      (v.settings.includeHidden = true ∨ ∀ name ∈ place, name.lossy.toList.head? ≠ some '.') := by
    simp only [Settings.shows_iff]
    cases v.settings.includeHidden <;> simp
  have hnote (hat : t.at? place = .ok (.file f)) :
      (∃ name, place.getLast? = some name ∧ v.settings.isNote name = true) ↔
        (Path.extension? (v.pathOf place)).bind RawText.text? = some v.settings.extension := by
    rcases List.eq_nil_or_concat place with rfl | ⟨front, last, rfl⟩
    · rw [Tree.at?_nil] at hat
      rw [Except.ok.inj hat] at hfolder
      cases hfolder
    · rw [List.concat_eq_append] at hat ⊢
      rw [pathOf, Path.extension?_join v.root (ht.at? hat).2, List.getLast?_concat]
      simp [Settings.isNote]
  constructor
  · rintro ⟨hat, hshows, hlast⟩
    exact ⟨hat, (hnote hat).mp hlast, hshown.mp hshows⟩
  · rintro ⟨hat, hextension, hhidden⟩
    exact ⟨hat, hshown.mpr hhidden, (hnote hat).mpr hextension⟩

theorem files_folder {v : Vault} {d : Disk} {entries : List (RawText × Tree)}
    (h : d.find? v.root = .ok (.folder entries)) :
    v.files d = .ok (((Tree.folder entries).notes v.settings).map fun found =>
      (v.pathOf found.1, found.2)) := by
  rw [files, h]

theorem files_reordered (v : Vault) {d : Disk} (hd : d.root.Proper) {root : Tree}
    (hroot : d.root.Reordered root) :
    v.files { d with root } = v.files d := by
  rcases Disk.find?_related (Tree.Reordered.iff_related.mp hroot) v.root with ⟨e, he, he'⟩ |
    ⟨t, t', ht, ht', h⟩
  · simp only [files, he, he']
  · have hnotes := (Tree.Reordered.iff_related.mpr h).notes_eq (s := v.settings)
      (Disk.proper_of_find? hd ht)
    cases h with
    | file f => simp only [files, ht, ht']
    | folder _ _ => rw [files_folder ht, files_folder ht', hnotes]

/-- A vault finds the files with its extension that are not hidden, at every depth and each once, in
the order of their places. In whatever order the folders list their entries, it finds the same ones
and every query has the same table. -/
theorem finds_all_in_order (v : Vault) (d : Disk) (hd : d.root.Proper) (entries : List (RawText × Tree))
    (hroot : d.find? v.root = .ok (.folder entries)) :
    (∃ found : List (List RawText × File),
      v.files d = .ok (found.map fun note => (v.pathOf note.1, note.2)) ∧
      v.paths d = .ok (found.map fun note => v.pathOf note.1) ∧
      (∀ place f, (place, f) ∈ found ↔
        (Tree.folder entries).at? place = .ok (.file f) ∧
        (Path.extension? (v.pathOf place)).bind RawText.text? = some v.settings.extension ∧
        (v.settings.includeHidden = true ∨ ∀ name ∈ place, name.lossy.toList.head? ≠ some '.')) ∧
      (found.map Prod.fst).Pairwise (List.Lex (· < ·))) ∧
    ∀ root : Tree, d.root.Reordered root →
      v.paths { d with root } = v.paths d ∧ v.notes { d with root } = v.notes d ∧
      ∀ q : Query, (v.notes { d with root }).map q.run = (v.notes d).map q.run := by
  obtain ⟨top, -, hat⟩ := Disk.exists_at?_of_find? hroot
  have hproper := (hd.at? hat).1
  constructor
  · refine ⟨(Tree.folder entries).notes v.settings, files_folder hroot, ?_, ?_, ?_⟩
    · rw [paths, files_folder hroot, Except.map, List.map_map]
      rfl
    · intro place f
      rw [Tree.mem_notes_iff hproper, finds_iff_extension? v hproper rfl]
    · exact List.pairwise_map.mpr (Tree.pairwise_notes hproper)
  · intro root hreordered
    have hfiles := files_reordered v hd hreordered
    have hnotes : v.notes { d with root } = v.notes d := by
      rw [notes, hfiles, notes]
    refine ⟨?_, hnotes, fun q => ?_⟩
    · rw [paths, hfiles, paths]
    · rw [hnotes]

theorem finds_all_in_order_two_listings :
    (∃ found : List (List RawText × File),
      (Vault.mk "." .usual).files
          ⟨.folder [("b.md", .file (.ofText "")), ("a", .folder [("c.md", .file (.ofText "x"))])], []⟩ =
        .ok (found.map fun note => ((Vault.mk "." .usual).pathOf note.1, note.2)) ∧
      ((["a", "c.md"], .ofText "x") : List RawText × File) ∈ found ∧
        (found.map Prod.fst).Pairwise (List.Lex (· < ·))) ∧
    (Vault.mk "." .usual).paths
        ⟨.folder [("a", .folder [("c.md", .file (.ofText "x"))]), ("b.md", .file (.ofText ""))], []⟩ =
      (Vault.mk "." .usual).paths
        ⟨.folder [("b.md", .file (.ofText "")), ("a", .folder [("c.md", .file (.ofText "x"))])], []⟩ := by
  have hinner : (Tree.folder [("c.md", .file (.ofText "x"))]).Proper := by
    refine .folder (by decide) (by decide) fun name t h => ?_
    obtain ⟨-, rfl⟩ := Prod.mk.inj (List.mem_singleton.mp h)
    exact .file _
  have hproper : (Tree.folder [("b.md", .file (.ofText "")),
    ("a", .folder [("c.md", .file (.ofText "x"))])]).Proper := by
    refine .folder (by decide) (by decide) fun name t h => ?_
    rcases List.mem_pair.mp h with h | h
    · rw [(Prod.mk.inj h).2]
      exact .file _
    · rw [(Prod.mk.inj h).2]
      exact hinner
  obtain ⟨⟨found, hfiles, -, hfound, hsorted⟩, hreordered⟩ :=
    finds_all_in_order (.mk "." .usual) ⟨_, []⟩ hproper _ rfl
  refine ⟨⟨found, hfiles, (hfound _ _).mpr ⟨rfl, RawText.text?_eq_some_iff.mpr rfl,
    .inr (by decide)⟩, hsorted⟩, ?_⟩
  exact (hreordered _ (.of_perm (.swap _ _ _) hproper)).1

end Vault

end NoteQuery
