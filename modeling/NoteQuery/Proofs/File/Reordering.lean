import NoteQuery.File.Disk
import NoteQuery.Proofs.File.Naming
import NoteQuery.Proofs.Text.Lookup

/-!
# Trees in another order

The entries of a folder stand in any order. In another order of the entries the same places hold the
same files, on every level, and paths lead to the same places. Where a path leads depends on names
only, whatever the files hold.
-/

namespace NoteQuery

set_option autoImplicit false

theorem exists_of_bind_eq_ok {ε α β : Type} {x : Except ε α} {f : α → Except ε β} {b : β}
    (h : x >>= f = .ok b) :
    ∃ a, x = .ok a ∧ f a = .ok b := by
  cases x with
  | error e => cases h
  | ok a => exact ⟨a, rfl, h⟩

namespace Tree

section Lookup

variable {entries : List (RawText × Tree)} {name : RawText} {t : Tree}

theorem at?_nil (t : Tree) : t.at? [] = .ok t := by
  cases t <;> rfl

theorem exists_lookup_of_at? {place : List RawText} {u : Tree}
    (h : (folder entries).at? (name :: place) = .ok u) :
    ∃ t, entries.lookup name = some t ∧ t.at? place = .ok u := by
  rw [Tree.at?] at h
  cases hlookup : entries.lookup name with
  | none => simp [hlookup] at h
  | some t =>
    rw [hlookup] at h
    exact ⟨t, rfl, h⟩

theorem at?_entry (hnodup : (entries.map Prod.fst).Nodup) (h : (name, t) ∈ entries)
    (place : List RawText) :
    (folder entries).at? (name :: place) = t.at? place := by
  simp only [Tree.at?, Text.lookup_of_mem hnodup h]

end Lookup

/-- A tree as a disk has it: the entries of a folder have different names, each of which
can be the name of an entry. -/
inductive Proper : Tree → Prop where
  | file (f : File) : Proper (.file f)
  | folder {entries : List (RawText × Tree)} (hnodup : (entries.map Prod.fst).Nodup)
      (hnames : ∀ name ∈ entries.map Prod.fst, Path.IsEntryName name)
      (hentries : ∀ name t, (name, t) ∈ entries → Proper t) : Proper (.folder entries)

/-- The same tree, where the entries of each folder may stand in another order. -/
inductive Reordered : Tree → Tree → Prop where
  | file (f : File) : Reordered (.file f) (.file f)
  | folder {entries others : List (RawText × Tree)}
    (hnames : (entries.map Prod.fst).Perm (others.map Prod.fst))
      (hentries : ∀ name t u, (name, t) ∈ entries → (name, u) ∈ others → Reordered t u) :
      Reordered (.folder entries) (.folder others)

/-- Trees with the same folders, in any order of the entries, whose files are related place by place. -/
inductive Related (R : File → File → Prop) : Tree → Tree → Prop where
  | file {f g : File} (h : R f g) : Related R (.file f) (.file g)
  | folder {entries others : List (RawText × Tree)}
    (hnames : (entries.map Prod.fst).Perm (others.map Prod.fst))
      (hentries : ∀ name t u, (name, t) ∈ entries → (name, u) ∈ others → Related R t u) :
      Related R (.folder entries) (.folder others)

theorem Proper.nodup {entries : List (RawText × Tree)} (h : (Tree.folder entries).Proper) :
    (entries.map Prod.fst).Nodup := by
  cases h with
  | folder hnodup _ _ => exact hnodup

theorem Proper.nil : (Tree.folder []).Proper :=
  .folder .nil (by simp) (by simp)

theorem Proper.cons {entries : List (RawText × Tree)} {name : RawText} {t : Tree}
    (hname : Path.IsEntryName name)
    (hnew : name ∉ entries.map Prod.fst) (ht : t.Proper) (h : (Tree.folder entries).Proper) :
    (Tree.folder ((name, t) :: entries)).Proper := by
  cases h with
  | folder hnodup hnames hentries =>
    refine .folder (List.nodup_cons.mpr ⟨hnew, hnodup⟩) (List.forall_mem_cons.mpr ⟨hname, hnames⟩) ?_
    intro other u hu
    rcases List.mem_cons.mp hu with heq | hu
    · cases heq
      exact ht
    · exact hentries other u hu

theorem Proper.at? {t u : Tree} (ht : t.Proper) {place : List RawText} (h : t.at? place = .ok u) :
    u.Proper ∧ ∀ name ∈ place, Path.IsEntryName name := by
  induction place generalizing t with
  | nil =>
    obtain rfl := Except.ok.inj h
    exact ⟨ht, by simp⟩
  | cons name place ih =>
    cases ht with
    | file f => cases h
    | @folder entries hnodup hnames hentries =>
      obtain ⟨v, hlookup, hat⟩ := exists_lookup_of_at? h
      have hmem := Text.mem_of_lookup hlookup
      obtain ⟨hu, hplace⟩ := ih (hentries name v hmem) hat
      exact ⟨hu, List.forall_mem_cons.mpr ⟨hnames name (List.mem_map_of_mem hmem), hplace⟩⟩

namespace Related

variable {R : File → File → Prop} {t t' : Tree}

theorem isFile_eq (h : t.Related R t') : t.isFile = t'.isFile := by
  cases h <;> rfl

theorem refl (hR : ∀ f, R f f) (ht : t.Proper) : t.Related R t := by
  induction ht with
  | file f => exact .file (hR f)
  | @folder entries hnodup _ _ ih =>
    refine .folder (.refl _) fun name t u ht hu => ?_
    obtain rfl := Option.some.inj
      ((Text.lookup_of_mem hnodup ht).symm.trans (Text.lookup_of_mem hnodup hu))
    exact ih name t ht

theorem cons {entries others : List (RawText × Tree)} {name : RawText}
    (hnew : name ∉ entries.map Prod.fst)
    (ht : t.Related R t') (h : (Tree.folder entries).Related R (.folder others)) :
    (Tree.folder ((name, t) :: entries)).Related R (.folder ((name, t') :: others)) := by
  cases h with
  | folder hperm hentries =>
    refine .folder (hperm.cons name) fun other u u' hu hu' => ?_
    rcases List.mem_cons.mp hu with heq | hu <;> rcases List.mem_cons.mp hu' with heq' | hu'
    · cases heq
      cases heq'
      exact ht
    · cases heq
      exact absurd (hperm.mem_iff.mpr (List.mem_map_of_mem hu')) hnew
    · cases heq'
      exact absurd (List.mem_map_of_mem hu) hnew
    · exact hentries other u u' hu hu'

theorem lookup {entries others : List (RawText × Tree)}
    (hperm : (entries.map Prod.fst).Perm (others.map Prod.fst))
    (hentries : ∀ name t u, (name, t) ∈ entries → (name, u) ∈ others → t.Related R u) (name : RawText) :
    (entries.lookup name = none ∧ others.lookup name = none) ∨
      ∃ u u', entries.lookup name = some u ∧ others.lookup name = some u' ∧ u.Related R u' := by
  cases hu : entries.lookup name with
  | none => exact .inl ⟨rfl,
    Text.lookup_eq_none_iff.mpr fun hmem => Text.lookup_eq_none_iff.mp hu (hperm.mem_iff.mpr hmem)⟩
  | some u =>
    have hmem := Text.mem_of_lookup hu
    cases hu' : others.lookup name with
    | none => exact absurd (hperm.mem_iff.mp (List.mem_map_of_mem hmem)) (Text.lookup_eq_none_iff.mp hu')
    | some u' => exact .inr ⟨u, u', rfl, rfl, hentries name u u' hmem (Text.mem_of_lookup hu')⟩

/-- The same places lead somewhere, and a place that leads nowhere does so for the same reason. -/
theorem at? (h : t.Related R t') (place : List RawText) :
    (∃ e, t.at? place = .error e ∧ t'.at? place = .error e) ∨
      ∃ u u', t.at? place = .ok u ∧ t'.at? place = .ok u' ∧ u.Related R u' := by
  induction place generalizing t t' with
  | nil => exact .inr ⟨t, t', at?_nil t, at?_nil t', h⟩
  | cons name place ih =>
    cases h with
    | file _ => exact .inl ⟨.notAFolder, rfl, rfl⟩
    | folder hperm hentries =>
      simp only [Tree.at?]
      rcases lookup hperm hentries name with ⟨hnone, hnone'⟩ | ⟨u, u', hu, hu', h⟩
      · exact .inl ⟨.missing, by rw [hnone], by rw [hnone']⟩
      · rw [hu, hu']
        exact ih h

end Related

namespace Reordered

variable {t t' : Tree}

theorem iff_related : t.Reordered t' ↔ t.Related Eq t' := by
  constructor
  · intro h
    induction h with
    | file f => exact .file rfl
    | folder hnames _ ih => exact .folder hnames ih
  · intro h
    induction h with
    | @file f g h =>
      subst h
      exact .file f
    | folder hnames _ ih => exact .folder hnames ih

theorem proper (h : t.Reordered t') (ht : t.Proper) : t'.Proper := by
  induction h with
  | file f => exact ht
  | @folder entries others hperm _ ih =>
    cases ht with
    | folder hnodup hnames hentries =>
      refine .folder (hperm.nodup_iff.mp hnodup) (fun name hname =>
        hnames name (hperm.mem_iff.mpr hname)) ?_
      intro name u hu
      obtain ⟨⟨_, v⟩, hv, rfl⟩ := List.mem_map.mp (hperm.mem_iff.mpr (List.mem_map_of_mem hu))
      exact ih _ v u hv hu (hentries _ v hv)

theorem refl (ht : t.Proper) : t.Reordered t :=
  iff_related.mpr (.refl Eq.refl ht)

theorem of_perm {entries others : List (RawText × Tree)} (hperm : entries.Perm others)
    (ht : (Tree.folder entries).Proper) :
    (Tree.folder entries).Reordered (.folder others) := by
  cases refl ht with
  | folder _ hentries =>
    exact .folder (hperm.map Prod.fst) fun name t u ht hu => hentries name t u ht (hperm.mem_iff.mpr hu)

theorem at?_file_iff (h : t.Reordered t') (place : List RawText) (f : File) :
    t.at? place = .ok (.file f) ↔ t'.at? place = .ok (.file f) := by
  rcases (iff_related.mp h).at? place with ⟨e, he, he'⟩ | ⟨u, u', hu, hu', h⟩
  · rw [he, he']
  · rw [hu, hu']
    cases h with
    | file h => rw [h]
    | folder _ _ => simp

end Reordered

end Tree

namespace Disk

variable {R : File → File → Prop}

theorem follow_related {root root' : Tree} (h : root.Related R root') (place names : List RawText) :
    follow root place names = follow root' place names := by
  induction names generalizing place with
  | nil => rfl
  | cons name names ih =>
    rw [follow, follow]
    rcases h.at? place with ⟨e, he, he'⟩ | ⟨u, u', hu, hu', h⟩
    · rw [he, he']
    · rw [hu, hu']
      cases h with
      | file _ => rfl
      | folder hperm hentries =>
        dsimp only
        rw [ih, ih]
        rcases Tree.Related.lookup hperm hentries name with ⟨hnone, hnone'⟩ | ⟨v, v', hv, hv', -⟩
        · rw [hnone, hnone']
        · rw [hv, hv', Option.isSome_some, Option.isSome_some]

theorem find?_related {d : Disk} {root : Tree} (h : d.root.Related R root) (path : RawText) :
    (∃ e, d.find? path = .error e ∧ { d with root }.find? path = .error e) ∨
      ∃ t t', d.find? path = .ok t ∧ { d with root }.find? path = .ok t' ∧ t.Related R t' := by
  have hplace : ({ d with root } : Disk).place path = d.place path := by
    simp only [place, follow_related h]
  simp only [find?, hplace]
  cases d.place path with
  | error e => exact .inl ⟨e, rfl, rfl⟩
  | ok place =>
    simp only [bind, Except.bind]
    rcases h.at? place with ⟨e, he, he'⟩ | ⟨t, t', ht, ht', h⟩
    · exact .inl ⟨e, by rw [he], by rw [he']⟩
    · rw [ht, ht']
      dsimp only
      rw [← h.isFile_eq]
      split
      · exact .inl ⟨.notAFolder, rfl, rfl⟩
      · exact .inr ⟨t, t', rfl, rfl, h⟩

theorem exists_at?_of_find? {d : Disk} {path : RawText} {t : Tree} (h : d.find? path = .ok t) :
    ∃ place, d.place path = .ok place ∧ d.root.at? place = .ok t := by
  obtain ⟨place, hplace, h⟩ := exists_of_bind_eq_ok h
  obtain ⟨u, hu, h⟩ := exists_of_bind_eq_ok h
  split at h
  · cases h
  · cases h
    exact ⟨place, hplace, hu⟩

theorem proper_of_find? {d : Disk} (hd : d.root.Proper) {path : RawText} {t : Tree}
    (h : d.find? path = .ok t) : t.Proper := by
  obtain ⟨place, -, hat⟩ := exists_at?_of_find? h
  exact (hd.at? hat).1

end Disk

end NoteQuery
