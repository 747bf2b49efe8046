import Mathlib.Data.List.Perm.Subperm
import NoteQuery.Proofs.File.Joining
import NoteQuery.Vault.Basic

/-!
# Templates of a vault

Names are looked up in the list of the template folder before a path is made of them, and no name in
that list leads out of the folder. The list has the names as they are shown, so a file whose name is
no text stands there under another name: one that no file has, or one that another file has as well.
-/

namespace NoteQuery

set_option autoImplicit false

theorem mapError_eq_ok_iff {ε ε' α : Type} {x : Except ε α} {f : ε → ε'} {a : α} :
    x.mapError f = .ok a ↔ x = .ok a := by
  cases x <;> simp [Except.mapError]

theorem File.text_eq_ok_iff {f : File} {text : String} :
    f.text = .ok text ↔ f.readable = true ∧ f.content = text.toUTF8 := by
  rw [File.text, ← fromUTF8?_eq_some_iff]
  cases f.readable with
  | false => simp
  | true => cases String.fromUTF8? f.content <;> simp

namespace Tree

variable {entries : List (RawText × Tree)} {raw : RawText}

theorem mem_ownNames_iff : raw ∈ ownNames entries ↔ ∃ f, (raw, file f) ∈ entries := by
  rw [ownNames, List.mem_map]
  constructor
  · rintro ⟨⟨_, t⟩, hmem, rfl⟩
    obtain ⟨hentry, hfile⟩ := List.mem_filter.mp hmem
    cases t with
    | file f => exact ⟨f, hentry⟩
    | folder _ => cases hfile
  · rintro ⟨f, hentry⟩
    exact ⟨(raw, file f), List.mem_filter.mpr ⟨hentry, rfl⟩, rfl⟩

theorem nodup_ownNames (hnodup : (entries.map Prod.fst).Nodup) : (ownNames entries).Nodup :=
  hnodup.sublist (List.filter_sublist.map Prod.fst)

theorem perm_fileNames : (folder entries).fileNames.Perm ((ownNames entries).map RawText.lossy) :=
  List.mergeSort_perm _ _

theorem pairwise_fileNames : (folder entries).fileNames.Pairwise (· ≤ ·) :=
  Text.pairwise_mergeSort_le id _

theorem mem_fileNames_iff {name : String} :
    name ∈ (folder entries).fileNames ↔ ∃ raw f, (raw, file f) ∈ entries ∧ raw.lossy = name := by
  rw [perm_fileNames.mem_iff, List.mem_map]
  refine exists_congr fun raw => ?_
  rw [mem_ownNames_iff, exists_and_right]

theorem mem_fileNames {name : String} {f : File} (h : (RawText.ofString name, file f) ∈ entries) :
    name ∈ (folder entries).fileNames :=
  mem_fileNames_iff.mpr ⟨_, f, h, RawText.lossy_ofString name⟩

/-- Every name that a folder lists could be that of an entry of it. -/
theorem Proper.isEntryName {name : String} (ht : (Tree.folder entries).Proper)
    (h : name ∈ (Tree.folder entries).fileNames) : Path.IsEntryName name := by
  obtain ⟨raw, f, hentry, rfl⟩ := mem_fileNames_iff.mp h
  cases ht with
  | folder _ hnames _ => exact (hnames raw (List.mem_map_of_mem hentry)).ofString_lossy

theorem count_fileNames (hnodup : (entries.map Prod.fst).Nodup)
    (htexts : ∀ raw f, (raw, file f) ∈ entries → raw.text?.isSome) {name : String} {f : File}
    (h : (RawText.ofString name, file f) ∈ entries) : (folder entries).fileNames.count name = 1 := by
  apply List.count_eq_one_of_mem _ (mem_fileNames h)
  rw [perm_fileNames.nodup_iff]
  apply (nodup_ownNames hnodup).map_on
  intro raw hraw other hother heq
  obtain ⟨f, hf⟩ := mem_ownNames_iff.mp hraw
  obtain ⟨g, hg⟩ := mem_ownNames_iff.mp hother
  rw [← RawText.ofString_lossy_eq_iff.mpr (htexts raw f hf), heq,
    RawText.ofString_lossy_eq_iff.mpr (htexts other g hg)]

theorem two_le_count_fileNames {other : RawText} {f g : File} (hraw : (raw, file f) ∈ entries)
    (hother : (other, file g) ∈ entries) (hne : raw ≠ other) (heq : raw.lossy = other.lossy) :
    2 ≤ (folder entries).fileNames.count raw.lossy := by
  have hpair : [raw, other] ⊆ (ownNames entries).filter fun name => name.lossy == raw.lossy := by
    rw [List.cons_subset, List.cons_subset, List.mem_filter, List.mem_filter, mem_ownNames_iff,
      mem_ownNames_iff, heq]
    exact ⟨⟨⟨f, hraw⟩, beq_self_eq_true _⟩, ⟨⟨g, hother⟩, beq_self_eq_true _⟩, List.nil_subset _⟩
  rw [perm_fileNames.count_eq, List.count, List.countP_map, List.countP_eq_length_filter]
  exact (List.Nodup.subperm (by simpa using hne) hpair).length_le

theorem Related.perm_ownNames {R : File → File → Prop} {others : List (RawText × Tree)}
    (h : (Tree.folder entries).Related R (.folder others)) (hnodup : (entries.map Prod.fst).Nodup) :
    (ownNames entries).Perm (ownNames others) := by
  cases h with
  | folder hperm hentries =>
    rw [List.perm_ext_iff_of_nodup (nodup_ownNames hnodup) (nodup_ownNames (hperm.nodup_iff.mp hnodup))]
    intro raw
    rw [mem_ownNames_iff, mem_ownNames_iff]
    constructor
    · rintro ⟨f, hf⟩
      obtain ⟨⟨_, u⟩, hu, rfl⟩ := List.mem_map.mp (hperm.mem_iff.mp (List.mem_map_of_mem hf))
      cases hentries _ _ u hf hu
      exact ⟨_, hu⟩
    · rintro ⟨f, hf⟩
      obtain ⟨⟨_, t⟩, ht, rfl⟩ := List.mem_map.mp (hperm.mem_iff.mpr (List.mem_map_of_mem hf))
      cases hentries _ t _ ht hf
      exact ⟨_, ht⟩

/-- Which files a folder lists does not depend on what they hold, nor on the order of its entries. -/
theorem Related.fileNames_eq {R : File → File → Prop} {t u : Tree} (h : t.Related R u) (ht : t.Proper) :
    t.fileNames = u.fileNames := by
  cases ht with
  | file _ =>
    cases h
    rfl
  | folder hnodup _ _ =>
    cases u with
    | file _ => cases h
    | folder others =>
      have hperm := (h.perm_ownNames hnodup).map RawText.lossy
      exact ((perm_fileNames.trans hperm).trans perm_fileNames.symm).eq_of_pairwise'
        pairwise_fileNames pairwise_fileNames

end Tree

namespace Vault

variable {v : Vault} {d : Disk} {entries : List (RawText × Tree)} {name : String}

theorem templates_eq_ok_iff {names : List String} :
    v.templates d = .ok names ↔ ∃ entries, d.find? v.templateFolder = .ok (.folder entries) ∧
      (Tree.folder entries).fileNames = names ∧ names ≠ [] := by
  rw [templates]
  split
  · rename_i entries hfolder
    split
    · rename_i hnone
      constructor
      · intro h
        cases h
      · rintro ⟨others, hothers, rfl, hne⟩
        cases hfolder.symm.trans hothers
        exact absurd hnone hne
    · rename_i hne
      constructor
      · intro h
        cases h
        exact ⟨entries, hfolder, rfl, hne⟩
      · rintro ⟨others, hothers, rfl, -⟩
        cases hfolder.symm.trans hothers
        rfl
  · rename_i hother
    constructor
    · intro h
      cases h
    · rintro ⟨entries, hfolder, -, -⟩
      exact absurd hfolder (hother entries)

theorem templates_of_file (hfolder : d.find? v.templateFolder = .ok (.folder entries))
    {raw : RawText} {f : File} (hentry : (raw, Tree.file f) ∈ entries) :
    v.templates d = .ok (Tree.folder entries).fileNames :=
  templates_eq_ok_iff.mpr
    ⟨entries, hfolder, rfl, List.ne_nil_of_mem (Tree.mem_fileNames_iff.mpr ⟨raw, f, hentry, rfl⟩)⟩

theorem templates_related {R : File → File → Prop} {root : Tree} (hd : d.root.Proper)
    (h : d.root.Related R root) : v.templates { d with root } = v.templates d := by
  rcases Disk.find?_related h v.templateFolder with ⟨e, he, he'⟩ | ⟨t, t', ht, ht', h⟩
  · rw [templates, templates, he, he']
  · have hnames := h.fileNames_eq (Disk.proper_of_find? hd ht)
    rw [templates, templates, ht, ht']
    cases h with
    | file _ => rfl
    | folder _ _ =>
      dsimp only
      rw [hnames]

theorem template_of_not_mem {names : List String} (h : v.templates d = .ok names)
    (hname : name ∉ names) : v.template d name = .error (.template (.unknown name)) := by
  rw [template, h]
  exact if_neg hname

theorem template_of_mem {names : List String} (h : v.templates d = .ok names) (hname : name ∈ names) :
    v.template d name = (d.read (Path.join v.templateFolder name)).mapError .file := by
  rw [template, h]
  dsimp only
  rw [if_pos hname]
  cases d.read (Path.join v.templateFolder name) <;> rfl

theorem template_eq_ok_iff (hd : d.root.Proper) {text : String} :
    v.template d name = .ok text ↔ ∃ entries f, d.find? v.templateFolder = .ok (.folder entries) ∧
      (RawText.ofString name, Tree.file f) ∈ entries ∧ f.text = .ok text := by
  constructor
  · intro h
    cases htemplates : v.templates d with
    | error e =>
      rw [template, htemplates] at h
      cases h
    | ok names =>
      by_cases hname : name ∈ names
      · rw [template_of_mem htemplates hname, mapError_eq_ok_iff] at h
        obtain ⟨entries, hfolder, rfl, -⟩ := templates_eq_ok_iff.mp htemplates
        have hentryName := (Disk.proper_of_find? hd hfolder).isEntryName hname
        obtain ⟨f, hentry, htext⟩ := Disk.exists_of_read_join_eq_ok hentryName hfolder h
        exact ⟨entries, f, hfolder, hentry, htext⟩
      · rw [template_of_not_mem htemplates hname] at h
        cases h
  · rintro ⟨entries, f, hfolder, hentry, htext⟩
    have hname := Tree.mem_fileNames hentry
    have hproper := Disk.proper_of_find? hd hfolder
    rw [template_of_mem (templates_of_file hfolder hentry) hname, mapError_eq_ok_iff]
    rw [Disk.read_join (hproper.isEntryName hname) hfolder (Text.lookup_of_mem hproper.nodup hentry), htext]

/-- What it is that templates are called by the names of their files: every file is listed once,
in order, under its name, and any other name is refused, whatever the files of the disk hold:
none of them has been read. -/
structure CalledByName (v : Vault) (d : Disk) (entries : List (RawText × Tree)) : Prop where
  listed : ∃ names, v.templates d = .ok names ∧ names.Pairwise (· ≤ ·) ∧
    ∀ name f, (RawText.ofString name, Tree.file f) ∈ entries → names.count name = 1
  refused : ∀ name : String, (∀ f, (RawText.ofString name, Tree.file f) ∉ entries) →
    ∀ root, d.root.Related (fun _ _ => True) root →
      v.template { d with root } name = .error (.template (.unknown name))

theorem calledByName_of_texts (hd : d.root.Proper)
    (hfolder : d.find? v.templateFolder = .ok (.folder entries))
    {raw : RawText} {f : File} (hentry : (raw, Tree.file f) ∈ entries)
    (htexts : ∀ raw f, (raw, Tree.file f) ∈ entries → raw.text?.isSome) : v.CalledByName d entries := by
  have htemplates := templates_of_file hfolder hentry
  have hnodup := (Disk.proper_of_find? hd hfolder).nodup
  constructor
  · exact ⟨_, htemplates, Tree.pairwise_fileNames, fun name f h => Tree.count_fileNames hnodup htexts h⟩
  · intro name hname root hrelated
    apply template_of_not_mem ((templates_related hd hrelated).trans htemplates)
    intro hmem
    obtain ⟨raw, f, hraw, rfl⟩ := Tree.mem_fileNames_iff.mp hmem
    rw [← RawText.ofString_lossy_eq_iff.mpr (htexts raw f hraw)] at hraw
    exact hname f hraw

/-- A file whose name is no text is listed under another name. If a file has that name, it is listed
twice; if none has it, it is not refused. -/
theorem not_calledByName (hd : d.root.Proper)
    (hfolder : d.find? v.templateFolder = .ok (.folder entries))
    {raw : RawText} {f : File} (hentry : (raw, Tree.file f) ∈ entries) (hraw : raw.text? = none) :
    ¬v.CalledByName d entries := by
  intro h
  have htemplates := templates_of_file hfolder hentry
  have hne : raw ≠ RawText.ofString raw.lossy := by
    intro heq
    rw [heq, RawText.text?_ofString] at hraw
    cases hraw
  by_cases hother : ∃ g, (RawText.ofString raw.lossy, Tree.file g) ∈ entries
  · obtain ⟨g, hother⟩ := hother
    obtain ⟨names, hnames, -, hcount⟩ := h.listed
    rw [htemplates] at hnames
    have htwo := Tree.two_le_count_fileNames hentry hother hne (RawText.lossy_ofString _).symm
    have hone := hcount _ g hother
    rw [← Except.ok.inj hnames] at hone
    omega
  · have hrefused := h.refused raw.lossy (not_exists.mp hother) d.root (.refl (fun _ => trivial) hd)
    rw [template_of_mem htemplates (Tree.mem_fileNames_iff.mpr ⟨raw, f, hentry, rfl⟩)] at hrefused
    -- Whatever reading that name gives, it is no refusal.
    generalize d.read (Path.join v.templateFolder raw.lossy) = result at hrefused
    cases result <;> cases hrefused

/-- A template that is read is a file directly in the template folder, under its own name. Templates
are called by the names of their files just where these names are texts. -/
theorem template_stays_in_folder_calledByName_iff (v : Vault) (d : Disk) (hd : d.root.Proper) :
    (∀ name text, v.template d name = .ok text ↔
      ∃ entries f, d.find? v.templateFolder = .ok (.folder entries) ∧
        (RawText.ofString name, Tree.file f) ∈ entries ∧
        Path.IsEntryName name ∧ f.readable = true ∧ f.content = text.toUTF8) ∧
    ∀ entries, d.find? v.templateFolder = .ok (.folder entries) →
      (∃ raw f, (raw, Tree.file f) ∈ entries) →
      (v.CalledByName d entries ↔ ∀ raw f, (raw, Tree.file f) ∈ entries → raw.text?.isSome) := by
  constructor
  · intro name text
    rw [template_eq_ok_iff hd]
    refine exists_congr fun entries => exists_congr fun f => and_congr_right fun hfolder =>
      and_congr_right fun hentry => ?_
    rw [File.text_eq_ok_iff, iff_and_self]
    exact fun _ => (Disk.proper_of_find? hd hfolder).isEntryName (Tree.mem_fileNames hentry)
  · rintro entries hfolder ⟨listed, f, hlisted⟩
    constructor
    · intro h raw f hentry
      rw [← Option.ne_none_iff_isSome]
      exact fun hraw => not_calledByName hd hfolder hentry hraw h
    · exact calledByName_of_texts hd hfolder hlisted

theorem template_stays_in_folder_calledByName_iff_hostile_names :
    (Vault.mk "." .usual).template
        ⟨.folder [("s", .file (.ofText "y")),
          ("Template", .folder [("b.md", .file (.ofText "x")), ("a", .folder [])])], []⟩
        "b.md" = .ok "x" ∧
    ∀ name ∈ ["../s", "/s", "./b.md", "b.md/", "a", "a/../b.md", ".", "..", ""], ∀ f g : File,
      (Vault.mk "." .usual).template
          ⟨.folder [("s", .file f), ("Template", .folder [("b.md", .file g), ("a", .folder [])])],
            []⟩ name =
        .error (.template (.unknown name)) := by
  have hinner : (Tree.folder [("b.md", .file (.ofText "x")), ("a", .folder [])]).Proper :=
    .cons (by decide) (by decide) (.file _) (.cons (by decide) (by decide) .nil .nil)
  have hproper : (Tree.folder [("s", .file (.ofText "y")),
      ("Template", .folder [("b.md", .file (.ofText "x")), ("a", .folder [])])]).Proper :=
    .cons (by decide) (by decide) (.file _) (.cons (by decide) (by decide) hinner .nil)
  obtain ⟨hread, hcalled⟩ := template_stays_in_folder_calledByName_iff (.mk "." .usual) ⟨_, []⟩ hproper
  have hfile {raw : RawText} {f : File}
      (h : (raw, .file f) ∈ ([("b.md", .file (.ofText "x")), ("a", .folder [])] : List (RawText × Tree))) :
      raw = "b.md" := by
    rcases List.mem_pair.mp h with h | h
    · exact (Prod.mk.inj h).1
    · cases (Prod.mk.inj h).2
  constructor
  · exact (hread "b.md" "x").mpr ⟨_, _, rfl, List.mem_cons_self, by decide, rfl, rfl⟩
  · intro name hname f g
    apply ((hcalled _ rfl ⟨"b.md", _, List.mem_cons_self⟩).mpr ?_).refused name
    · intro f hmem
      rw [RawText.ofString_injective (hfile hmem)] at hname
      revert hname
      decide
    · have hnone : (Tree.folder []).Related (fun _ _ => True) (.folder []) := .folder .nil (by simp)
      apply Tree.Related.cons (by decide) (.file trivial)
      apply Tree.Related.cons (by decide) _ hnone
      exact .cons (by decide) (.file trivial) (.cons (by decide) hnone hnone)
    · intro raw f hmem
      rw [hfile hmem, RawText.text?_ofString, Option.isSome_some]

/-- A file named by a byte that starts no character is listed under a name that leads to no file.
With a file of that name beside it, the name is listed twice. -/
theorem not_calledByName_broken_name :
    (¬(Vault.mk "." .usual).CalledByName
        ⟨.folder [("Template", .folder [(⟨[0xFF, 0x2E, 0x6D, 0x64]⟩, .file (.ofText "x"))])], []⟩
        [(⟨[0xFF, 0x2E, 0x6D, 0x64]⟩, .file (.ofText "x"))]) ∧
    (Vault.mk "." .usual).template
        ⟨.folder [("Template", .folder [(⟨[0xFF, 0x2E, 0x6D, 0x64]⟩, .file (.ofText "x"))])], []⟩
        "\uFFFD.md" = .error (.file .missing) ∧
    (Vault.mk "." .usual).templates
        ⟨.folder [("Template", .folder [(⟨[0xFF, 0x2E, 0x6D, 0x64]⟩, .file (.ofText "x")),
          ("\uFFFD.md", .file (.ofText "y"))])], []⟩ = .ok ["\uFFFD.md", "\uFFFD.md"] := by
  have hinner : (Tree.folder [(⟨[0xFF, 0x2E, 0x6D, 0x64]⟩, .file (.ofText "x"))]).Proper :=
    .cons (by decide) (by decide) (.file _) .nil
  refine ⟨?_, by decide +kernel, ?_⟩
  · exact not_calledByName (.cons (by decide) (by decide) hinner .nil) rfl
      List.mem_cons_self (by decide +kernel)
  · rw [templates_of_file rfl List.mem_cons_self]
    exact congrArg Except.ok (List.mergeSort_of_pairwise (by decide))

end Vault

end NoteQuery
