import NoteQuery.Proofs.File.Reordering

/-!
# Entries of a folder by path

The path of a folder joined with the name of one of its entries leads to that entry and nowhere
else. The name has to be one that an entry can have: two dots, an absolute path or a name with a
slash would lead somewhere else.
-/

namespace NoteQuery

set_option autoImplicit false

namespace Path

variable {name : RawText}

theorem IsEntryName.isAbsolute_eq_false (hname : IsEntryName name) : isAbsolute name = false := by
  obtain ⟨b, bytes, hbytes, hb⟩ := hname.exists_cons
  rw [isAbsolute, hbytes, List.head?_cons]
  simpa using hb

theorem names_join (folder : RawText) (hname : IsEntryName name) :
    names (join folder name) = names folder ++ [name] := by
  obtain ⟨bytes, hbytes, hjoin, hnames, -⟩ := exists_join folder hname.isAbsolute_eq_false
  rw [hjoin, names_append hbytes hname, hnames]

theorem isAbsolute_join (folder : RawText) (hname : IsEntryName name) :
    isAbsolute (join folder name) = isAbsolute folder := by
  obtain ⟨bytes, -, hjoin, -, hhead⟩ := exists_join folder hname.isAbsolute_eq_false
  obtain ⟨b, more, hmore, hb⟩ := hname.exists_cons
  rw [isAbsolute, isAbsolute, hjoin, List.head?_append, hhead]
  cases folder.bytes.head? with
  | none => simpa [hmore] using hb
  | some d => rfl

theorem join_ne_empty (folder : RawText) (hname : IsEntryName name) : join folder name ≠ "" := by
  obtain ⟨bytes, -, hjoin, -, -⟩ := exists_join folder hname.isAbsolute_eq_false
  intro hempty
  rw [hjoin] at hempty
  exact hname.ne_empty (congrArg RawText.mk (List.append_eq_nil_iff.mp (congrArg RawText.bytes hempty)).2)

/-- A path that ends in the name of an entry does not ask for a folder. -/
theorem leadsToFolder_join (folder : RawText) (hname : IsEntryName name) :
    leadsToFolder (join folder name) = false := by
  obtain ⟨bytes, -, hjoin, -, -⟩ := exists_join folder hname.isAbsolute_eq_false
  have hmem {b : UInt8} (hb : b ∈ name.bytes.reverse) : b ≠ slash := by
    rintro rfl
    exact hname.not_mem (List.mem_reverse.mp hb)
  rw [leadsToFolder, hjoin, List.reverse_append]
  -- The last two bytes decide: neither is a slash, or the name is a single byte other than a dot.
  cases hrev : name.bytes.reverse with
  | nil => exact absurd (congrArg RawText.mk (List.reverse_eq_nil_iff.mp hrev)) hname.ne_empty
  | cons b more =>
    rw [hrev] at hmem
    have hb := hmem List.mem_cons_self
    cases more with
    | nil =>
      have hdot : b ≠ dot := by
        rintro rfl
        exact hname.ne_dot (congrArg RawText.mk (List.reverse_eq_cons_iff.mp hrev))
      simp [hb, hdot]
    | cons c more =>
      have hc := hmem (List.mem_cons_of_mem b List.mem_cons_self)
      simp [hb, hc]

end Path

theorem Tree.at?_append (t : Tree) (place more : List RawText) :
    t.at? (place ++ more) = t.at? place >>= fun u => u.at? more := by
  induction place generalizing t with
  | nil =>
    rw [List.nil_append, at?_nil]
    rfl
  | cons name place ih =>
    cases t with
    | file f => rfl
    | folder entries =>
      rw [List.cons_append, at?, at?]
      cases entries.lookup name with
      | none => rfl
      | some t => exact ih t

namespace Disk

theorem follow_append (root : Tree) (place names more : List RawText) :
    follow root place (names ++ more) =
      follow root place names >>= fun place => follow root place more := by
  induction names generalizing place with
  | nil => rfl
  | cons name names ih =>
    rw [List.cons_append, follow, follow]
    cases root.at? place with
    | error e => rfl
    | ok t =>
      cases t with
      | file f => rfl
      | folder entries =>
        dsimp only
        split
        · exact ih _
        · split
          · exact ih _
          · rfl

variable {d : Disk} {folder name : RawText} {entries : List (RawText × Tree)}

theorem follow_entry {root : Tree} {place : List RawText} (hname : Path.IsEntryName name)
    (hat : root.at? place = .ok (.folder entries)) :
    follow root place [name] =
      if (entries.lookup name).isSome then .ok (place ++ [name]) else .error .missing := by
  rw [follow, hat]
  dsimp only
  rw [if_neg hname.ne_dots, follow]

theorem place_join (hname : Path.IsEntryName name) {place : List RawText}
    (hplace : d.place folder = .ok place) :
    d.place (Path.join folder name) = follow d.root place [name] := by
  simp only [Disk.place, Path.names_join folder hname, Path.isAbsolute_join folder hname] at hplace ⊢
  split at hplace
  · cases hplace
  · rw [if_neg (Path.join_ne_empty folder hname), follow_append, hplace]
    rfl

/-- Behind the path of a folder, the name of an entry leads to that entry,
and any other name to nothing. -/
theorem find?_join (hname : Path.IsEntryName name) (hfolder : d.find? folder = .ok (.folder entries)) :
    d.find? (Path.join folder name) = (entries.lookup name).elim (.error .missing) .ok := by
  obtain ⟨place, hplace, hat⟩ := exists_at?_of_find? hfolder
  have hentry : d.root.at? (place ++ [name]) = (Tree.folder entries).at? [name] := by
    rw [Tree.at?_append, hat]
    rfl
  rw [find?, place_join hname hplace, follow_entry hname hat]
  cases hlookup : entries.lookup name with
  | none => rfl
  | some t =>
    simp only [bind, Except.bind, Option.isSome_some, if_pos, hentry, Tree.at?, hlookup,
      Path.leadsToFolder_join folder hname, Bool.false_and, Bool.false_eq_true, if_false,
      Option.elim_some]

theorem read_join (hname : Path.IsEntryName name) (hfolder : d.find? folder = .ok (.folder entries))
    {f : File} (hentry : entries.lookup name = some (.file f)) :
    d.read (Path.join folder name) = f.text := by
  rw [read, find?_join hname hfolder, hentry]
  rfl

theorem exists_of_read_join_eq_ok (hname : Path.IsEntryName name)
    (hfolder : d.find? folder = .ok (.folder entries)) {text : String}
    (h : d.read (Path.join folder name) = .ok text) :
    ∃ f, (name, Tree.file f) ∈ entries ∧ f.text = .ok text := by
  rw [read, find?_join hname hfolder] at h
  cases hlookup : entries.lookup name with
  | none =>
    rw [hlookup] at h
    cases h
  | some t =>
    rw [hlookup] at h
    cases t with
    | file f => exact ⟨f, Text.mem_of_lookup hlookup, h⟩
    | folder _ => cases h

end Disk

end NoteQuery
