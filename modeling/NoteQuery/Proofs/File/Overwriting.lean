import NoteQuery.Proofs.File.Reordering

/-!
# Overwriting a file

A file that gets another text leaves everything else as it was: at every other place there is the
same file, the same folder or nothing, as before.
-/

namespace NoteQuery

set_option autoImplicit false

namespace Tree

def fileAt (t : Tree) (place : List RawText) : Except FileError File := do (← t.at? place).file?

theorem lookup_putEntry_self (name : RawText) (t : Tree) (entries : List (RawText × Tree)) :
    (putEntry name t entries).lookup name = some t := by
  induction entries with
  | nil => rw [putEntry, List.lookup_cons_self]
  | cons entry entries ih =>
    obtain ⟨other, old⟩ := entry
    rw [putEntry]
    split
    · rw [List.lookup_cons_self]
    · rename_i h
      rw [List.lookup_cons, beq_eq_false_iff_ne.mpr (Ne.symm h), ih]

theorem lookup_putEntry_of_ne {name other : RawText} (h : other ≠ name) (t : Tree)
    (entries : List (RawText × Tree)) :
    (putEntry name t entries).lookup other = entries.lookup other := by
  induction entries with
  | nil => rw [putEntry, List.lookup_cons, beq_eq_false_iff_ne.mpr h]
  | cons entry entries ih =>
    obtain ⟨found, old⟩ := entry
    rw [putEntry]
    split
    · rename_i hfound
      subst hfound
      rw [List.lookup_cons, List.lookup_cons, beq_eq_false_iff_ne.mpr h]
    · rw [List.lookup_cons, List.lookup_cons, ih]

/-- A file in place of a file changes what stands at its own place only. -/
theorem fileAt_put_of_ne {t : Tree} {place other : List RawText} {old : File}
    (hold : t.at? place = .ok (.file old))
    (new : File) (hne : other ≠ place) : (t.put place (.file new)).fileAt other = t.fileAt other := by
  -- On the place: the other one leads into another entry, or into the same
  -- entry and differs further down.
  induction place generalizing t other with
  | nil =>
    rw [at?_nil] at hold
    rw [put, Except.ok.inj hold]
    cases other with
    | nil => exact absurd rfl hne
    | cons name other => rfl
  | cons name place ih =>
    cases t with
    | file f => cases hold
    | folder entries =>
      obtain ⟨u, hlookup, hu⟩ := exists_lookup_of_at? hold
      rw [put, hlookup, Option.getD_some]
      cases other with
      | nil => rfl
      | cons next other =>
        by_cases hnext : next = name
        · subst hnext
          have hother : other ≠ place := fun h => hne (h ▸ rfl)
          simp only [fileAt, at?, lookup_putEntry_self, hlookup]
          exact ih hu hother
        · simp only [fileAt, at?, lookup_putEntry_of_ne hnext]

end Tree

namespace Disk

theorem overwrite_cases {d d' : Disk} {path : RawText} {text : String}
    (h : d.overwrite path text = .ok d') :
    ∃ place old new, d.place path = .ok place ∧ d.root.at? place = .ok (.file old) ∧
      d' = { d with root := d.root.put place (.file new) } := by
  obtain ⟨t, ht, h⟩ := exists_of_bind_eq_ok h
  obtain ⟨old, hold, h⟩ := exists_of_bind_eq_ok h
  obtain ⟨new, -, h⟩ := exists_of_bind_eq_ok h
  obtain ⟨place, hplace, h⟩ := exists_of_bind_eq_ok h
  obtain ⟨_, hplace', hat⟩ := exists_at?_of_find? ht
  cases hplace.symm.trans hplace'
  cases h
  cases t with
  | file f => exact ⟨place, f, new, hplace, hat, rfl⟩
  | folder _ => cases hold

theorem fileAt_overwrite_of_ne {d d' : Disk} {path : RawText} {text : String}
    (h : d.overwrite path text = .ok d') {place : List RawText}
    (hne : d.place path ≠ .ok place) : d'.root.fileAt place = d.root.fileAt place := by
  obtain ⟨target, old, new, htarget, hold, rfl⟩ := overwrite_cases h
  exact Tree.fileAt_put_of_ne hold new fun heq => hne (heq ▸ htarget)

theorem folder_overwrite {d d' : Disk} {path : RawText} {text : String}
    (h : d.overwrite path text = .ok d') : d'.folder = d.folder := by
  obtain ⟨_, _, _, -, -, rfl⟩ := overwrite_cases h
  rfl

end Disk

end NoteQuery
