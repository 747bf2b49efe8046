import NoteQuery.File.Path
import NoteQuery.Proofs.File.RawText
import NoteQuery.Proofs.Text.Blank

/-!
# The last name of a path

A path that is joined from names ends in the last of them, whatever stands in front.
-/

namespace NoteQuery.Path

set_option autoImplicit false

structure IsEntryName (name : RawText) : Prop where
  ne_empty : name ≠ ""
  ne_dot : name ≠ "."
  ne_dots : name ≠ ".."
  not_mem : slash ∉ name.bytes

instance (name : RawText) : Decidable (IsEntryName name) :=
  decidable_of_iff (name ≠ "" ∧ name ≠ "." ∧ name ≠ ".." ∧ slash ∉ name.bytes)
    ⟨fun ⟨hempty, hdot, hdots, hmem⟩ => ⟨hempty, hdot, hdots, hmem⟩,
      fun ⟨hempty, hdot, hdots, hmem⟩ => ⟨hempty, hdot, hdots, hmem⟩⟩

/-- A name stays one that an entry can have when it is read as it is shown. -/
theorem IsEntryName.ofString_lossy {name : RawText} (h : IsEntryName name) :
    IsEntryName (RawText.ofString name.lossy) := by
  have hne {s : String} (hs : '\uFFFD' ∉ s.toList) (hname : name ≠ s) :
      RawText.ofString name.lossy ≠ s := by
    intro heq
    rw [← RawText.ofString_injective heq] at hs
    exact hname ((RawText.eq_ofString_lossy hs).trans heq)
  exact ⟨hne (by decide) h.ne_empty, hne (by decide) h.ne_dot, hne (by decide) h.ne_dots,
    fun hmem => h.not_mem (RawText.mem_bytes_of_mem_ofString_lossy hmem (by decide))⟩

theorem exists_splitOn_append {bytes : List UInt8} (hbytes : ∀ b ∈ bytes.getLast?, b = slash) :
    ∃ parts, ∀ name, slash ∉ name → Text.splitOn (· == slash) (bytes ++ name) = parts ++ [name] := by
  have hsingle {name : List UInt8} (hname : slash ∉ name) : name.splitOnP (· == slash) = [name] := by
    apply List.splitOnP_eq_singleton
    intro b hb
    exact beq_eq_false_iff_ne.mpr fun h => hname (h ▸ hb)
  rcases List.eq_nil_or_concat bytes with rfl | ⟨front, b, rfl⟩
  · refine ⟨[], fun name hname => ?_⟩
    rw [Text.splitOn_eq_splitOnP, List.nil_append, hsingle hname, List.nil_append]
  · obtain rfl := hbytes b (by simp)
    refine ⟨front.splitOnP (· == slash), fun name hname => ?_⟩
    rw [Text.splitOn_eq_splitOnP, List.concat_eq_append, List.append_assoc, List.singleton_append,
      List.splitOnP_append_cons _ _ (by simp), hsingle hname]

theorem names_append {bytes : List UInt8} (hbytes : ∀ b ∈ bytes.getLast?, b = slash) {name : RawText}
    (hname : IsEntryName name) : names ⟨bytes ++ name.bytes⟩ = names ⟨bytes⟩ ++ [name] := by
  obtain ⟨parts, hparts⟩ := exists_splitOn_append hbytes
  have hfront : names ⟨bytes⟩ = (parts.map RawText.mk).filter fun name : RawText =>
    name != "" && name != "." := by
    rw [names, ← List.append_nil bytes, hparts [] (by simp), List.map_append, List.filter_append]
    exact List.append_nil _
  have hkept : (name != "" && name != ".") = true := by
    rw [Bool.and_eq_true, bne_iff_ne, bne_iff_ne]
    exact ⟨hname.ne_empty, hname.ne_dot⟩
  rw [hfront, names, hparts _ hname.not_mem, List.map_append, List.filter_append, List.map_singleton,
    List.filter_singleton, hkept, cond_true]

theorem fileName?_append {bytes : List UInt8} (hbytes : ∀ b ∈ bytes.getLast?, b = slash) {name : RawText}
    (hname : IsEntryName name) : fileName? ⟨bytes ++ name.bytes⟩ = some name := by
  have hup : (name != "..") = true := bne_iff_ne.mpr hname.ne_dots
  rw [fileName?, names_append hbytes hname, List.getLast?_concat, Option.filter_some, hup, if_pos rfl]

theorem exists_intercalate_concat (front : List (List UInt8)) (last : List UInt8) :
    ∃ bytes : List UInt8, (∀ b ∈ bytes.getLast?, b = slash) ∧
      [slash].intercalate (front ++ [last]) = bytes ++ last := by
  induction front with
  | nil => exact ⟨[], by simp, by simp⟩
  | cons name front ih =>
    obtain ⟨bytes, hbytes, h⟩ := ih
    refine ⟨name ++ slash :: bytes, ?_, ?_⟩
    · intro b hb
      rw [List.getLast?_append_cons, List.getLast?_cons] at hb
      cases hlast : bytes.getLast? with
      | none => simpa [hlast, eq_comm] using hb
      | some d =>
        rw [hlast, Option.getD_some, Option.mem_some_iff] at hb
        exact hb ▸ hbytes d hlast
    · rw [List.cons_append, List.intercalate_cons_of_ne_nil (by simp), h]
      simp

theorem names_concat_slash (bytes : List UInt8) : names ⟨bytes ++ [slash]⟩ = names ⟨bytes⟩ := by
  rw [names, names, Text.splitOn_eq_splitOnP, Text.splitOn_eq_splitOnP,
    List.splitOnP_append_cons _ _ (by simp), List.map_append, List.filter_append]
  exact List.append_nil _

/-- A path behind a folder: the folder, ended by a slash unless it is empty, has its
names and its first byte still. -/
theorem exists_join (folder : RawText) {path : RawText} (h : isAbsolute path = false) :
    ∃ bytes : List UInt8, (∀ b ∈ bytes.getLast?, b = slash) ∧ join folder path = ⟨bytes ++ path.bytes⟩ ∧
      names ⟨bytes⟩ = names folder ∧ bytes.head? = folder.bytes.head? := by
  rw [join, h]
  by_cases hdone : (folder.bytes.isEmpty || folder.bytes.getLast? == some slash) = true
  · refine ⟨folder.bytes, ?_, by simp [hdone], rfl, rfl⟩
    intro b hb
    rcases Bool.or_eq_true_iff.mp hdone with hnil | hlast
    · rw [List.isEmpty_iff.mp hnil] at hb
      cases hb
    · rw [beq_iff_eq.mp hlast] at hb
      exact (Option.mem_some_iff.mp hb).symm
  · refine ⟨folder.bytes ++ [slash], by simp, by simp [hdone], names_concat_slash _, ?_⟩
    apply List.head?_append_of_ne_nil
    intro hnil
    exact hdone (by rw [hnil]; rfl)

theorem IsEntryName.exists_cons {name : RawText} (h : IsEntryName name) :
    ∃ b bytes, name.bytes = b :: bytes ∧ b ≠ slash := by
  obtain ⟨b, bytes, hbytes⟩ :=
    List.exists_cons_of_ne_nil fun hnil => h.ne_empty (congrArg RawText.mk hnil)
  refine ⟨b, bytes, hbytes, ?_⟩
  rintro rfl
  exact h.not_mem (hbytes ▸ List.mem_cons_self)

/-- The names of entries, one below the other, make a path that goes on from a folder. -/
theorem isAbsolute_ofNames {place : List RawText} (h : ∀ name ∈ place, IsEntryName name) :
    isAbsolute (ofNames place) = false := by
  rw [isAbsolute, beq_eq_false_iff_ne, ofNames]
  cases place with
  | nil => simp
  | cons name place =>
    obtain ⟨b, bytes, hbytes, hb⟩ := (h name List.mem_cons_self).exists_cons
    cases place with
    | nil => simpa [hbytes] using hb
    | cons _ _ => simpa [hbytes] using hb

theorem extension?_join (folder : RawText) {front : List RawText} {last : RawText}
    (h : ∀ name ∈ front ++ [last], IsEntryName name) :
    extension? (join folder (ofNames (front ++ [last]))) = (cutName last).2 := by
  obtain ⟨bytes, hbytes, hjoin, -, -⟩ := exists_join folder (isAbsolute_ofNames h)
  obtain ⟨more, hmore, htext⟩ := exists_intercalate_concat (front.map RawText.bytes) last.bytes
  have hfront : ∀ b ∈ (bytes ++ more).getLast?, b = slash := by
    intro b hb
    rw [List.getLast?_append] at hb
    rcases Option.or_eq_some_iff.mp hb with hb | ⟨-, hb⟩
    · exact hmore b hb
    · exact hbytes b hb
  have hpath : join folder (ofNames (front ++ [last])) = ⟨(bytes ++ more) ++ last.bytes⟩ := by
    rw [hjoin, ofNames, List.map_append, List.append_assoc]
    exact congrArg (fun rest => RawText.mk (bytes ++ rest)) htext
  rw [extension?, hpath, fileName?_append hfront (h last (by simp)), Option.bind_some]

end NoteQuery.Path
