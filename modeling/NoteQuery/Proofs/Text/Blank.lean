import Mathlib.Data.List.DropRight
import NoteQuery.Text.Blank

/-!
# Trimming and cutting

What trimming keeps of a text, and what the parts of a cut text are made of.
-/

namespace NoteQuery.Text

set_option autoImplicit false

theorem not_isBlank_of_visible {c : Char} (hlow : 33 ≤ c.toNat) (hhigh : c.toNat ≤ 126) :
    isBlank c = false := by
  rw [Bool.eq_false_iff]
  intro hblank
  simp only [isBlank, blankRanges, List.any_cons, List.any_nil, Bool.or_false,
    Bool.or_eq_true, Bool.and_eq_true, decide_eq_true_eq] at hblank
  omega

theorem dropEndWhile_isPrefix (p : Char → Bool) (cs : List Char) : dropEndWhile p cs <+: cs :=
  List.rdropWhile_prefix p cs

theorem isBlank_lineFeed : ∀ c ∈ ['\n'], isBlank c = true :=
  List.forall_mem_singleton.mpr rfl

theorem isBlank_carriageReturn_lineFeed : ∀ c ∈ ['\r', '\n'], isBlank c = true :=
  List.forall_mem_cons.mpr ⟨rfl, isBlank_lineFeed⟩

theorem exists_dropEndWhile_append (p : Char → Bool) (cs : List Char) :
    ∃ ending, (∀ c ∈ ending, p c = true) ∧ dropEndWhile p cs ++ ending = cs :=
  ⟨cs.rtakeWhile p, fun _ => List.mem_rtakeWhile_imp, List.rdropWhile_append_rtakeWhile⟩

theorem dropEndWhile_concat_of_pos {p : Char → Bool} {c : Char} (h : p c = true) (cs : List Char) :
    dropEndWhile p (cs ++ [c]) = dropEndWhile p cs :=
  List.rdropWhile_concat_pos p cs c h

theorem dropEndWhile_append_of_ne_nil {p : Char → Bool} {ys : List Char}
    (h : dropEndWhile p ys ≠ []) (xs : List Char) :
    dropEndWhile p (xs ++ ys) = xs ++ dropEndWhile p ys := by
  rw [dropEndWhile, List.reverse_append, List.dropWhile_append, if_neg, List.reverse_append,
    List.reverse_reverse]
  · rfl
  · rwa [List.isEmpty_iff, ← List.reverse_eq_nil_iff]

theorem dropEndWhile_cons_of_neg {p : Char → Bool} {c : Char} (h : p c = false) (cs : List Char) :
    dropEndWhile p (c :: cs) = c :: dropEndWhile p cs := by
  rw [dropEndWhile, dropEndWhile, List.reverse_cons, List.dropWhile_append]
  split
  · rename_i hempty
    rw [List.isEmpty_iff.mp hempty]
    simp [h]
  · simp

theorem dropEndWhile_append_of_forall {p : Char → Bool} {ys : List Char} (h : ∀ c ∈ ys, p c = true)
    (xs : List Char) :
    dropEndWhile p (xs ++ ys) = dropEndWhile p xs := by
  have hreverse : ∀ c ∈ ys.reverse, p c = true := fun c hc => h c (List.mem_reverse.mp hc)
  rw [dropEndWhile, List.reverse_append, List.dropWhile_append_of_pos hreverse, dropEndWhile]

theorem trimEnd_append_of_isBlank {ys : List Char} (h : ∀ c ∈ ys, isBlank c = true) (xs : List Char) :
    trimEnd (xs ++ ys) = trimEnd xs :=
  dropEndWhile_append_of_forall h xs

theorem trim_append_of_isBlank {ys : List Char} (h : ∀ c ∈ ys, isBlank c = true) (xs : List Char) :
    trim (xs ++ ys) = trim xs := by
  rw [trim, trim, trimStart, trimStart, List.dropWhile_append]
  split
  · rename_i hxs
    rw [List.isEmpty_iff.mp hxs, List.dropWhile_eq_nil_iff.mpr h]
  · exact trimEnd_append_of_isBlank h _

theorem trimStart_trimStart (cs : List Char) : trimStart (trimStart cs) = trimStart cs :=
  List.dropWhile_idempotent isBlank cs

theorem trim_trimStart (cs : List Char) : trim (trimStart cs) = trim cs :=
  congrArg trimEnd (trimStart_trimStart cs)

theorem trimEnd_append {ys : List Char} (hne : ys ≠ []) (h : trimEnd ys = ys) (xs : List Char) :
    trimEnd (xs ++ ys) = xs ++ ys := by
  rw [trimEnd] at h ⊢
  rw [dropEndWhile_append_of_ne_nil (by rwa [h]), h]

theorem trimEnd_of_append {xs ys : List Char} (h : trimEnd (xs ++ ys) = xs ++ ys) : trimEnd ys = ys := by
  obtain ⟨ending, hending, hys⟩ := exists_dropEndWhile_append isBlank ys
  have hprefix : trimEnd (xs ++ trimEnd ys) <+: xs ++ trimEnd ys := dropEndWhile_isPrefix isBlank _
  have hsame : trimEnd (xs ++ trimEnd ys) = xs ++ ys := by
    rw [← h, ← trimEnd_append_of_isBlank hending, List.append_assoc]
    exact congrArg (fun zs => trimEnd (xs ++ zs)) hys
  have hlength := hprefix.length_le
  rw [hsame, List.length_append, List.length_append] at hlength
  exact (dropEndWhile_isPrefix isBlank ys).eq_of_length_le (Nat.le_of_add_le_add_left hlength)

theorem trimStart_cons_of_neg {c : Char} (h : isBlank c = false) (cs : List Char) :
    trimStart (c :: cs) = c :: cs :=
  List.dropWhile_cons_of_neg (Bool.not_eq_true _ ▸ h)

theorem trimStart_of_head {cs : List Char} (h : ∀ c ∈ cs.head?, isBlank c = false) :
    trimStart cs = cs := by
  cases cs with
  | nil => rfl
  | cons c cs => exact trimStart_cons_of_neg (h c rfl) cs

theorem trimStart_cons_of_pos {c : Char} (h : isBlank c = true) (cs : List Char) :
    trimStart (c :: cs) = trimStart cs :=
  List.dropWhile_cons_of_pos h

theorem trimStart_append {xs : List Char} (hne : xs ≠ []) (h : trimStart xs = xs) (ys : List Char) :
    trimStart (xs ++ ys) = xs ++ ys := by
  rw [trimStart, List.dropWhile_append, ← trimStart, h, if_neg (by rwa [List.isEmpty_iff])]

theorem trim_cons_of_pos {c : Char} (h : isBlank c = true) (cs : List Char) :
    trim (c :: cs) = trim cs := by
  rw [trim, trim, trimStart_cons_of_pos h]

theorem trim_cons_of_neg {c : Char} (h : isBlank c = false) (cs : List Char) :
    trim (c :: cs) = c :: trimEnd cs := by
  rw [trim, trimStart_cons_of_neg h, trimEnd, dropEndWhile_cons_of_neg h, trimEnd]

theorem trimEnd_of_not_isBlank {cs : List Char} (h : ∀ c ∈ cs, isBlank c = false) : trimEnd cs = cs := by
  induction cs with
  | nil => rfl
  | cons c cs ih =>
    have hrest : trimEnd cs = cs := ih fun d hd => h d (List.mem_cons_of_mem c hd)
    rw [trimEnd] at hrest ⊢
    rw [dropEndWhile_cons_of_neg (h c List.mem_cons_self), hrest]

theorem trim_of_not_isBlank {cs : List Char} (h : ∀ c ∈ cs, isBlank c = false) : trim cs = cs := by
  cases cs with
  | nil => rfl
  | cons c cs =>
    rw [trim_cons_of_neg (h c List.mem_cons_self), trimEnd_of_not_isBlank fun d hd =>
      h d (List.mem_cons_of_mem c hd)]

/-- A text without blanks around it has none at its start and none at its end. -/
theorem trim_eq_self_iff {cs : List Char} : trim cs = cs ↔ trimStart cs = cs ∧ trimEnd cs = cs := by
  constructor
  · intro h
    have hlength : cs.length ≤ (trimStart cs).length := by
      conv_lhs => rw [← h]
      exact (dropEndWhile_isPrefix isBlank (trimStart cs)).length_le
    have hstart : trimStart cs = cs := (List.dropWhile_suffix isBlank).eq_of_length_le hlength
    rw [trim, hstart] at h
    exact ⟨hstart, h⟩
  · rintro ⟨hstart, hend⟩
    rw [trim, hstart, hend]

theorem trimStart_of_not_isBlank {cs : List Char} (h : ∀ c ∈ cs, isBlank c = false) :
    trimStart cs = cs :=
  (trim_eq_self_iff.mp (trim_of_not_isBlank h)).1

theorem trim_trim (cs : List Char) : trim (trim cs) = trim cs := by
  refine trim_eq_self_iff.mpr ⟨?_, List.rdropWhile_idempotent isBlank (trimStart cs)⟩
  have hhead := List.head?_dropWhile_not isBlank cs
  rw [← trimStart] at hhead
  rw [trim]
  cases hstart : trimStart cs with
  | nil => rfl
  | cons c rest =>
    rw [hstart] at hhead
    rw [trimEnd, dropEndWhile_cons_of_neg hhead, trimStart_cons_of_neg hhead]

theorem exists_trim_append (cs : List Char) : ∃ before behind, (∀ c ∈ before, isBlank c = true) ∧
    (∀ c ∈ behind, isBlank c = true) ∧ before ++ (trim cs ++ behind) = cs := by
  obtain ⟨behind, hbehind, hend⟩ := exists_dropEndWhile_append isBlank (trimStart cs)
  refine ⟨cs.takeWhile isBlank, behind, fun _ => List.mem_takeWhile_imp, hbehind, ?_⟩
  rw [trim, trimEnd, hend, trimStart, List.takeWhile_append_dropWhile]

theorem trim_blank_append {before behind : List Char} (hbefore : ∀ c ∈ before, isBlank c = true)
    (hbehind : ∀ c ∈ behind, isBlank c = true) (cs : List Char) :
    trim (before ++ (cs ++ behind)) = trim cs := by
  rw [trim, trimStart, List.dropWhile_append_of_pos hbefore]
  exact trim_append_of_isBlank hbehind cs

theorem mem_trim_of_mem {c : Char} {cs : List Char} (hc : isBlank c = false) (h : c ∈ cs) :
    c ∈ trim cs := by
  obtain ⟨before, behind, hbefore, hbehind, hcs⟩ := exists_trim_append cs
  rw [← hcs, List.mem_append, List.mem_append] at h
  obtain h | h | h := h
  · rw [hbefore c h] at hc
    cases hc
  · exact h
  · rw [hbehind c h] at hc
    cases hc

theorem mem_of_mem_trim {c : Char} {cs : List Char} (h : c ∈ trim cs) : c ∈ cs :=
  (List.dropWhile_sublist _).subset ((dropEndWhile_isPrefix isBlank (trimStart cs)).subset h)

theorem after?_eq_none_iff {ps cs : List Char} : after? ps cs = none ↔ ¬ps <+: cs := by
  rw [← Option.not_isSome_iff_eq_none, Option.isSome_iff_exists]
  simp only [after?_eq_some_iff, List.IsPrefix, eq_comm (a := cs)]

theorem takeWhile_append_of_head {p : Char → Bool} {ds rest : List Char} (hds : ∀ c ∈ ds, p c = true)
    (hrest : ∀ c ∈ rest.head?, p c = false) : (ds ++ rest).takeWhile p = ds := by
  rw [List.takeWhile_append_of_pos hds]
  cases rest with
  | nil => simp
  | cons c r => simp [hrest c rfl]

theorem dropWhile_append_of_head {p : Char → Bool} {ds rest : List Char} (hds : ∀ c ∈ ds, p c = true)
    (hrest : ∀ c ∈ rest.head?, p c = false) : (ds ++ rest).dropWhile p = rest := by
  rw [List.dropWhile_append_of_pos hds]
  cases rest with
  | nil => simp
  | cons c r => simp [hrest c rfl]

theorem bne_of_not_mem {c : Char} {cs : List Char} (h : c ∉ cs) : ∀ d ∈ cs, (d != c) = true := by
  intro d hd
  rw [bne_iff_ne]
  rintro rfl
  exact h hd

theorem takeWhile_ne_append {c : Char} {cs : List Char} (h : c ∉ cs) (rest : List Char) :
    (cs ++ c :: rest).takeWhile (· != c) = cs := by
  exact takeWhile_append_of_head (bne_of_not_mem h) (by simp)

theorem cutAt?_of_not_mem {c : Char} {cs : List Char} (h : c ∉ cs) : cutAt? c cs = none := by
  rw [cutAt?, List.dropWhile_eq_nil_iff.mpr (bne_of_not_mem h)]

theorem cutAt?_append {c : Char} {cs : List Char} (h : c ∉ cs) (rest : List Char) :
    cutAt? c (cs ++ c :: rest) = some (cs, rest) := by
  rw [cutAt?, takeWhile_ne_append h, List.dropWhile_append_of_pos (bne_of_not_mem h)]
  simp

theorem cutAt?_eq_some {c : Char} {cs before behind : List Char}
    (h : cutAt? c cs = some (before, behind)) :
    cs = before ++ c :: behind ∧ c ∉ before := by
  rw [cutAt?] at h
  have hsplit := List.takeWhile_append_dropWhile (p := (· != c)) (l := cs)
  have hhead := List.head?_dropWhile_not (· != c) cs
  split at h
  · cases h
  · rename_i d rest hdrop
    cases h
    rw [hdrop] at hsplit hhead
    have hd : d = c := by simpa using hhead
    rw [hd] at hsplit
    refine ⟨hsplit.symm, fun hmem => ?_⟩
    simpa using List.mem_takeWhile_imp hmem

theorem exists_cutAt?_of_mem {c : Char} {cs : List Char} (h : c ∈ cs) :
    ∃ parts, cutAt? c cs = some parts := by
  obtain ⟨before, behind, rfl, hbefore⟩ := List.eq_append_cons_of_mem h
  exact ⟨_, cutAt?_append hbefore behind⟩

theorem splitOn_eq_splitOnP {α : Type} (p : α → Bool) (xs : List α) : splitOn p xs = xs.splitOnP p := by
  induction xs with
  | nil => rfl
  | cons x xs ih =>
    rw [splitOn, List.splitOnP_cons_eq_if_modifyHead, ih]
    split
    · rfl
    · split <;> simp_all

/-- The parts of a text hold its characters, without those that separate them. -/
theorem mem_of_mem_splitOn {p : Char → Bool} {c : Char} {part cs : List Char}
    (hpart : part ∈ splitOn p cs) (hc : c ∈ part) : c ∈ cs ∧ p c = false := by
  induction cs generalizing part with
  | nil =>
    rw [splitOn, List.mem_singleton] at hpart
    rw [hpart] at hc
    cases hc
  | cons d cs ih =>
    rw [splitOn] at hpart
    split at hpart
    · rcases List.mem_cons.mp hpart with rfl | hpart
      · cases hc
      · exact (ih hpart hc).imp_left (List.mem_cons_of_mem d)
    · rename_i hd
      have hself : c = d → c ∈ d :: cs ∧ p c = false := by
        rintro rfl
        exact ⟨List.mem_cons_self, Bool.not_eq_true _ ▸ hd⟩
      split at hpart
      · obtain rfl := List.mem_singleton.mp hpart
        exact hself (List.mem_singleton.mp hc)
      · rename_i first rest hsplit
        rw [hsplit] at ih
        rcases List.mem_cons.mp hpart with rfl | hpart
        · rcases List.mem_cons.mp hc with hc | hc
          · exact hself hc
          · exact (ih List.mem_cons_self hc).imp_left (List.mem_cons_of_mem d)
        · exact (ih (List.mem_cons_of_mem _ hpart) hc).imp_left (List.mem_cons_of_mem d)

end NoteQuery.Text
