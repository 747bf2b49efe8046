import Mathlib.Data.List.Basic
import NoteQuery.File.RawText

/-!
# Bytes and the text they are shown by

The bytes of a text are shown by that text. Bytes that are shown without a replacement
character are those of the text they are shown by, so that only names that are no texts are
shown by the name of something else.
-/

namespace NoteQuery

set_option autoImplicit false

theorem fromUTF8?_eq_some_iff {bytes : ByteArray} {text : String} :
    String.fromUTF8? bytes = some text ↔ bytes = text.toUTF8 := by
  rw [String.fromUTF8?]
  constructor
  · intro h
    split at h
    · cases h
      rfl
    · cases h
  · rintro rfl
    exact dif_pos text.isValidUTF8

namespace RawText

instance : Std.IsLinearOrder RawText := by
  apply Std.IsLinearOrder.of_le
  case le_antisymm => exact ⟨fun a b hab hba => congrArg mk (List.le_antisymm hab hba)⟩
  case le_trans =>
    exact ⟨fun {a b c} hab hbc =>
      @List.le_trans UInt8 _ _ _ _ a.bytes b.bytes c.bytes hab hbc⟩
  case le_total => exact ⟨fun a b => List.le_total a.bytes b.bytes⟩

instance : Std.LawfulOrderLT RawText where
  lt_iff a b := by
    constructor
    · intro h
      exact ⟨List.lt_asymm h, fun hba => hba h⟩
    · intro h
      exact Decidable.not_not.mp h.2

theorem toByteArray_bytes_ofString (s : String) : (ofString s).bytes.toByteArray = s.toUTF8 := by
  rw [ofString, ← List.utf8Encode, String.utf8Encode_toList]
  rfl

theorem text?_eq_some_iff {r : RawText} {s : String} : r.text? = some s ↔ r = ofString s := by
  rw [text?, fromUTF8?_eq_some_iff, ← toByteArray_bytes_ofString, List.toByteArray_inj, RawText.mk.injEq]

theorem text?_ofString (s : String) : (ofString s).text? = some s :=
  text?_eq_some_iff.mpr rfl

theorem ofString_injective {s t : String} (h : ofString s = ofString t) : s = t :=
  Option.some.inj ((text?_ofString s).symm.trans (text?_eq_some_iff.mpr h))

/-! ### Characters at the start -/

theorem charAt?_encode_append (c : Char) (rest : List UInt8) :
    charAt? (String.utf8EncodeChar c ++ rest) = some c := by
  have hsize : (String.utf8EncodeChar c).length ≤ 4 := by
    rw [String.length_utf8EncodeChar]
    exact c.utf8Size_le_four
  rw [charAt?, List.take_append, List.take_of_length_le hsize, List.toByteArray_append,
    ByteArray.utf8DecodeChar?_utf8EncodeChar_append]

theorem exists_of_charAt?_eq_some {bytes : List UInt8} {c : Char} (h : charAt? bytes = some c) :
    ∃ rest, bytes = String.utf8EncodeChar c ++ rest := by
  obtain ⟨l, hl⟩ := ByteArray.exists_of_utf8DecodeChar?_eq_some h
  have htake : bytes.take 4 = String.utf8EncodeChar c ++ l.data.toList := by
    simpa using congrArg (fun b => b.data.toList) hl
  refine ⟨l.data.toList ++ bytes.drop 4, ?_⟩
  rw [← List.append_assoc, ← htake, List.take_append_drop]

theorem shown_eq_shown_drop (done : Nat) (bytes : List UInt8) :
    shown done bytes = shown 0 (bytes.drop done) := by
  induction bytes generalizing done with
  | nil => cases done <;> rfl
  | cons b bytes ih =>
    cases done with
    | zero => rfl
    | succ done => rw [shown, ih, List.drop_succ_cons]

theorem drop_of_cons_eq_encode_append {b : UInt8} {bytes rest : List UInt8} {c : Char}
    (h : b :: bytes = String.utf8EncodeChar c ++ rest) : bytes.drop (c.utf8Size - 1) = rest := by
  have hsize : c.utf8Size - 1 + 1 = c.utf8Size := Nat.sub_add_cancel c.utf8Size_pos
  rw [← List.drop_succ_cons (a := b), h, hsize, ← String.length_utf8EncodeChar, List.drop_left]

theorem shown_encode_append (c : Char) (rest : List UInt8) :
    shown 0 (String.utf8EncodeChar c ++ rest) = c :: shown 0 rest := by
  have hcharAt := charAt?_encode_append c rest
  cases hbytes : String.utf8EncodeChar c ++ rest with
  | nil =>
    have hlength := congrArg List.length (List.append_eq_nil_iff.mp hbytes).1
    rw [String.length_utf8EncodeChar] at hlength
    exact absurd hlength (Nat.ne_of_gt c.utf8Size_pos)
  | cons b bytes =>
    rw [hbytes] at hcharAt
    rw [shown, hcharAt]
    dsimp only
    rw [shown_eq_shown_drop, drop_of_cons_eq_encode_append hbytes.symm]

/-- Whatever is shown apart from replacement characters stands in the bytes. -/
theorem mem_of_mem_shown {c : Char} {done : Nat} {bytes : List UInt8} (h : c ∈ shown done bytes) :
    c = '\uFFFD' ∨ ∀ b ∈ String.utf8EncodeChar c, b ∈ bytes := by
  fun_induction shown done bytes with
  | case1 => cases h
  | case2 done b bytes ih => exact (ih h).imp_right fun hall b hb => List.mem_cons_of_mem _ (hall b hb)
  | case3 b bytes d hd ih =>
    rcases List.mem_cons.mp h with rfl | h
    · obtain ⟨rest, hrest⟩ := exists_of_charAt?_eq_some hd
      exact .inr fun b hb => hrest ▸ List.mem_append_left rest hb
    · exact (ih h).imp_right fun hall b hb => List.mem_cons_of_mem _ (hall b hb)
  | case4 b bytes _ ih =>
    rcases List.mem_cons.mp h with rfl | h
    · exact .inl rfl
    · exact (ih h).imp_right fun hall b hb => List.mem_cons_of_mem _ (hall b hb)

/-- Bytes that are shown without a replacement character are the UTF-8 of what is shown. -/
theorem eq_encode_of_not_mem_shown {done : Nat} {bytes : List UInt8} (h : '\uFFFD' ∉ shown done bytes) :
    bytes.drop done = (shown done bytes).flatMap String.utf8EncodeChar := by
  fun_induction shown done bytes with
  | case1 => rw [List.drop_nil, List.flatMap_nil]
  | case2 done b bytes ih => rw [List.drop_succ_cons, ih h]
  | case3 b bytes c hc ih =>
    obtain ⟨rest, hrest⟩ := exists_of_charAt?_eq_some hc
    have hbehind := ih fun hmem => h (List.mem_cons_of_mem c hmem)
    rw [drop_of_cons_eq_encode_append hrest] at hbehind
    rw [List.drop_zero, hrest, List.flatMap_cons, hbehind]
  | case4 => exact absurd List.mem_cons_self h

/-! ### Whole texts -/

theorem lossy_ofString (s : String) : (ofString s).lossy = s := by
  have hshown (cs : List Char) : shown 0 (cs.flatMap String.utf8EncodeChar) = cs := by
    induction cs with
    | nil => rfl
    | cons c cs ih => rw [List.flatMap_cons, shown_encode_append, ih]
  rw [lossy, ofString, hshown, String.ofList_toList]

theorem eq_ofString_lossy {r : RawText} (h : '\uFFFD' ∉ r.lossy.toList) : r = ofString r.lossy := by
  rw [lossy, String.toList_ofList] at h
  rw [ofString, lossy, String.toList_ofList, ← eq_encode_of_not_mem_shown h, List.drop_zero]

theorem lossy_of_text? {r : RawText} {s : String} (h : r.text? = some s) : r.lossy = s := by
  rw [text?_eq_some_iff.mp h, lossy_ofString]

/-- A name that is no text is shown by the name of something else. -/
theorem ofString_lossy_eq_iff {r : RawText} : ofString r.lossy = r ↔ r.text?.isSome := by
  rw [Option.isSome_iff_exists]
  constructor
  · exact fun h => ⟨_, text?_eq_some_iff.mpr h.symm⟩
  · rintro ⟨s, hs⟩
    rw [lossy_of_text? hs, text?_eq_some_iff.mp hs]

/-- A byte of the text that is shown, but not one of a replacement character, is one
of the bytes it is shown for. -/
theorem mem_bytes_of_mem_ofString_lossy {r : RawText} {b : UInt8} (h : b ∈ (ofString r.lossy).bytes)
    (hb : b ∉ String.utf8EncodeChar '\uFFFD') : b ∈ r.bytes := by
  rw [ofString, lossy, String.toList_ofList, List.mem_flatMap] at h
  obtain ⟨c, hc, hbc⟩ := h
  rcases mem_of_mem_shown hc with rfl | hall
  · exact absurd hbc hb
  · exact hall b hbc

end RawText

end NoteQuery
