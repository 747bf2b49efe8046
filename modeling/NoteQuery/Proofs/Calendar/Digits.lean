import NoteQuery.Calendar.Timestamp
import NoteQuery.Proofs.Number.Whole

/-!
# Numbers in dates

The readers of dates find again the numbers that dates are written with: numbers of a fixed
width, and years with their sign.
-/

namespace NoteQuery

set_option autoImplicit false

open Text

theorem Decimal.writes_ofList {ds : List Char} (hne : ds ≠ [])
    (hds : ∀ c ∈ ds, Decimal.isDigit c = true) :
    Writes (String.ofList ds) (ofDigits ds) := by
  constructor
  · rwa [String.toList_ofList]
  · rwa [String.toList_ofList]
  · rw [String.toList_ofList]

namespace Calendar

open Decimal (Writes)

variable {digits : String} {n : Nat}

theorem trimStart_digits_append (h : Writes digits n) (rest : List Char) :
    trimStart (digits.toList ++ rest) = digits.toList ++ rest :=
  trimStart_append h.ne_nil (trimStart_of_not_isBlank h.not_isBlank) rest

theorem exists_digits_eq_cons (h : Writes digits n) :
    ∃ c r, digits.toList = c :: r ∧ Decimal.isDigit c = true := by
  obtain ⟨c, r, hcr⟩ := List.exists_cons_of_ne_nil h.ne_nil
  exact ⟨c, r, hcr, h.isDigit c (hcr ▸ List.mem_cons_self)⟩

theorem toList_padded (width n : Nat) : (padded width n).toList =
    List.replicate (width - (Nat.toDigits 10 n).length) '0' ++ Nat.toDigits 10 n :=
  String.toList_ofList

theorem writes_padded (width n : Nat) : Writes (padded width n) n := by
  have hdigits : ∀ c ∈ (padded width n).toList, Decimal.isDigit c = true := by
    intro c hc
    rw [toList_padded, List.mem_append] at hc
    rcases hc with hc | hc
    · rw [List.eq_of_mem_replicate hc]
      rfl
    · exact Nat.isDigit_of_mem_toDigits (by decide) (by decide) hc
  refine ⟨?_, hdigits, ?_⟩
  · rw [toList_padded]
    exact List.append_ne_nil_of_right_ne_nil _ Nat.toDigits_ne_nil
  · have hvalue : Nat.ofDigitChars 10 (padded width n).toList 0 = n := by
      rw [toList_padded, Nat.ofDigitChars_append, Nat.ofDigitChars_replicate_zero, Nat.mul_zero,
        Nat.ofDigitChars_ten_toDigits]
    exact hvalue

theorem length_padded {width n : Nat} (hpos : 0 < width) (h : n < Nat.pow 10 width) :
    (padded width n).toList.length = width := by
  have hlength : (Nat.toDigits 10 n).length ≤ width :=
    (Nat.length_toDigits_le_iff (by decide) hpos).mpr h
  rw [toList_padded, List.length_append, List.length_replicate]
  omega

/-- Digits are read if as many as wanted are there, or if no further digit stands behind them. -/
theorem digits?_append {ds rest : List Char} {least : Nat} {most : Option Nat}
    (hds : ∀ c ∈ ds, Decimal.isDigit c = true)
    (hleast : least ≤ ds.length) (hmost : ∀ count ∈ most, ds.length ≤ count)
    (hend : some ds.length = most ∨ ∀ c ∈ rest.head?, Decimal.isDigit c = false) :
    digits? least most (ds ++ rest) = some (Decimal.ofDigits ds, rest) := by
  have hread (run : List Char) (hrun : run = ds) :
      (if run.length < least then none else some (Decimal.ofDigits run, (ds ++ rest).drop run.length)) =
        some (Decimal.ofDigits ds, rest) := by
    rw [hrun, if_neg (Nat.not_lt.mpr hleast), List.drop_left]
  cases most with
  | none => exact hread _ (takeWhile_append_of_head hds (hend.resolve_left (nomatch ·)))
  | some count =>
    refine hread _ ?_
    obtain hlength | hrest := hend
    · rw [List.takeWhile_append_of_pos hds]
      exact List.take_left' (Option.some.inj hlength)
    · rw [takeWhile_append_of_head hds hrest]
      exact List.take_of_length_le (hmost count rfl)

/-- A number that fills the width that is read does not depend on what is behind it. -/
theorem digits?_of_length {least most : Nat} (h : Writes digits n)
    (hlength : digits.toList.length = most) (hleast : least ≤ most) (rest : List Char) :
    digits? least (some most) (digits.toList ++ rest) = some (n, rest) := by
  rw [digits?_append h.isDigit (by omega) (by simp [hlength]) (.inl (congrArg some hlength)),
    h.ofDigits_eq]

theorem digits?_of_head {least : Nat} (h : Writes digits n) (hleast : least ≤ digits.toList.length)
    {rest : List Char} (hrest : ∀ c ∈ rest.head?, Decimal.isDigit c = false) :
    digits? least none (digits.toList ++ rest) = some (n, rest) := by
  rw [digits?_append h.isDigit hleast (by simp) (.inr hrest), h.ofDigits_eq]

theorem digits?_eq_none {least : Nat} {most : Option Nat} {c : Char}
    (hc : Decimal.isDigit c = false) (cs : List Char) :
    digits? (least + 1) most (c :: cs) = none := by
  have hrun : (c :: cs).takeWhile Decimal.isDigit = [] := List.takeWhile_cons_of_neg (by simp [hc])
  cases most <;> simp [digits?, hrun]

theorem fixed?_padded (count : Nat) {n : Nat} (hpos : 0 < count) (h : n < Nat.pow 10 count)
    (rest : List Char) :
    fixed? count ((padded count n).toList ++ rest) = some (n, rest) :=
  digits?_of_length (writes_padded count n) (length_padded hpos h) (Nat.le_refl count) rest

theorem within?_padded {least greatest n : Nat} (hleast : least ≤ n)
    (hgreatest : n ≤ greatest) (h : n < 100)
    (rest : List Char) : within? least greatest ((padded 2 n).toList ++ rest) = some (n, rest) := by
  have hwrites := writes_padded 2 n
  have hlength : (padded 2 n).toList.length = 2 := length_padded (by decide) h
  rw [within?, trimStart_digits_append hwrites, digits?_of_length hwrites hlength (by decide)]
  simp [hleast, hgreatest]

/-- A year has a sign, or it has four digits. -/
theorem toList_yearText (y : Int) :
    (y < 0 ∧ (yearText y).toList = '-' :: (padded 4 y.natAbs).toList) ∨
    (9999 < y ∧ (yearText y).toList = '+' :: (padded 4 y.natAbs).toList) ∨
    (0 ≤ y ∧ y.natAbs < Nat.pow 10 4 ∧ (yearText y).toList = (padded 4 y.natAbs).toList) := by
  have hpower : Nat.pow 10 4 = 10000 := rfl
  rw [yearText, hpower]
  split
  · exact .inl ⟨‹_›, by rw [String.toList_append]; rfl⟩
  · split
    · exact .inr (.inl ⟨‹_›, by rw [String.toList_append]; rfl⟩)
    · exact .inr (.inr ⟨by omega, by omega, rfl⟩)

theorem four_le_length_padded (n : Nat) : 4 ≤ (padded 4 n).toList.length := by
  rw [toList_padded, List.length_append, List.length_replicate]
  omega

theorem year?_of_isDigit {c : Char} (hc : Decimal.isDigit c = true) (cs : List Char) :
    year? (c :: cs) = (digits? 1 (some 4) (c :: cs)).map fun (n, rest) => ((n : Int), rest) := by
  rw [year?, trimStart_cons_of_neg (Decimal.not_isBlank_of_isDigit hc)]
  split
  · rename_i heq
    rw [(List.cons.inj heq).1] at hc
    cases hc
  · rename_i heq
    rw [(List.cons.inj heq).1] at hc
    cases hc
  · rfl

theorem year?_yearText (y : Int) (rest : List Char)
    (hrest : ∀ c ∈ rest.head?, Decimal.isDigit c = false) :
    year? ((yearText y).toList ++ rest) = some (y, rest) := by
  have hwrites := writes_padded 4 y.natAbs
  have hsigned := digits?_of_head hwrites
    (Nat.le_trans (by decide : 1 ≤ 4) (four_le_length_padded _)) hrest
  rcases toList_yearText y with ⟨hy, htext⟩ | ⟨hy, htext⟩ | ⟨hy, hfour, htext⟩
  · have hvalue : -(y.natAbs : Int) = y := by omega
    rw [htext, List.cons_append, year?, trimStart_cons_of_neg (by decide)]
    simp only [hsigned, Option.map_some, hvalue]
  · have hvalue : (y.natAbs : Int) = y := by omega
    rw [htext, List.cons_append, year?, trimStart_cons_of_neg (by decide)]
    simp only [hsigned, Option.map_some, hvalue]
  · have hvalue : (y.natAbs : Int) = y := by omega
    have hread := digits?_of_length hwrites (length_padded (by decide) hfour) (by decide : 1 ≤ 4) rest
    obtain ⟨c, r, hcr, hc⟩ := exists_digits_eq_cons hwrites
    rw [htext, hcr, List.cons_append, year?_of_isDigit hc, ← List.cons_append, ← hcr, hread]
    simp only [Option.map_some, hvalue]

theorem yearText_ne_nil (y : Int) : (yearText y).toList ≠ [] := by
  rcases toList_yearText y with ⟨-, htext⟩ | ⟨-, htext⟩ | ⟨-, -, htext⟩
  · exact htext ▸ List.cons_ne_nil _ _
  · exact htext ▸ List.cons_ne_nil _ _
  · exact htext ▸ (writes_padded 4 y.natAbs).ne_nil

theorem not_isBlank_of_mem_yearText {y : Int} : ∀ c ∈ (yearText y).toList, isBlank c = false := by
  have hdigits := (writes_padded 4 y.natAbs).not_isBlank
  rcases toList_yearText y with ⟨-, htext⟩ | ⟨-, htext⟩ | ⟨-, -, htext⟩
  · rw [htext]
    exact List.forall_mem_cons.mpr ⟨by decide, hdigits⟩
  · rw [htext]
    exact List.forall_mem_cons.mpr ⟨by decide, hdigits⟩
  · rwa [htext]

end Calendar

end NoteQuery
