import NoteQuery.Proofs.Number.Natural
import NoteQuery.Proofs.Value.NumberText

/-!
# The text of a whole number

A small whole number is written with its own digits: the shortest decimal that reads back as the
number has no place behind the point, and none but the number itself reads back.
-/

namespace NoteQuery

set_option autoImplicit false

namespace Decimal

/-- Whether the decimal is a natural number, written without places behind the point. -/
def Whole (d : Decimal) (n : Nat) : Prop := ∃ k : Nat, d.exponent = k ∧ d.digits * Nat.pow 10 k = n

variable {d : Decimal} {n : Nat}

theorem toDigits_ten_mul (h : n ≠ 0) : Nat.toDigits 10 (10 * n) = Nat.toDigits 10 n ++ ['0'] := by
  rw [Nat.toDigits_of_base_le (by decide) (by omega)]
  simp

theorem toDigits_mul_pow_ten (h : n ≠ 0) (k : Nat) :
    Nat.toDigits 10 (n * Nat.pow 10 k) = Nat.toDigits 10 n ++ List.replicate k '0' := by
  induction k with
  | zero =>
    have hone : n * Nat.pow 10 0 = n := Nat.mul_one n
    rw [hone, List.replicate_zero, List.append_nil]
  | succ k ih =>
    have hne : n * Nat.pow 10 k ≠ 0 := Nat.mul_ne_zero h (Nat.ne_of_gt (Nat.pow_pos (by decide)))
    rw [pow_ten_succ, Nat.mul_left_comm, toDigits_ten_mul hne, ih, List.append_assoc,
      ← List.replicate_succ']

theorem Whole.digits_ne_zero (h : d.Whole n) (hn : n ≠ 0) : d.digits ≠ 0 := by
  obtain ⟨k, -, rfl⟩ := h
  exact fun hzero => hn (by rw [hzero, Nat.zero_mul])

theorem Whole.dropZeros (h : d.Whole n) (count : Nat) : (d.dropZeros count).Whole n := by
  induction count generalizing d with
  | zero => exact h
  | succ count ih =>
    rw [Decimal.dropZeros]
    split
    · rename_i hmod
      obtain ⟨k, hk, hvalue⟩ := h
      have hdigits : 10 * (d.digits / 10) = d.digits := by omega
      refine ih ⟨k + 1, by simp [hk], ?_⟩
      rw [pow_ten_succ, ← Nat.mul_assoc, Nat.mul_comm _ 10, hdigits, hvalue]
    · exact h

theorem Whole.toDigits_eq (h : d.Whole n) (hn : n ≠ 0) :
    Nat.toDigits 10 n = Nat.toDigits 10 d.digits ++ List.replicate d.exponent.toNat '0' := by
  have hdigits := h.digits_ne_zero hn
  obtain ⟨k, hk, rfl⟩ := h
  rw [toDigits_mul_pow_ten hdigits, hk, Int.toNat_natCast]

/-- The greatest leading exponent of the plain form is 20. -/
theorem Whole.text_eq (h : d.Whole n) (hn : n ≠ 0) (hlimit : n < Nat.pow 10 21) :
    d.text numberStyle = Nat.toDigits 10 n := by
  have hdigits := h.toDigits_eq hn
  have hlength : (Nat.toDigits 10 n).length ≤ 21 :=
    (Nat.length_toDigits_le_iff (by decide) (by decide)).mpr hlimit
  have hpos : 0 < (Nat.toDigits 10 d.digits).length := List.length_pos_of_ne_nil Nat.toDigits_ne_nil
  obtain ⟨k, hk, -⟩ := h
  rw [hdigits, List.length_append, List.length_replicate] at hlength
  have hplain : numberStyle.least ≤ d.exponent + (Nat.toDigits 10 d.digits).length - 1 ∧
      d.exponent + (Nat.toDigits 10 d.digits).length - 1 ≤ numberStyle.greatest := by
    simp only [numberStyle]
    omega
  have hwhole : 0 ≤ d.exponent := by omega
  simp only [text]
  rw [if_pos hplain, plainText, if_pos hwhole, hdigits]
  simp [numberStyle]

end Decimal

/-- The first number of a range that has a result is not behind any other one that has a result. -/
theorem exists_le_of_findSome?_range' {α : Type} {f : Nat → Option α} {start length i : Nat} {a : α}
    (h : (List.range' start length).findSome? f = some a) (hi : i ∈ List.range' start length)
    (hf : f i ≠ none) :
    ∃ j ≤ i, f j = some a := by
  obtain ⟨before, j, behind, hrange, hj, hbefore⟩ := List.findSome?_eq_some_iff.mp h
  refine ⟨j, ?_, hj⟩
  have hsorted := List.pairwise_lt_range' (s := start) (n := length) 1
  rw [hrange, List.mem_append, List.mem_cons] at hi
  rw [hrange, List.pairwise_append, List.pairwise_cons] at hsorted
  obtain hi | rfl | hi := hi
  · exact absurd (hbefore i hi) hf
  · exact Nat.le_refl i
  · exact Nat.le_of_lt (hsorted.2.1.1 i hi)

namespace Magnitude

variable {m : Magnitude} {n : Nat}

theorem units_eq_zero_iff : m.units = 0 ↔ m.place = 0 := by
  constructor
  · intro h
    have hnearest := m.nearest?_units
    rw [h, nearest?_zero] at hnearest
    rw [← Option.some.inj hnearest]
    rfl
  · intro h
    rw [units, significand, h, Nat.zero_sub, Nat.zero_mul]

theorem leadingExponent_of_units (h : m.units = n * one) (hn : n ≠ 0) :
    m.leadingExponent = (Nat.toDigits 10 n).length - 1 := by
  have hlength (k : Nat) : (Nat.toDigits 10 (m.units * Nat.pow 10 k / one)).length =
    (Nat.toDigits 10 n).length + k := by
    rw [h, Nat.mul_right_comm, Nat.mul_div_cancel _ one_pos, Decimal.toDigits_mul_pow_ten hn,
      List.length_append, List.length_replicate]
  obtain ⟨k, hk, hleading⟩ : ∃ k : Nat, k = 324 ∧
      m.leadingExponent = (Nat.toDigits 10 (m.units * Nat.pow 10 k / one)).length - 325 := by
    unfold leadingExponent
    generalize 324 = k
    exact ⟨k, rfl, rfl⟩
  rw [hleading, hlength]
  omega

/-- With as many digits as it has, a natural number is found. -/
theorem withDigits?_of_units (tie : Tie) (h : m.units = n * one) (hn : n ≠ 0) :
    m.withDigits? tie (Nat.toDigits 10 n).length = some ⟨n, 0⟩ := by
  have hexponent : m.leadingExponent - (((Nat.toDigits 10 n).length : Int) - 1) = 0 := by
    rw [leadingExponent_of_units h hn]
    omega
  have hunit (k : Nat) : k * Nat.pow 10 (0 : Int).natAbs = k := Nat.mul_one k
  have hratio : m.asMultipleOf 0 = (n * one, one) := by
    rw [asMultipleOf, if_neg (Int.lt_irrefl 0), hunit, h]
  have hreads : Decimal.magnitude? ⟨n, 0⟩ = some m := by
    rw [Decimal.magnitude?_natural, ← h, nearest?_units]
  have hpos : 0 < one := one_pos
  simp only [withDigits?, hexponent, hratio, around?, Nat.mul_div_cancel n one_pos,
    Nat.mul_mod_left, hreads]
  simp [hpos]

theorem exponent_around? {tie : Tie} {e : Int} {num den : Nat} {d : Decimal}
    (h : m.around? tie e num den = some d) :
    d.exponent = e := by
  simp only [around?] at h
  split at h
  · rw [← Option.some.inj h]
  · split at h
    · rw [← Option.some.inj h]
    · cases h

theorem exponent_withDigits? {tie : Tie} {count : Nat} {d : Decimal}
    (h : m.withDigits? tie count = some d) :
    d.exponent = m.leadingExponent - (count - 1) := by
  unfold withDigits? at h
  exact exponent_around? h

/-- A natural number that reads back as a magnitude below 2^52 is that number. -/
theorem whole_of_magnitude? {d : Decimal} (h : m.units = n * one) (hlimit : n < octave)
    (hexponent : 0 ≤ d.exponent) (hreads : d.magnitude? = some m) : d.Whole n := by
  obtain ⟨digits, exponent⟩ := d
  obtain ⟨k, rfl⟩ := Int.eq_ofNat_of_zero_le hexponent
  refine ⟨k, rfl, ?_⟩
  have hnatural := Decimal.magnitude?_mul_pow_ten digits k 0
  rw [Int.zero_add, hreads, Decimal.magnitude?_natural] at hnatural
  apply Binary64.eq_of_toNat?_ofNat hlimit
  rw [Binary64.ofNat_eq_of_nearest? hnatural]
  exact Binary64.toNat?_of_units h

theorem whole_shortest (tie : Tie) (h : m.units = n * one) (hn : n ≠ 0) (hlimit : n < octave) :
    (m.shortest tie).Whole n := by
  have hlength : (Nat.toDigits 10 n).length ≤ 17 :=
    (Nat.length_toDigits_le_iff (by decide) (by decide)).mpr (Nat.lt_trans hlimit (by decide))
  have hpos : 0 < (Nat.toDigits 10 n).length := List.length_pos_of_ne_nil Nat.toDigits_ne_nil
  rw [shortest]
  apply Decimal.Whole.dropZeros
  cases hfound : (List.range' 1 17).findSome? (m.withDigits? tie) with
  | none =>
    have hnone := List.findSome?_eq_none_iff.mp hfound _ (List.mem_range'_1.mpr ⟨hpos, by omega⟩)
    rw [withDigits?_of_units tie h hn] at hnone
    cases hnone
  | some d =>
    obtain ⟨count, hcount, hd⟩ :=
      exists_le_of_findSome?_range' hfound (List.mem_range'_1.mpr ⟨hpos, by omega⟩)
      (Option.ne_none_iff_exists'.mpr ⟨_, withDigits?_of_units tie h hn⟩)
    rw [Option.getD_some]
    refine whole_of_magnitude? h hlimit ?_ (magnitude?_withDigits? hd)
    rw [exponent_withDigits? hd, leadingExponent_of_units h hn]
    omega

end Magnitude

namespace Binary64

open Magnitude (one octave)

variable {x : Binary64} {n : Nat}

theorem exists_finite_of_toNat? (h : x.toNat? = some n) :
    ∃ negative m, x = finite negative m ∧ m.units = n * one ∧ (negative = true → m.place = 0) := by
  cases x with
  | nan => cases h
  | infinity negative => cases h
  | finite negative m =>
    rw [toNat?] at h
    split at h
    · cases h
    · rename_i hwhole
      rw [Bool.not_eq_true, Bool.or_eq_false_iff, bne_eq_false_iff_eq] at hwhole
      obtain ⟨hsign, hmod⟩ := hwhole
      refine ⟨negative, m, rfl, ?_, ?_⟩
      · rw [← Option.some.inj h, Nat.div_mul_cancel (Nat.dvd_of_mod_eq_zero hmod)]
      · rintro rfl
        simpa using hsign

/-- A whole number below 2^52 is written with its digits; this holds for both zeros. -/
theorem chars_of_toNat? (h : x.toNat? = some n) (hlimit : n < octave) : x.chars = Nat.toDigits 10 n := by
  obtain ⟨negative, m, rfl, hunits, hsign⟩ := exists_finite_of_toNat? h
  by_cases hplace : m.place = 0
  · have hn : n = 0 := by
      rw [Magnitude.units_eq_zero_iff.mpr hplace] at hunits
      exact (Nat.mul_eq_zero.mp hunits.symm).resolve_right (Nat.ne_of_gt Magnitude.one_pos)
    rw [chars, if_pos hplace, hn]
    rfl
  · have hn : n ≠ 0 := by
      rintro rfl
      rw [Nat.zero_mul] at hunits
      exact hplace (Magnitude.units_eq_zero_iff.mp hunits)
    have hpositive : negative = false := Bool.eq_false_iff.mpr (mt hsign hplace)
    rw [chars, if_neg hplace, hpositive]
    have hlimit' : n < Nat.pow 10 21 := Nat.lt_trans hlimit (by decide)
    rw [if_neg Bool.false_ne_true, (Magnitude.whole_shortest _ hunits hn hlimit).text_eq hn hlimit']

end Binary64

end NoteQuery
