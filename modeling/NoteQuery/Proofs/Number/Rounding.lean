import NoteQuery.Proofs.Number.Whole

/-!
# Rounding decimals

Which number a decimal is rounded to depends on its value only, not on the zeros at the end of its
digits. Every magnitude is rounded to itself, so the shortest decimal of a magnitude is rounded to it.
-/

namespace NoteQuery

set_option autoImplicit false

namespace Magnitude

theorem roundQuotient_mul_left {k : Nat} (hk : 0 < k) (num den : Nat) :
    roundQuotient (k * num) (k * den) = roundQuotient num den := by
  have hlt : k * den < 2 * (k * (num % den)) ↔ den < 2 * (num % den) := by
    rw [Nat.mul_left_comm, Nat.mul_lt_mul_left hk]
  have heq : 2 * (k * (num % den)) = k * den ↔ 2 * (num % den) = den := by
    rw [Nat.mul_left_comm, Nat.mul_right_inj (Nat.ne_of_gt hk)]
  simp only [roundQuotient, Nat.mul_div_mul_left _ _ hk, Nat.mul_mod_mul_left, hlt, heq]

theorem nearest?_mul_left {k : Nat} (hk : 0 < k) (num den : Nat) :
    nearest? (k * num) (k * den) = nearest? num den := by
  simp only [nearest?, Nat.mul_div_mul_left _ _ hk, Nat.mul_assoc, roundQuotient_mul_left hk]

theorem nearest?_eq_none {num den : Nat} (h : 2099 ≤ (num / den).log2) : nearest? num den = none := by
  have hshift : 2047 ≤ (num / den).log2 - 52 := by omega
  have hplace : count ≤ ((num / den).log2 - 52) * octave := Nat.mul_le_mul_right octave hshift
  rw [nearest?]
  exact dif_neg (by omega)

theorem eq_of_place_eq {m k : Magnitude} (h : m.place = k.place) : m = k := by
  cases m
  cases k
  cases h
  rfl

theorem place_eq (m : Magnitude) : m.place = m.shift * octave + m.significand := by
  have hle : m.shift * octave ≤ m.place :=
    Nat.le_trans (Nat.mul_le_mul_right octave (Nat.sub_le _ _)) (Nat.div_mul_le_self _ _)
  rw [significand]
  omega

/-- A significand fills its octave, unless it belongs to the magnitudes below all octaves. -/
theorem significand_lt_and (m : Magnitude) :
    m.significand < 2 * octave ∧ (m.shift = 0 ∨ octave ≤ m.significand) := by
  have hdiv := Nat.div_add_mod' m.place octave
  have hmod := Nat.mod_lt m.place octave_pos
  have hplace := m.place_eq
  rw [shift] at hplace ⊢
  cases hoctave : m.place / octave with
  | zero =>
    rw [hoctave, Nat.zero_mul] at hdiv
    rw [hoctave, Nat.zero_sub, Nat.zero_mul] at hplace
    omega
  | succ s =>
    rw [hoctave, Nat.succ_mul] at hdiv
    rw [hoctave, Nat.add_sub_cancel] at hplace
    omega

theorem log2_units (m : Magnitude) : m.units.log2 - 52 = m.shift := by
  obtain ⟨hlt, hshift⟩ := m.significand_lt_and
  rw [units]
  rcases hshift with hzero | hle
  · rw [hzero]
    change (m.significand * 1).log2 - 52 = 0
    rw [Nat.mul_one]
    by_cases hsignificand : m.significand = 0
    · rw [hsignificand]
      rfl
    · have hlog : m.significand.log2 < 53 := (Nat.log2_lt hsignificand).mpr hlt
      omega
  · have hpos : m.significand * Nat.pow 2 m.shift ≠ 0 :=
      Nat.mul_ne_zero (by have := octave_pos; omega) (Nat.ne_of_gt (pow_pos _))
    have hlog : (m.significand * Nat.pow 2 m.shift).log2 = 52 + m.shift := by
      refine (Nat.log2_eq_iff hpos).mpr ⟨?_, ?_⟩
      · change Nat.pow 2 (52 + m.shift) ≤ _
        rw [pow_add]
        exact Nat.mul_le_mul_right _ hle
      · change _ < Nat.pow 2 (52 + m.shift + 1)
        rw [Nat.add_right_comm, pow_add]
        exact Nat.mul_lt_mul_of_pos_right hlt (pow_pos _)
    omega

theorem nearest?_units (m : Magnitude) : nearest? m.units 1 = some m := by
  have hround : roundQuotient m.units (1 * Nat.pow 2 m.shift) = m.significand := by
    rw [Nat.one_mul, units, roundQuotient_mul _ (pow_pos _)]
  simp only [nearest?, Nat.div_one, log2_units, hround, ← place_eq]
  exact dif_pos m.place_lt

end Magnitude

namespace Decimal

open Magnitude (one)

theorem length_toDigits_ten_mul {n : Nat} (h : n ≠ 0) :
    (Nat.toDigits 10 (10 * n)).length = (Nat.toDigits 10 n).length + 1 := by
  rw [Nat.toDigits_of_base_le (by decide) (by omega)]
  simp

theorem magnitude?_zero (e : Int) : magnitude? ⟨0, e⟩ = some Magnitude.zero := if_pos rfl

theorem pow_ten_succ (k : Nat) : Nat.pow 10 (k + 1) = 10 * Nat.pow 10 k := Nat.mul_comm _ 10

theorem nearest?_past_all {n k : Nat} (h : n ≠ 0) (hk : k = 309) :
    Magnitude.nearest? (10 * n * Nat.pow 10 k * one) 1 = none := by
  have hpast : ∀ j, j = 309 → Nat.pow 2 2099 ≤ 10 * Nat.pow 10 j * one := by
    rintro j rfl
    decide +kernel
  replace hpast := hpast k hk
  apply Magnitude.nearest?_eq_none
  generalize 2099 = limit at hpast ⊢
  have hle : Nat.pow 2 limit ≤ 10 * n * Nat.pow 10 k * one :=
    Nat.le_trans hpast (Nat.mul_le_mul_right one (Nat.mul_le_mul_right _ (by omega)))
  have hpos : 10 * n * Nat.pow 10 k * one ≠ 0 :=
    Nat.ne_of_gt (Nat.lt_of_lt_of_le (Magnitude.pow_pos limit) hle)
  rw [Nat.div_one]
  exact (Nat.le_log2 hpos).mpr hle

/-- A zero at the end of the digits counts as a power of ten. -/
theorem magnitude?_ten_mul (n : Nat) (e : Int) : magnitude? ⟨10 * n, e⟩ = magnitude? ⟨n, e + 1⟩ := by
  by_cases hzero : n = 0
  · rw [hzero, Nat.mul_zero, magnitude?_zero, magnitude?_zero]
  have hten : 10 * n ≠ 0 := by omega
  simp only [magnitude?]
  rw [if_neg hten, if_neg hzero, length_toDigits_ten_mul hzero]
  generalize (Nat.toDigits 10 n).length = len
  -- The two exponents are on different sides of a limit only where `e` is 309, 0 or -1;
  -- elsewhere both take the same branch.
  rcases Int.lt_trichotomy e 309 with hlt | heq | hgt
  · rw [if_neg (show ¬309 < e by omega), if_neg (show ¬309 < e + 1 by omega)]
    by_cases hlow : e < -326 - ((len + 1 : Nat) : Int)
    · rw [if_pos hlow, if_pos (by omega)]
    · rw [if_neg hlow, if_neg (show ¬e + 1 < -326 - (len : Int) by omega)]
      rcases Int.lt_trichotomy e (-1) with hneg | heq | hpos
      · have hpower : e.natAbs = (e + 1).natAbs + 1 := by omega
        rw [if_pos (by omega), if_pos (by omega), hpower, pow_ten_succ, Nat.mul_assoc,
          Magnitude.nearest?_mul_left (by decide)]
      · have hsmall : e.natAbs = 0 + 1 := by omega
        have hwhole : (e + 1).natAbs = 0 := by omega
        have hone : n * Nat.pow 10 0 = n := Nat.mul_one n
        rw [if_pos (by omega), if_neg (by omega), hsmall, hwhole, hone, pow_ten_succ, Nat.mul_assoc,
          Magnitude.nearest?_mul_left (by decide)]
      · have hpower : (e + 1).natAbs = e.natAbs + 1 := by omega
        rw [if_neg (by omega), if_neg (by omega), hpower, pow_ten_succ,
          Nat.mul_comm 10 n, Nat.mul_assoc n 10]
  · rw [if_neg (show ¬309 < e by omega), if_pos (show 309 < e + 1 by omega),
      if_neg (by omega), if_neg (by omega)]
    exact nearest?_past_all hzero (by omega)
  · rw [if_pos hgt, if_pos (by omega)]

theorem magnitude?_mul_pow_ten (n k : Nat) (e : Int) :
    magnitude? ⟨n * Nat.pow 10 k, e⟩ = magnitude? ⟨n, e + k⟩ := by
  induction k generalizing e with
  | zero =>
    have hone : n * Nat.pow 10 0 = n := Nat.mul_one n
    rw [hone]
    simp
  | succ k ih =>
    have hcast : e + ((k + 1 : Nat) : Int) = e + 1 + k := by omega
    rw [pow_ten_succ, Nat.mul_left_comm, magnitude?_ten_mul, ih, hcast]

theorem magnitude?_dropZeros (k : Nat) (d : Decimal) : (d.dropZeros k).magnitude? = d.magnitude? := by
  induction k generalizing d with
  | zero => rfl
  | succ k ih =>
    rw [dropZeros]
    split
    · rename_i hmod
      have hdigits : 10 * (d.digits / 10) = d.digits := by omega
      rw [ih, ← magnitude?_ten_mul, hdigits]
    · rfl

theorem magnitude?_normalize (d : Decimal) : d.normalize.magnitude? = d.magnitude? :=
  magnitude?_dropZeros _ d

end Decimal

namespace Magnitude

open Decimal (magnitude?_zero)

/-- A magnitude has more digits than a decimal that counts as zero for its exponent. -/
theorem lt_length_toDigits_exact {u k : Nat} (h : u ≠ 0) (hk : k = 1074) :
    748 < (Nat.toDigits 10 (u * Nat.pow 5 k)).length := by
  have hpower : ∀ j, j = 1074 → Nat.pow 10 748 ≤ Nat.pow 5 j := by
    rintro j rfl
    decide +kernel
  replace hpower := hpower k hk
  have hpos : 0 < 748 := by decide
  generalize 748 = limit at hpower hpos ⊢
  rw [← Nat.not_le, Nat.length_toDigits_le_iff (by decide) hpos, Nat.not_lt]
  exact Nat.le_trans hpower (Nat.le_mul_of_pos_left _ (Nat.pos_of_ne_zero h))

theorem nearest?_mul_pow_five (u k : Nat) :
    nearest? (u * Nat.pow 5 k * Nat.pow 2 k) (Nat.pow 10 k) = nearest? u 1 := by
  have hten : Nat.pow 10 k = Nat.pow 5 k * Nat.pow 2 k * 1 := by
    rw [Nat.mul_one]
    exact Nat.mul_pow 5 2 k
  have hpos : 0 < Nat.pow 5 k * Nat.pow 2 k := Nat.mul_pos (Nat.pow_pos (by decide)) (pow_pos k)
  rw [hten, Nat.mul_assoc, Nat.mul_comm u, nearest?_mul_left hpos]

/-- Written digit for digit, a magnitude is not rounded. -/
theorem magnitude?_exactDecimal (m : Magnitude) : m.exactDecimal.magnitude? = some m := by
  obtain ⟨k, hk, hone, hexact⟩ : ∃ k : Nat, k = 1074 ∧ one = Nat.pow 2 k ∧
      m.exactDecimal = ⟨m.units * Nat.pow 5 k, -(k : Int)⟩ := by
    have hexponent : (-1074 : Int) = -((1074 : Nat) : Int) := rfl
    rw [exactDecimal, hexponent]
    unfold one
    generalize 1074 = k
    exact ⟨k, rfl, rfl, rfl⟩
  rw [hexact]
  by_cases hzero : m.units = 0
  · have hplace := m.nearest?_units
    rw [hzero] at hplace ⊢
    rw [Nat.zero_mul, Decimal.magnitude?_zero, ← hplace]
    rfl
  · have hdigits := lt_length_toDigits_exact hzero hk
    have hpos : m.units * Nat.pow 5 k ≠ 0 :=
      Nat.mul_ne_zero hzero (Nat.ne_of_gt (Nat.pow_pos (by decide)))
    simp only [Decimal.magnitude?]
    rw [if_neg hpos, if_neg (by omega), if_neg (by omega), if_pos (by omega), Int.natAbs_neg,
      Int.natAbs_natCast, hone, nearest?_mul_pow_five, nearest?_units]

theorem magnitude?_around? {tie : Tie} {m : Magnitude} {e : Int} {num den : Nat} {d : Decimal}
    (h : m.around? tie e num den = some d) : d.magnitude? = some m := by
  simp only [around?] at h
  split at h
  · rename_i hreads
    cases h
    rw [Bool.and_eq_true] at hreads
    exact beq_iff_eq.mp hreads.1
  · split at h
    · rename_i hreads
      cases h
      exact beq_iff_eq.mp hreads
    · cases h

theorem magnitude?_withDigits? {tie : Tie} {m : Magnitude} {k : Nat} {d : Decimal}
    (h : m.withDigits? tie k = some d) :
    d.magnitude? = some m := by
  unfold withDigits? at h
  exact magnitude?_around? h

theorem magnitude?_shortest (tie : Tie) (m : Magnitude) : (m.shortest tie).magnitude? = some m := by
  rw [shortest, Decimal.magnitude?_normalize]
  cases hfound : (List.range' 1 17).findSome? (m.withDigits? tie) with
  | none => exact m.magnitude?_exactDecimal
  | some d =>
    obtain ⟨k, -, hk⟩ := List.exists_of_findSome?_eq_some hfound
    exact magnitude?_withDigits? hk

end Magnitude

end NoteQuery
