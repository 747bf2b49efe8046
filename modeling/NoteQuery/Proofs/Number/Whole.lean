import NoteQuery.Number.Decimal
import NoteQuery.Proofs.Text.Blank

/-!
# Whole numbers

Digits that write a natural number, and the binary number that they are read as. Below 2^53 nothing
is rounded, so the natural number is found again in it.
-/

namespace NoteQuery

set_option autoImplicit false

namespace Magnitude

/-- The first number of which the next one is no binary number. -/
def wholeLimit : Nat := Nat.pow 2 53

theorem pow_add (a b : Nat) : Nat.pow 2 (a + b) = Nat.pow 2 a * Nat.pow 2 b := Nat.pow_add 2 a b

theorem pow_pos (a : Nat) : 0 < Nat.pow 2 a := Nat.pow_pos (by decide)

theorem octave_pos : 0 < octave := pow_pos 52

-- The exponent is a variable here, for with a number in its place the power would be computed.
theorem exists_one_eq_pow : ∃ e, e = 1074 ∧ one = Nat.pow 2 e := by
  unfold one
  generalize 1074 = e
  exact ⟨e, rfl, rfl⟩

theorem one_pos : 0 < one := by
  obtain ⟨e, -, hone⟩ := exists_one_eq_pow
  rw [hone]
  exact pow_pos e

theorem one_eq (k : Nat) (h : k ≤ 52) : one = Nat.pow 2 (52 - k) * Nat.pow 2 (k + 1022) := by
  have hsum : (52 - k) + (k + 1022) = 1074 := by omega
  obtain ⟨e, he, hone⟩ := exists_one_eq_pow
  rw [hone, he.trans hsum.symm, pow_add]

theorem log2_mul_one {n : Nat} (h : n ≠ 0) : (n * one).log2 = n.log2 + 1074 := by
  have hne : n * one ≠ 0 := Nat.mul_ne_zero h (Nat.ne_of_gt one_pos)
  have hlt : n * one < Nat.pow 2 (n.log2 + 1) * one :=
    Nat.mul_lt_mul_of_pos_right Nat.lt_log2_self one_pos
  have hle : Nat.pow 2 n.log2 * one ≤ n * one := Nat.mul_le_mul_right one (Nat.log2_self_le h)
  obtain ⟨e, he, hone⟩ := exists_one_eq_pow
  rw [hone] at hne hlt hle ⊢
  rw [← pow_add] at hlt hle
  rw [← he]
  apply Nat.le_antisymm
  · have hlog : (n * Nat.pow 2 e).log2 < n.log2 + 1 + e := (Nat.log2_lt hne).mpr hlt
    omega
  · exact (Nat.le_log2 hne).mpr hle

theorem roundQuotient_mul (q : Nat) {den : Nat} (h : 0 < den) : roundQuotient (q * den) den = q := by
  rw [roundQuotient, Nat.mul_div_cancel q h, Nat.mul_mod_left, if_neg]
  omega

theorem units_of_place {m : Magnitude} {shift q : Nat} (hplace : m.place = shift * octave + q)
    (hlow : octave ≤ q) (hhigh : q < 2 * octave) : m.units = q * Nat.pow 2 shift := by
  have hpos := octave_pos
  have hoctave : m.place / octave = shift + 1 := by
    rw [Nat.div_eq_iff hpos, hplace, Nat.succ_mul]
    omega
  have hshift : m.shift = shift := by rw [Magnitude.shift, hoctave, Nat.add_sub_cancel]
  rw [units, significand, hshift, hplace, Nat.add_sub_cancel_left]

/-- Shifted to 53 binary digits, a number lies in the octave of significands. -/
theorem octave_le_shifted {n : Nat} (hpos : n ≠ 0) (hlog : n.log2 ≤ 52) :
    octave ≤ n * Nat.pow 2 (52 - n.log2) ∧ n * Nat.pow 2 (52 - n.log2) < 2 * octave := by
  constructor
  · have hsplit : octave = Nat.pow 2 n.log2 * Nat.pow 2 (52 - n.log2) := by
      rw [← pow_add, Nat.add_sub_cancel' hlog]
      rfl
    rw [hsplit]
    exact Nat.mul_le_mul_right _ (Nat.log2_self_le hpos)
  · have hsplit : 2 * octave = Nat.pow 2 (n.log2 + 1) * Nat.pow 2 (52 - n.log2) := by
      have hsum : n.log2 + 1 + (52 - n.log2) = 53 := by omega
      rw [← pow_add, hsum]
      rfl
    rw [hsplit]
    exact Nat.mul_lt_mul_of_pos_right Nat.lt_log2_self (pow_pos _)

theorem exists_nearest?_whole {n : Nat} (hpos : n ≠ 0) (h : n < wholeLimit) :
    ∃ m, nearest? (n * one) 1 = some m ∧ m.units = n * one := by
  have hlog : n.log2 ≤ 52 := Nat.le_of_lt_succ ((Nat.log2_lt hpos).mpr h)
  have hshift : (n * one).log2 - 52 = n.log2 + 1022 := by
    rw [log2_mul_one hpos]
    omega
  have hquotient : n * one = n * Nat.pow 2 (52 - n.log2) * Nat.pow 2 (n.log2 + 1022) := by
    rw [one_eq n.log2 hlog, Nat.mul_assoc]
  have hround : roundQuotient (n * one) (Nat.pow 2 (n.log2 + 1022)) = n * Nat.pow 2 (52 - n.log2) := by
    rw [hquotient, roundQuotient_mul _ (pow_pos _)]
  obtain ⟨hlow, hhigh⟩ := octave_le_shifted hpos hlog
  have hplace : (n.log2 + 1022) * octave + n * Nat.pow 2 (52 - n.log2) < count := by
    have hle : (n.log2 + 1022) * octave ≤ 1074 * octave := Nat.mul_le_mul_right octave (by omega)
    rw [count]
    omega
  refine ⟨⟨_, hplace⟩, ?_, ?_⟩
  · simp only [nearest?, Nat.div_one, Nat.one_mul, hshift, hround]
    rw [dif_pos hplace]
  · rw [units_of_place rfl hlow hhigh, ← hquotient]

theorem nearest?_zero : nearest? 0 1 = some zero := rfl

end Magnitude

namespace Binary64

theorem toNat?_of_units {m : Magnitude} {n : Nat} (h : m.units = n * Magnitude.one) :
    (finite false m).toNat? = some n := by
  have hmod : m.units % Magnitude.one = 0 := by rw [h, Nat.mul_mod_left]
  have hdiv : m.units / Magnitude.one = n := by rw [h, Nat.mul_div_cancel n Magnitude.one_pos]
  simp [toNat?, hmod, hdiv]

theorem ofNat_eq_of_nearest? {n : Nat} {m : Magnitude}
    (h : Magnitude.nearest? (n * Magnitude.one) 1 = some m) :
    ofNat n = finite false m := by
  rw [ofNat, ofUnits, h, Option.elim_some]

theorem toNat?_ofNat {n : Nat} (h : n < Magnitude.wholeLimit) : (ofNat n).toNat? = some n := by
  by_cases hzero : n = 0
  · subst hzero
    have hnearest : Magnitude.nearest? (0 * Magnitude.one) 1 = some Magnitude.zero := by
      rw [Nat.zero_mul, Magnitude.nearest?_zero]
    rw [ofNat_eq_of_nearest? hnearest]
    apply toNat?_of_units
    rw [Nat.zero_mul]
    rfl
  · obtain ⟨m, hnearest, hunits⟩ := Magnitude.exists_nearest?_whole hzero h
    rw [ofNat_eq_of_nearest? hnearest]
    exact toNat?_of_units hunits

end Binary64

namespace Decimal

/-- Digits that write a natural number, in the usual way or with zeros before it. -/
structure Writes (digits : String) (n : Nat) : Prop where
  ne_nil : digits.toList ≠ []
  isDigit : ∀ c ∈ digits.toList, isDigit c = true
  ofDigits_eq : ofDigits digits.toList = n

theorem not_digits_eq_false_iff {cs : List Char} :
    (cs.isEmpty || !cs.all Decimal.isDigit) = false ↔ cs ≠ [] ∧ ∀ c ∈ cs, Decimal.isDigit c = true := by
  simp [List.isEmpty_eq_false_iff]

/-- Digits of a number below a limit are found by a check for digits and then for the limit. -/
theorem writes_and_lt_iff {digits : String} {n limit : Nat} : Writes digits n ∧ n < limit ↔
    (digits.toList.isEmpty || !digits.toList.all Decimal.isDigit) = false ∧ ofDigits digits.toList = n ∧
      ofDigits digits.toList < limit := by
  rw [not_digits_eq_false_iff]
  constructor
  · rintro ⟨⟨hne, hdigits, rfl⟩, hlimit⟩
    exact ⟨⟨hne, hdigits⟩, rfl, hlimit⟩
  · rintro ⟨⟨hne, hdigits⟩, rfl, hlimit⟩
    exact ⟨⟨hne, hdigits, rfl⟩, hlimit⟩

theorem not_isBlank_of_isDigit {c : Char} (h : isDigit c = true) : Text.isBlank c = false := by
  have hrange := isDigit_iff.mp h
  exact Text.not_isBlank_of_visible (by omega) (by omega)

theorem Writes.not_isBlank {digits : String} {n : Nat} (h : Writes digits n) :
    ∀ c ∈ digits.toList, Text.isBlank c = false :=
  fun c hc => not_isBlank_of_isDigit (h.isDigit c hc)

theorem writes_toString (n : Nat) : Writes (toString n) n := by
  have hdigits : (toString n).toList = Nat.toDigits 10 n := Nat.toList_repr
  constructor
  · rw [hdigits]
    exact Nat.toDigits_ne_nil
  · intro c hc
    rw [hdigits] at hc
    exact Nat.isDigit_of_mem_toDigits (by decide) (by decide) hc
  · rw [hdigits]
    exact Nat.ofDigitChars_ten_toDigits

theorem magnitude?_natural (n : Nat) : magnitude? ⟨n, 0⟩ = Magnitude.nearest? (n * Magnitude.one) 1 := by
  have hpower : n * Nat.pow 10 (0 : Int).natAbs = n := Nat.mul_one n
  by_cases hzero : n = 0
  · rw [magnitude?, if_pos hzero, hzero, Nat.zero_mul, Magnitude.nearest?_zero]
  · simp only [magnitude?]
    rw [if_neg hzero, if_neg (by decide), if_neg (by omega), if_neg (by decide), hpower]

theorem toBinary64_natural (n : Nat) : toBinary64 false ⟨n, 0⟩ = Binary64.ofNat n := by
  rw [toBinary64, Binary64.ofNat, Binary64.ofUnits, magnitude?_natural]

end Decimal

end NoteQuery
