import NoteQuery.Proofs.Number.Rounding

/-!
# Natural numbers among the binary numbers

A natural number from 2^53 on may be rounded, but never to less than 2^52. So the binary number
nearest to a small natural number is nearest to no other one.
-/

namespace NoteQuery

set_option autoImplicit false

namespace Magnitude

theorem place_of_nearest? {num den : Nat} {m : Magnitude} (h : nearest? num den = some m) :
    m.place =
      ((num / den).log2 - 52) * octave +
        roundQuotient num (den * Nat.pow 2 ((num / den).log2 - 52)) := by
  unfold nearest? at h
  dsimp only at h
  split at h
  · rw [← Option.some.inj h]
  · cases h

theorem octave_le_roundQuotient {num shift : Nat} (h : Nat.pow 2 (shift + 52) ≤ num) :
    octave ≤ roundQuotient num (Nat.pow 2 shift) := by
  have hdiv : octave ≤ num / Nat.pow 2 shift := by
    rw [Nat.le_div_iff_mul_le (pow_pos shift), octave, ← pow_add, Nat.add_comm]
    exact h
  rw [roundQuotient]
  split
  · exact Nat.le_succ_of_le hdiv
  · exact hdiv

theorem le_shift_of_place {m : Magnitude} {shift q : Nat} (hplace : m.place = shift * octave + q)
    (hq : octave ≤ q) :
    shift ≤ m.shift := by
  have hle : shift + 1 ≤ m.place / octave := by
    rw [Nat.le_div_iff_mul_le octave_pos, Nat.succ_mul, hplace]
    exact Nat.add_le_add_left hq _
  rw [Magnitude.shift]
  omega

/-- The magnitude nearest to a large natural number is large. -/
theorem octave_mul_one_le_units {n : Nat} {m : Magnitude} (hn : wholeLimit ≤ n)
    (h : nearest? (n * one) 1 = some m) :
    octave * one ≤ m.units := by
  have hpos : n ≠ 0 := Nat.ne_of_gt (Nat.lt_of_lt_of_le (pow_pos 53) hn)
  have hlog : 53 ≤ n.log2 := (Nat.le_log2 hpos).mpr hn
  obtain ⟨e, he, hone⟩ := exists_one_eq_pow
  have hshift : (n * one).log2 - 52 = n.log2 - 52 + e := by
    rw [log2_mul_one hpos]
    omega
  have hquotient : Nat.pow 2 (n.log2 - 52 + e + 52) ≤ n * one := by
    have hsum : n.log2 - 52 + e + 52 = n.log2 + e := by omega
    rw [hsum, pow_add, hone]
    exact Nat.mul_le_mul_right _ (Nat.log2_self_le hpos)
  have hplace := place_of_nearest? h
  rw [Nat.div_one, Nat.one_mul, hshift] at hplace
  have hle : e + 1 ≤ m.shift :=
    Nat.le_trans (by omega) (le_shift_of_place hplace (octave_le_roundQuotient hquotient))
  obtain hzero | hsignificand := m.significand_lt_and.2
  · omega
  · rw [units, hone]
    exact Nat.mul_le_mul hsignificand (Nat.pow_le_pow_right (by decide) (by omega))

end Magnitude

namespace Binary64

open Magnitude (one octave wholeLimit)

theorem octave_le_of_toNat?_ofNat {n k : Nat} (hn : wholeLimit ≤ n)
    (h : (ofNat n).toNat? = some k) : octave ≤ k := by
  cases hnearest : Magnitude.nearest? (n * one) 1 with
  | none =>
    rw [ofNat, ofUnits, hnearest, Option.elim_none] at h
    cases h
  | some m =>
    have hunits : octave * one ≤ m.units := Magnitude.octave_mul_one_le_units hn hnearest
    rw [ofNat_eq_of_nearest? hnearest, toNat?] at h
    split at h
    · cases h
    · rw [← Option.some.inj h]
      exact (Nat.le_div_iff_mul_le Magnitude.one_pos).mpr hunits

theorem eq_of_toNat?_ofNat {n k : Nat} (hk : k < octave) (h : (ofNat n).toNat? = some k) : n = k := by
  obtain hn | hn := Nat.lt_or_ge n wholeLimit
  · rw [toNat?_ofNat hn] at h
    exact Option.some.inj h
  · have hle : octave ≤ k := octave_le_of_toNat?_ofNat hn h
    omega

end Binary64

end NoteQuery
