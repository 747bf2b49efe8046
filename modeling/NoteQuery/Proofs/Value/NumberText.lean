import NoteQuery.Proofs.Expr.Grouping
import NoteQuery.Proofs.Number.Rounding
import NoteQuery.Value.Text

/-!
# Reading written numbers

The text of a number is a numeral, with a minus in front of a negative one. So the number is found
again in it, both as the number that a text stands for and as the value of an expression; only the
sign of a zero is not written.
-/

namespace NoteQuery

set_option autoImplicit false

open NoteQuery.Expr (Numeral Power)

theorem Expr.Numeral.fractionChars_of_ne_nil {n : Numeral} (h : n.fraction ≠ []) :
    n.fractionChars = '.' :: n.fraction := by
  obtain ⟨c, cs, hcs⟩ := List.exists_cons_of_ne_nil h
  rw [Numeral.fractionChars, hcs]

namespace Decimal

theorem ofDigits_toDigits (n : Nat) : ofDigits (Nat.toDigits 10 n) = n := Nat.ofDigitChars_ten_toDigits

theorem isDigit_of_mem_toDigits {n : Nat} : ∀ c ∈ Nat.toDigits 10 n, isDigit c = true :=
  fun _ hc => Nat.isDigit_of_mem_toDigits (by decide) (by decide) hc

theorem isDigit_of_mem_zeros {k : Nat} : ∀ c ∈ List.replicate k '0', isDigit c = true := by
  intro c hc
  rw [List.eq_of_mem_replicate hc]
  rfl

theorem ofDigits_zeros_append (k : Nat) (ds : List Char) :
    ofDigits (List.replicate k '0' ++ ds) = ofDigits ds := by
  change Nat.ofDigitChars 10 _ 0 = Nat.ofDigitChars 10 _ 0
  rw [Nat.ofDigitChars_append, Nat.ofDigitChars_replicate_zero, Nat.mul_zero]

theorem ofDigits_append_zeros (ds : List Char) (k : Nat) :
    ofDigits (ds ++ List.replicate k '0') = ofDigits ds * Nat.pow 10 k := by
  change Nat.ofDigitChars 10 _ 0 = Nat.ofDigitChars 10 _ 0 * 10 ^ k
  rw [Nat.ofDigitChars_append, Nat.ofDigitChars_replicate_zero, Nat.mul_comm]

/-- Whether a numeral has the value of a decimal. -/
def Spells (n : Numeral) (d : Decimal) : Prop := n.decimal.magnitude? = d.magnitude?

variable {style : Style} {d : Decimal}

theorem exists_spells_of_nonneg (h : 0 ≤ d.exponent) :
    ∃ n : Numeral, n.chars = d.plainText style ∧ Spells n d := by
  let places := if style.wholeFraction then 1 else 0
  refine ⟨⟨Nat.toDigits 10 d.digits ++ List.replicate d.exponent.toNat '0', List.replicate places '0', none,
    List.append_ne_nil_of_left_ne_nil Nat.toDigits_ne_nil _,
    List.forall_mem_append.mpr ⟨isDigit_of_mem_toDigits, isDigit_of_mem_zeros⟩,
      isDigit_of_mem_zeros⟩, ?_, ?_⟩
  · rw [plainText, if_pos h]
    cases hstyle : style.wholeFraction <;> simp [Numeral.chars, Numeral.fractionChars,
      Numeral.powerChars, places, hstyle]
  · have hexponent : -(places : Int) + ((d.exponent.toNat + places : Nat) : Int) = d.exponent := by omega
    rw [Spells, Numeral.decimal, List.append_assoc, List.replicate_append_replicate,
      ofDigits_append_zeros,
      ofDigits_toDigits, Option.map_none, Option.getD_none, List.length_replicate, Int.zero_sub,
        magnitude?_mul_pow_ten,
      hexponent]

theorem exists_spells_of_neg (h : d.exponent < 0) :
    ∃ n : Numeral, n.chars = d.plainText style ∧ Spells n d := by
  have hdigits : ∀ c ∈ Nat.toDigits 10 d.digits, isDigit c = true := isDigit_of_mem_toDigits
  have hvalue : ofDigits (Nat.toDigits 10 d.digits) = d.digits := ofDigits_toDigits d.digits
  rw [plainText, if_neg (by omega)]
  generalize Nat.toDigits 10 d.digits = ds at hdigits hvalue ⊢
  dsimp only
  split
  · rename_i hplaces
    have hfraction : ds.drop (ds.length - d.exponent.natAbs) ≠ [] := by
      rw [ne_eq, List.drop_eq_nil_iff]
      omega
    refine ⟨⟨ds.take (ds.length - d.exponent.natAbs), ds.drop (ds.length - d.exponent.natAbs), none, ?_,
      fun c hc => hdigits c (List.mem_of_mem_take hc),
      fun c hc => hdigits c (List.mem_of_mem_drop hc)⟩, ?_, ?_⟩
    · rw [ne_eq, List.take_eq_nil_iff, not_or]
      refine ⟨by omega, ?_⟩
      rintro rfl
      exact absurd hplaces (Nat.not_lt_zero _)
    · obtain ⟨c, cs, hcs⟩ := List.exists_cons_of_ne_nil hfraction
      simp [Numeral.chars, Numeral.fractionChars, Numeral.powerChars, hcs]
    · have hexponent : 0 - ((ds.drop (ds.length - d.exponent.natAbs)).length : Int) = d.exponent := by
        rw [List.length_drop]
        omega
      rw [Spells, Numeral.decimal, List.take_append_drop, hvalue, Option.map_none,
        Option.getD_none, hexponent]
  · rename_i hplaces
    refine ⟨⟨['0'], List.replicate (d.exponent.natAbs - ds.length) '0' ++ ds, none, List.cons_ne_nil _ _,
      List.forall_mem_singleton.mpr rfl,
        List.forall_mem_append.mpr ⟨isDigit_of_mem_zeros, hdigits⟩⟩, ?_, ?_⟩
    · rw [Numeral.chars, Numeral.fractionChars_of_ne_nil, Numeral.powerChars, List.append_nil]
      · rfl
      · intro hnil
        obtain ⟨hzeros, rfl⟩ := List.append_eq_nil_iff.mp hnil
        rw [List.replicate_eq_nil_iff, List.length_nil] at hzeros
        omega
    · have hexponent :
          0 - ((List.replicate (d.exponent.natAbs - ds.length) '0' ++ ds).length : Int) =
            d.exponent := by
        rw [List.length_append, List.length_replicate]
        omega
      have hzeros : ofDigits (['0'] ++ (List.replicate (d.exponent.natAbs - ds.length) '0' ++ ds)) =
        ofDigits ds :=
        ofDigits_zeros_append (d.exponent.natAbs - ds.length + 1) ds
      rw [Spells, Numeral.decimal, Option.map_none, Option.getD_none, hexponent, hzeros, hvalue]

theorem exists_spells_exponentText (leading : Int)
    (h : leading = d.exponent + (Nat.toDigits 10 d.digits).length - 1) :
    ∃ n : Numeral, n.chars = d.exponentText style leading ∧ Spells n d := by
  have hdigits : ∀ c ∈ Nat.toDigits 10 d.digits, isDigit c = true := isDigit_of_mem_toDigits
  have hvalue : ofDigits (Nat.toDigits 10 d.digits) = d.digits := ofDigits_toDigits d.digits
  obtain ⟨c, cs, hcs⟩ := List.exists_cons_of_ne_nil (Nat.toDigits_ne_nil (b := 10) (n := d.digits))
  rw [hcs] at hdigits hvalue h
  let sign := if leading < 0 then some true else if style.plusSign then some false else none
  refine ⟨⟨[c], cs, some ⟨false, sign, Nat.toDigits 10 leading.natAbs, Nat.toDigits_ne_nil,
    isDigit_of_mem_toDigits⟩,
    List.cons_ne_nil c [], List.forall_mem_singleton.mpr (hdigits c List.mem_cons_self),
    fun d hd => hdigits d (List.mem_cons_of_mem c hd)⟩, ?_, ?_⟩
  · cases cs <;> by_cases hneg : leading < 0 <;> cases hplus : style.plusSign <;>
      simp [exponentText, hcs, Numeral.chars, Numeral.fractionChars, Numeral.powerChars,
        Power.chars, Power.signChars, Power.mark, sign, hneg, hplus]
  · have hpower : Power.value ⟨false, sign, Nat.toDigits 10 leading.natAbs, Nat.toDigits_ne_nil,
      isDigit_of_mem_toDigits⟩ = leading := by
      rw [Power.value, ofDigits_toDigits]
      by_cases hneg : leading < 0
      · simp only [sign, hneg, if_true]
        omega
      · have hsign : sign ≠ some true := by
          cases hplus : style.plusSign <;> simp [sign, hneg, hplus]
        simp only [hsign, if_false]
        omega
    have hexponent : leading - (cs.length : Int) = d.exponent := by
      rw [List.length_cons] at h
      omega
    rw [Spells, Numeral.decimal, Option.map_some, Option.getD_some, hpower, hexponent,
      List.singleton_append, hvalue]

/-- A decimal is written as a numeral, in whatever style. -/
theorem exists_spells_text (style : Style) (d : Decimal) :
    ∃ n : Numeral, n.chars = d.text style ∧ Spells n d := by
  rw [text]
  split
  · by_cases hexponent : 0 ≤ d.exponent
    · exact exists_spells_of_nonneg hexponent
    · exact exists_spells_of_neg (by omega)
  · exact exists_spells_exponentText _ rfl

theorem exists_numeral_shortest (style : Style) (m : Magnitude) : ∃ n : Numeral,
    n.chars = (m.shortest style.tie).text style ∧ n.decimal.magnitude? = some m := by
  obtain ⟨n, hn, hspells⟩ := exists_spells_text style (m.shortest style.tie)
  exact ⟨n, hn, hspells.trans (m.magnitude?_shortest style.tie)⟩

end Decimal

theorem Expr.Numeral.isDigit_or_of_mem_chars (n : Numeral) {c : Char} (hc : c ∈ n.chars) :
    Decimal.isDigit c = true ∨ c ∈ ['.', 'e', 'E', '+', '-'] := by
  simp only [Numeral.chars, List.mem_append] at hc
  rcases hc with (hc | hc) | hc
  · exact .inl (n.isDigit_of_mem_whole c hc)
  · by_cases hfraction : n.fraction = []
    · rw [Numeral.fractionChars, hfraction] at hc
      cases hc
    · rw [Numeral.fractionChars_of_ne_nil hfraction] at hc
      rcases List.mem_cons.mp hc with rfl | hc
      · exact .inr List.mem_cons_self
      · exact .inl (n.isDigit_of_mem_fraction c hc)
  · cases hpower : n.power with
    | none =>
      rw [Numeral.powerChars, hpower] at hc
      cases hc
    | some p =>
      rw [Numeral.powerChars, hpower] at hc
      simp only [Power.chars, List.mem_cons, List.mem_append] at hc
      rcases hc with rfl | hc | hc
      · rcases p.mark_eq_or with hmark | hmark <;> simp [hmark]
      · rw [Power.signChars] at hc
        split at hc
        · cases hc
        · split at hc <;> simp_all
      · exact .inl (p.isDigit_of_mem_digits c hc)

namespace Binary64

open Text

theorem isAsciiLetter_of_isDigit {c : Char} (h : Decimal.isDigit c = true) :
    isAsciiLetter c = false := by
  rw [Bool.eq_false_iff]
  intro hletter
  have hword : Expr.isWordStart c = true := by
    change (isAsciiLetter c || c == '_' || c == '$') = true
    rw [hletter, Bool.true_or, Bool.true_or]
  rw [Expr.isDigit_of_isWordStart hword] at h
  cases h

/-- A text of the characters of numbers stands for the number that it is read as. -/
theorem ofChars_of_read? {cs : List Char} {n : Binary64} (hne : cs ≠ [])
    (hcs : ∀ c ∈ cs, Decimal.isDigit c = true ∨ c ∈ ['.', 'e', 'E', '+', '-']) (h : read? cs = some n) :
    ofChars cs = n := by
  have hmarks : ∀ c ∈ ['.', 'e', 'E', '+', '-'],
      isBlank c = false ∧ (isAsciiLetter c && c != 'e' && c != 'E') = false := by
    intro c hc
    simp only [List.mem_cons, List.not_mem_nil, or_false] at hc
    rcases hc with rfl | rfl | rfl | rfl | rfl <;> decide
  have htrim : trim cs = cs := by
    apply trim_of_not_isBlank
    intro c hc
    rcases hcs c hc with hdigit | hmark
    · exact Decimal.not_isBlank_of_isDigit hdigit
    · exact (hmarks c hmark).1
  have hletter : ¬(cs.any fun c => isAsciiLetter c && c != 'e' && c != 'E') = true := by
    rw [Bool.not_eq_true, List.any_eq_false]
    intro c hc
    rcases hcs c hc with hdigit | hmark
    · simp [isAsciiLetter_of_isDigit hdigit]
    · simp [(hmarks c hmark).2]
  have hword (word : List Char) (hmem : 'I' ∈ word) : cs ≠ word := by
    rintro rfl
    rcases hcs 'I' hmem with hdigit | hmark
    · cases hdigit
    · exact absurd hmark (by decide)
  simp only [ofChars, htrim]
  rw [if_neg (by simpa using hne), if_neg, if_neg (hword _ (by decide)), if_neg hletter,
    h, Option.getD_some]
  rintro (heq | heq)
  · exact hword _ (by decide) heq
  · exact hword _ (by decide) heq

/-- Negative zero has the same text as zero. -/
def withoutNegativeZero (n : Binary64) : Binary64 := if n = finite true Magnitude.zero then zero else n

/-- The text of a finite number is a numeral, with a minus in front of it unless the number is zero. -/
theorem exists_numeral_chars (negative : Bool) (m : Magnitude) : ∃ (n : Numeral) (minus : Bool),
    (finite negative m).chars = (if minus then '-' :: n.chars else n.chars) ∧
      n.decimal.magnitude? = some m ∧
      (finite negative m).withoutNegativeZero = finite minus m := by
  by_cases hplace : m.place = 0
  · have hm : m = Magnitude.zero := Magnitude.eq_of_place_eq hplace
    refine ⟨⟨['0'], [], none, List.cons_ne_nil _ _, List.forall_mem_singleton.mpr rfl,
      List.forall_mem_nil _⟩, false, ?_, ?_, ?_⟩
    · rw [chars, if_pos hplace]
      rfl
    · rw [hm]
      exact Decimal.magnitude?_zero _
    · rw [hm]
      cases negative <;> rfl
  · obtain ⟨n, hn, hmagnitude⟩ := Decimal.exists_numeral_shortest numberStyle m
    refine ⟨n, negative, ?_, hmagnitude, ?_⟩
    · rw [chars, if_neg hplace, hn]
    · rw [withoutNegativeZero, if_neg]
      intro heq
      cases heq
      exact hplace rfl

theorem toBinary64_of_magnitude? {d : Decimal} {m : Magnitude} (h : d.magnitude? = some m)
    (negative : Bool) :
    d.toBinary64 negative = finite negative m := by
  rw [Decimal.toBinary64, h]
  rfl

theorem ofChars_chars (negative : Bool) (m : Magnitude) :
    ofChars (finite negative m).chars = (finite negative m).withoutNegativeZero := by
  obtain ⟨n, minus, hchars, hmagnitude, hzero⟩ := exists_numeral_chars negative m
  have hn : n.chars ≠ [] := by
    obtain ⟨c, r, hcr, -⟩ := n.exists_chars_eq_cons
    exact hcr ▸ List.cons_ne_nil c r
  rw [hchars, hzero]
  cases minus with
  | true =>
    apply ofChars_of_read? (List.cons_ne_nil _ _)
    · exact List.forall_mem_cons.mpr ⟨.inr (by decide), fun c => n.isDigit_or_of_mem_chars⟩
    · rw [read?, n.read?_chars, Option.map_some, toBinary64_of_magnitude? hmagnitude]
  | false =>
    apply ofChars_of_read? hn (fun c => n.isDigit_or_of_mem_chars)
    rw [n.binary64_read?_chars, Numeral.value, toBinary64_of_magnitude? hmagnitude]

theorem evalText_toText (env : Environment) (negative : Bool) (m : Magnitude) :
    Expr.evalText env (finite negative m).toText =
      .ok (.number (finite negative m).withoutNegativeZero) := by
  obtain ⟨n, minus, hchars, hmagnitude, hzero⟩ := exists_numeral_chars negative m
  have hvalue : n.value = finite false m := toBinary64_of_magnitude? hmagnitude false
  rw [toText, hchars, hzero, Expr.evalText]
  cases minus with
  | true =>
    rw [if_pos rfl, Expr.parse_minus_numeral, hvalue]
    rfl
  | false =>
    rw [if_neg Bool.false_ne_true, Expr.parse_numeral, hvalue]
    rfl

theorem chars_read_back : (∀ (negative : Bool) (m : Magnitude),
      ofChars (finite negative m).chars = (finite negative m).withoutNegativeZero ∧
      ∀ env, Expr.evalText env (finite negative m).toText =
        .ok (.number (finite negative m).withoutNegativeZero)) ∧
    ∀ negative, ofChars (infinity negative).chars = infinity negative := by
  refine ⟨fun negative m => ⟨ofChars_chars negative m, fun env => evalText_toText env negative m⟩, ?_⟩
  intro negative
  cases negative <;> decide

end Binary64

end NoteQuery
