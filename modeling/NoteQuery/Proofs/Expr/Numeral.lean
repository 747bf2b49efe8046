import NoteQuery.Expr.Token
import NoteQuery.Proofs.Text.Blank

/-!
# Numerals

An unsigned number as expressions write it: digits, a fraction, a power of ten. The
lexer takes the longest numeral at the start of a text, and the text of a numeral reads
as the decimal that its parts spell.
-/

namespace NoteQuery.Expr

set_option autoImplicit false

open Text

/-- A power of ten as it is written. The sign is optional, and `true` is the minus. -/
structure Power where
  capital : Bool
  sign : Option Bool
  digits : List Char
  digits_ne_nil : digits ≠ []
  isDigit_of_mem_digits : ∀ c ∈ digits, Decimal.isDigit c = true

structure Numeral where
  whole : List Char
  /-- The digits behind the point; without any there is no point. -/
  fraction : List Char
  power : Option Power
  whole_ne_nil : whole ≠ []
  isDigit_of_mem_whole : ∀ c ∈ whole, Decimal.isDigit c = true
  isDigit_of_mem_fraction : ∀ c ∈ fraction, Decimal.isDigit c = true

namespace Power

def mark (p : Power) : Char := if p.capital then 'E' else 'e'

def signChars (p : Power) : List Char :=
  match p.sign with
  | none => []
  | some minus => if minus then ['-'] else ['+']

def chars (p : Power) : List Char := p.mark :: (p.signChars ++ p.digits)

def value (p : Power) : Int :=
  if p.sign = some true then -(Decimal.ofDigits p.digits : Int) else Decimal.ofDigits p.digits

theorem mark_eq_or (p : Power) : p.mark = 'e' ∨ p.mark = 'E' := by
  unfold mark
  split
  · exact .inr rfl
  · exact .inl rfl

theorem isDigit_mark (p : Power) : Decimal.isDigit p.mark = false := by
  rcases p.mark_eq_or with h | h <;> rw [h] <;> rfl

end Power

namespace Numeral

def fractionChars (n : Numeral) : List Char :=
  match n.fraction with
  | [] => []
  | ds => '.' :: ds

def powerChars (n : Numeral) : List Char :=
  match n.power with
  | none => []
  | some p => p.chars

def chars (n : Numeral) : List Char := n.whole ++ n.fractionChars ++ n.powerChars

def decimal (n : Numeral) : Decimal :=
  ⟨Decimal.ofDigits (n.whole ++ n.fraction), (n.power.map Power.value).getD 0 - n.fraction.length⟩

def value (n : Numeral) : Binary64 := n.decimal.toBinary64 false

theorem exists_chars_eq_cons (n : Numeral) : ∃ c r, n.chars = c :: r ∧ Decimal.isDigit c = true := by
  obtain ⟨c, r, hcr⟩ := List.exists_cons_of_ne_nil n.whole_ne_nil
  exact ⟨c, r ++ n.fractionChars ++ n.powerChars,
    by simp [chars, hcr], n.isDigit_of_mem_whole c (by simp [hcr])⟩

end Numeral

theorem ne_sign_of_isDigit {c : Char} (h : Decimal.isDigit c = true) : c ≠ '+' ∧ c ≠ '-' := by
  constructor <;> rintro rfl <;> exact absurd h (by decide)

theorem prefix_takeWhile_append {p : Char → Bool} {ds : List Char} (rest : List Char)
    (hds : ∀ c ∈ ds, p c = true) : ds <+: (ds ++ rest).takeWhile p := by
  rw [List.takeWhile_append_of_pos hds]
  exact List.prefix_append ds _

theorem isDigit_of_mem_takeWhile {cs : List Char} {c : Char} (h : c ∈ cs.takeWhile Decimal.isDigit) :
    Decimal.isDigit c = true := by
  exact List.all_eq_true.mp List.all_takeWhile c h

theorem exponentDigits_eq (mark r : List Char) :
    exponentDigits mark r = if r.takeWhile Decimal.isDigit = [] then []
      else mark ++ r.takeWhile Decimal.isDigit := by
  unfold exponentDigits
  split
  · rename_i h
    rw [if_pos h]
  · rename_i h
    rw [if_neg h]

theorem exponent_power_append (p : Power) (rest : List Char) :
    exponent (p.chars ++ rest) = exponentDigits (p.mark :: p.signChars) (p.digits ++ rest) := by
  have hmark : p.mark = 'e' ∨ p.mark = 'E' := p.mark_eq_or
  obtain ⟨d, ds, hds⟩ := List.exists_cons_of_ne_nil p.digits_ne_nil
  have hd := ne_sign_of_isDigit (p.isDigit_of_mem_digits d (by simp [hds]))
  rw [Power.chars, Power.signChars, hds]
  rcases p.sign with _ | _ | _
  · simp only [List.nil_append, List.cons_append]
    rw [exponent]
    · exact if_pos hmark
    · intro r h
      exact hd.1 (List.cons.inj h).1
    · intro r h
      exact hd.2 (List.cons.inj h).1
  · exact if_pos hmark
  · exact if_pos hmark

theorem power_prefix_exponent (p : Power) (rest : List Char) :
    p.chars <+: exponent (p.chars ++ rest) := by
  have hne : (p.digits ++ rest).takeWhile Decimal.isDigit ≠ [] := by
    rw [List.takeWhile_append_of_pos p.isDigit_of_mem_digits]
    simp [p.digits_ne_nil]
  rw [exponent_power_append, exponentDigits_eq, if_neg hne]
  obtain ⟨more, hmore⟩ := prefix_takeWhile_append rest p.isDigit_of_mem_digits
  rw [← hmore]
  exact ⟨more, by simp [Power.chars]⟩

theorem fraction_append (n : Numeral) (hne : n.fraction ≠ []) (rest : List Char) :
    fraction (n.fractionChars ++ rest) = '.' :: (n.fraction ++ rest).takeWhile Decimal.isDigit := by
  obtain ⟨d, ds, hds⟩ := List.exists_cons_of_ne_nil hne
  have hd : Decimal.isDigit d = true := n.isDigit_of_mem_fraction d (by simp [hds])
  simp [Numeral.fractionChars, hds, fraction, hd]

theorem fraction_eq_nil {cs : List Char} (h : ∀ c ∈ cs.head?, c ≠ '.') : fraction cs = [] := by
  unfold fraction
  split
  · exact absurd rfl (h '.' rfl)
  · rfl

theorem head?_powerChars {n : Numeral} {p : Power} (h : n.power = some p) (rest : List Char) :
    (n.powerChars ++ rest).head? = some p.mark := by
  simp [Numeral.powerChars, h, Power.chars]

theorem whole_append_ne_digit {n : Numeral} (h : n.fraction ≠ [] ∨ n.power ≠ none) (rest : List Char) :
    ∀ c ∈ (n.fractionChars ++ (n.powerChars ++ rest)).head?, Decimal.isDigit c = false := by
  intro c hc
  by_cases hf : n.fraction = []
  · obtain ⟨p, hp⟩ := Option.ne_none_iff_exists'.mp (h.resolve_left (fun h => h hf))
    rw [Numeral.fractionChars, hf, List.nil_append, head?_powerChars hp] at hc
    cases hc
    exact p.isDigit_mark
  · obtain ⟨d, ds, hds⟩ := List.exists_cons_of_ne_nil hf
    rw [Numeral.fractionChars, hds] at hc
    cases hc
    rfl

/-- The lexer takes at least any numeral that the text starts with. -/
theorem chars_prefix_numeral (n : Numeral) (rest : List Char) :
    n.chars <+: numeral (n.chars ++ rest) := by
  have hsplit : n.chars ++ rest = n.whole ++ (n.fractionChars ++ (n.powerChars ++ rest)) := by
    simp [Numeral.chars]
  rw [hsplit, numeral]
  by_cases hplain : n.fraction = [] ∧ n.power = none
  · have hchars : n.chars = n.whole := by simp [Numeral.chars, Numeral.fractionChars,
      Numeral.powerChars, hplain]
    rw [hchars, List.append_assoc]
    exact (prefix_takeWhile_append _ n.isDigit_of_mem_whole).trans (List.prefix_append _ _)
  · have hwhole : (n.whole ++ (n.fractionChars ++ (n.powerChars ++ rest))).takeWhile
      Decimal.isDigit = n.whole :=
      takeWhile_append_of_head n.isDigit_of_mem_whole (whole_append_ne_digit (by
        by_cases hf : n.fraction = []
        · exact .inr fun hp => hplain ⟨hf, hp⟩
        · exact .inl hf) rest)
    simp only [hwhole, List.drop_left]
    rw [Numeral.chars, List.append_assoc, List.append_assoc, List.prefix_append_right_inj]
    by_cases hf : n.fraction = []
    · obtain ⟨p, hp⟩ := Option.ne_none_iff_exists'.mp fun hp => hplain ⟨hf, hp⟩
      have hnone : fraction (n.powerChars ++ rest) = [] := fraction_eq_nil (by
        intro c hc
        rw [head?_powerChars hp] at hc
        cases hc
        rcases p.mark_eq_or with h | h <;> rw [h] <;> decide)
      simp only [Numeral.fractionChars, hf, List.nil_append, hnone, List.length_nil, List.drop_zero]
      simp only [Numeral.powerChars, hp]
      exact power_prefix_exponent p rest
    · have hpoint : n.fractionChars = '.' :: n.fraction := by
        obtain ⟨d, ds, hds⟩ := List.exists_cons_of_ne_nil hf
        simp [Numeral.fractionChars, hds]
      rw [fraction_append n hf]
      cases hp : n.power with
      | none =>
        simp only [Numeral.powerChars, hp, List.append_nil, hpoint]
        refine (List.IsPrefix.trans ?_ (List.prefix_append _ _))
        exact (List.prefix_cons_inj '.').mpr (prefix_takeWhile_append _ n.isDigit_of_mem_fraction)
      | some p =>
        have hfraction : (n.fraction ++ (n.powerChars ++ rest)).takeWhile Decimal.isDigit = n.fraction :=
          takeWhile_append_of_head n.isDigit_of_mem_fraction (by
            intro c hc
            rw [head?_powerChars hp] at hc
            cases hc
            exact p.isDigit_mark)
        rw [hfraction, ← hpoint, List.drop_left, List.prefix_append_right_inj]
        simp only [Numeral.powerChars, hp]
        exact power_prefix_exponent p rest

theorem fraction_isPrefix (cs : List Char) : fraction cs <+: cs := by
  unfold fraction
  split
  · rename_i c r
    split
    · exact (List.prefix_cons_inj '.').mpr ((List.prefix_cons_inj c).mpr (List.takeWhile_prefix _))
    · exact List.nil_prefix
  · exact List.nil_prefix

theorem exponentDigits_isPrefix (mark r : List Char) : exponentDigits mark r <+: mark ++ r := by
  rw [exponentDigits_eq]
  split
  · exact List.nil_prefix
  · exact (List.prefix_append_right_inj mark).mpr (List.takeWhile_prefix _)

theorem exponent_isPrefix (cs : List Char) : exponent cs <+: cs := by
  unfold exponent
  split
  · split
    · exact exponentDigits_isPrefix _ _
    · exact List.nil_prefix
  · split
    · exact exponentDigits_isPrefix _ _
    · exact List.nil_prefix
  · split
    · exact exponentDigits_isPrefix _ _
    · exact List.nil_prefix
  · exact List.nil_prefix

theorem numeral_isPrefix (cs : List Char) : numeral cs <+: cs := by
  have hwhole := List.prefix_iff_eq_append.mp (List.takeWhile_prefix (l := cs) Decimal.isDigit)
  have hpart := List.prefix_iff_eq_append.mp
    (fraction_isPrefix (cs.drop (cs.takeWhile Decimal.isDigit).length))
  obtain ⟨rest, hrest⟩ := exponent_isPrefix ((cs.drop (cs.takeWhile Decimal.isDigit).length).drop
    (fraction (cs.drop (cs.takeWhile Decimal.isDigit).length)).length)
  refine ⟨rest, ?_⟩
  rw [numeral, List.append_assoc, List.append_assoc, hrest, hpart, hwhole]

theorem fraction_eq_nil_or (cs : List Char) :
    fraction cs = [] ∨ ∃ ds, ds ≠ [] ∧ (∀ c ∈ ds, Decimal.isDigit c = true) ∧
      fraction cs = '.' :: ds := by
  unfold fraction
  split
  · rename_i c r
    split
    · rename_i hc
      refine .inr ⟨c :: r.takeWhile Decimal.isDigit, by simp, ?_, rfl⟩
      intro d hd
      rcases List.mem_cons.mp hd with rfl | hd
      · exact hc
      · exact isDigit_of_mem_takeWhile hd
    · exact .inl rfl
  · exact .inl rfl

theorem exponentDigits_eq_nil_or (capital : Bool) (sign : Option Bool) (r : List Char) :
    let mark := (if capital then 'E' else 'e') :: (match sign with
      | none => []
      | some minus => if minus then ['-'] else ['+'])
    exponentDigits mark r = [] ∨ ∃ p : Power, exponentDigits mark r = p.chars := by
  intro mark
  rw [exponentDigits_eq]
  by_cases h : r.takeWhile Decimal.isDigit = []
  · exact .inl (if_pos h)
  · exact .inr ⟨⟨capital, sign, r.takeWhile Decimal.isDigit, h,
      fun _ hc => isDigit_of_mem_takeWhile hc⟩, if_neg h⟩

theorem exponent_eq_nil_or (cs : List Char) : exponent cs = [] ∨ ∃ p : Power, exponent cs = p.chars := by
  unfold exponent
  split
  · split
    · rename_i h
      rcases h with rfl | rfl
      · exact exponentDigits_eq_nil_or false (some false) _
      · exact exponentDigits_eq_nil_or true (some false) _
    · exact .inl rfl
  · split
    · rename_i h
      rcases h with rfl | rfl
      · exact exponentDigits_eq_nil_or false (some true) _
      · exact exponentDigits_eq_nil_or true (some true) _
    · exact .inl rfl
  · split
    · rename_i h
      rcases h with rfl | rfl
      · exact exponentDigits_eq_nil_or false none _
      · exact exponentDigits_eq_nil_or true none _
    · exact .inl rfl
  · exact .inl rfl

theorem exists_chars_eq_numeral {c : Char} (hc : Decimal.isDigit c = true) (r : List Char) :
    ∃ n : Numeral, n.chars = numeral (c :: r) := by
  have hne : (c :: r).takeWhile Decimal.isDigit ≠ [] := by simp [hc]
  have hwhole : ∀ d ∈ (c :: r).takeWhile Decimal.isDigit, Decimal.isDigit d = true :=
    fun _ hd => isDigit_of_mem_takeWhile hd
  rw [numeral]
  generalize (c :: r).takeWhile Decimal.isDigit = whole at hne hwhole ⊢
  generalize (c :: r).drop whole.length = behind
  have hpower : ∃ power : Option Power, exponent (behind.drop (fraction behind).length) =
      (match power with | none => [] | some p => p.chars) := by
    rcases exponent_eq_nil_or (behind.drop (fraction behind).length) with h | ⟨p, h⟩
    · exact ⟨none, h⟩
    · exact ⟨some p, h⟩
  obtain ⟨power, hpower⟩ := hpower
  rcases fraction_eq_nil_or behind with h | ⟨ds, hds, hdigits, h⟩
  · refine ⟨⟨whole, [], power, hne, hwhole, by simp⟩, ?_⟩
    simp only [hpower, Numeral.chars, Numeral.fractionChars, Numeral.powerChars]
    rw [h]
  · obtain ⟨d, ds, rfl⟩ := List.exists_cons_of_ne_nil hds
    refine ⟨⟨whole, d :: ds, power, hne, hwhole, hdigits⟩, ?_⟩
    simp only [hpower, Numeral.chars, Numeral.fractionChars, Numeral.powerChars]
    rw [h]

/-- A numeral that no longer one extends is what the lexer takes. -/
theorem numeral_append_eq (n : Numeral) (rest : List Char)
    (h : ∀ m : Numeral, m.chars <+: n.chars ++ rest → m.chars <+: n.chars) :
    numeral (n.chars ++ rest) = n.chars := by
  obtain ⟨c, r, hcr, hc⟩ := n.exists_chars_eq_cons
  obtain ⟨m, hm⟩ := exists_chars_eq_numeral hc (r ++ rest)
  rw [← List.cons_append, ← hcr] at hm
  have hmn : m.chars <+: n.chars := h m (hm ▸ numeral_isPrefix _)
  have hnm : n.chars <+: m.chars := hm ▸ chars_prefix_numeral n rest
  rw [← hm]
  exact hmn.eq_of_length_le hnm.length_le

theorem readExponent?_digits {ds : List Char} (hne : ds ≠ [])
    (hds : ∀ c ∈ ds, Decimal.isDigit c = true) :
    Decimal.readExponent? ds = some (Decimal.ofDigits ds : Int) := by
  obtain ⟨d, r, rfl⟩ := List.exists_cons_of_ne_nil hne
  obtain ⟨hplus, hminus⟩ := ne_sign_of_isDigit (hds d List.mem_cons_self)
  have hall : (d :: r).all Decimal.isDigit = true := List.all_eq_true.mpr hds
  unfold Decimal.readExponent?
  split
  rename_i negative ds' h
  split at h
  · rename_i hcons
    exact absurd (List.cons.inj hcons).1 hminus
  · rename_i hcons
    exact absurd (List.cons.inj hcons).1 hplus
  · cases h
    simp [hall]

theorem readExponent?_power (p : Power) :
    Decimal.readExponent? (p.signChars ++ p.digits) = some p.value := by
  have hall : p.digits.all Decimal.isDigit = true := List.all_eq_true.mpr p.isDigit_of_mem_digits
  have hempty : p.digits.isEmpty = false := by simp [p.digits_ne_nil]
  rcases hsign : p.sign with _ | _ | _
  · simp [Power.signChars, Power.value, hsign,
      readExponent?_digits p.digits_ne_nil p.isDigit_of_mem_digits]
  · simp [Power.signChars, Power.value, hsign, Decimal.readExponent?, hall, hempty]
  · simp [Power.signChars, Power.value, hsign, Decimal.readExponent?, hall, hempty]

theorem head?_powerChars_not (n : Numeral) :
    ∀ c ∈ n.powerChars.head?, Decimal.isDigit c = false ∧ c ≠ '.' := by
  intro c hc
  cases hp : n.power with
  | none => simp [Numeral.powerChars, hp] at hc
  | some p =>
    have hmark := head?_powerChars hp []
    rw [List.append_nil] at hmark
    rw [hmark] at hc
    cases hc
    exact ⟨p.isDigit_mark, by rcases p.mark_eq_or with h | h <;> rw [h] <;> decide⟩

/-- What the reader does behind the digits: the power shifts the exponent. -/
theorem read_powerChars (n : Numeral) (d : Decimal) :
    (match n.powerChars with
      | [] => some d
      | c :: r =>
        if c = 'e' ∨ c = 'E' then
          (Decimal.readExponent? r).map fun e => ⟨d.digits, d.exponent + e⟩
        else none) =
      some ⟨d.digits, d.exponent + (n.power.map Power.value).getD 0⟩ := by
  cases hp : n.power with
  | none => simp [Numeral.powerChars, hp]
  | some p =>
    simp only [Numeral.powerChars, hp, Power.chars]
    rw [if_pos p.mark_eq_or, readExponent?_power]
    rfl

theorem Numeral.read?_chars (n : Numeral) : Decimal.read? n.chars = some n.decimal := by
  have hhead : ∀ c ∈ (n.fractionChars ++ n.powerChars).head?, Decimal.isDigit c = false := by
    by_cases h : n.fraction ≠ [] ∨ n.power ≠ none
    · simpa using whole_append_ne_digit h []
    · have hnone : n.fraction = [] ∧ n.power = none := by simpa [not_or] using h
      simp [Numeral.fractionChars, Numeral.powerChars, hnone]
  have hpower := head?_powerChars_not n
  have hdecimal (digits : List Char) :
      (⟨Decimal.ofDigits digits, -(n.fraction.length : Int) +
        (n.power.map Power.value).getD 0⟩ : Decimal) =
      ⟨Decimal.ofDigits digits, (n.power.map Power.value).getD 0 - n.fraction.length⟩ := by
    congr 1
    omega
  have hchars : n.chars = n.whole ++ (n.fractionChars ++ n.powerChars) := by simp [Numeral.chars]
  unfold Decimal.read?
  rw [hchars, takeWhile_append_of_head n.isDigit_of_mem_whole hhead,
    dropWhile_append_of_head n.isDigit_of_mem_whole hhead]
  dsimp only
  rw [Numeral.decimal, ← hdecimal]
  split
  · rename_i r h
    have hr : r = n.fraction ++ n.powerChars := by
      cases hf : n.fraction with
      | nil =>
        rw [Numeral.fractionChars, hf, List.nil_append] at h
        exact absurd rfl (hpower '.' (by simp [h])).2
      | cons d ds =>
        rw [Numeral.fractionChars, hf] at h
        exact (List.cons.inj h).2.symm
    have htail : ∀ c ∈ n.powerChars.head?, Decimal.isDigit c = false := fun c hc => (hpower c hc).1
    rw [hr, takeWhile_append_of_head n.isDigit_of_mem_fraction htail,
      dropWhile_append_of_head n.isDigit_of_mem_fraction htail, if_neg (by simp [n.whole_ne_nil])]
    exact read_powerChars n _
  · rename_i hpoint
    have hf : n.fraction = [] := by
      cases hf : n.fraction with
      | nil => rfl
      | cons d ds => exact absurd (by simp [Numeral.fractionChars, hf]) (hpoint (d :: ds ++ n.powerChars))
    rw [if_neg (by simp [n.whole_ne_nil])]
    simp only [Numeral.fractionChars, hf, List.nil_append, List.append_nil]
    exact read_powerChars n _

/-- The number of a numeral is its decimal, correctly rounded. -/
theorem Numeral.binary64_read?_chars (n : Numeral) : Binary64.read? n.chars = some n.value := by
  obtain ⟨c, r, hcr, hc⟩ := n.exists_chars_eq_cons
  have hdecimal := n.read?_chars
  rw [hcr] at hdecimal ⊢
  obtain ⟨hplus, hminus⟩ := ne_sign_of_isDigit hc
  unfold Binary64.read?
  split
  · rename_i h
    cases h
    exact absurd rfl hminus
  · rename_i h
    cases h
    exact absurd rfl hplus
  · rw [hdecimal]
    rfl

end NoteQuery.Expr
