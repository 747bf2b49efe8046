import NoteQuery.Proofs.Number.WholeText
import NoteQuery.Proofs.Value.TextLength

/-!
# Spellings of a property

A property can be asked for by its name behind a point or by a text in brackets, and a position by a
number or by the text of the number. A number and its text stand for the same position, unless
numbers cannot name it; and there nothing stands.
-/

namespace NoteQuery

set_option autoImplicit false

namespace Binary64

theorem ofChars_digits {ds : List Char} (hne : ds ≠ []) (hds : ∀ c ∈ ds, Decimal.isDigit c = true) :
    ofChars ds = ofNat (Decimal.ofDigits ds) := by
  have hread := Expr.Numeral.binary64_read?_chars ⟨ds, [], none, hne, hds, List.forall_mem_nil _⟩
  simp only [Expr.Numeral.chars, Expr.Numeral.fractionChars, Expr.Numeral.powerChars,
    List.append_nil, Expr.Numeral.value,
    Expr.Numeral.decimal, List.length_nil, Option.map_none, Option.getD_none,
      Int.natCast_zero, Int.sub_zero,
    Decimal.toBinary64_natural] at hread
  exact ofChars_of_read? hne (fun c hc => .inl (hds c hc)) hread

theorem toNat?_zero (negative : Bool) : (finite negative Magnitude.zero).toNat? = some 0 := by
  have hunits : Magnitude.zero.units = 0 := Magnitude.units_eq_zero_iff.mpr rfl
  have hplace : Magnitude.zero.place = 0 := rfl
  simp [toNat?, hunits, hplace]

theorem toNat?_withoutNegativeZero (x : Binary64) : x.withoutNegativeZero.toNat? = x.toNat? := by
  rw [withoutNegativeZero]
  split
  · rename_i h
    rw [h, zero, toNat?_zero, toNat?_zero]
  · rfl

end Binary64

namespace Value

variable {t key key' : Value} {x : Binary64} {i : Nat} {s : String}

theorem toText_text (s : String) : (text s).toText = s := String.ofList_toList

theorem position?_number_eq_some_iff :
    (number x).position? = some i ↔ x.toNat? = some i ∧ i < positionLimit := by
  rw [position?, Option.filter_eq_some_iff, decide_eq_true_eq, positionLimit]

theorem position?_text_eq_some_iff :
    (text s).position? = some i ↔ Decimal.Writes s i ∧ i < Nat.pow 2 64 := by
  rw [position?, Decimal.writes_and_lt_iff]
  cases hdigits : s.toList.isEmpty || !s.toList.all Decimal.isDigit with
  | true => simp
  | false =>
    rw [if_neg Bool.false_ne_true, Option.filter_eq_some_iff, Option.some_inj,
      decide_eq_true_eq, eq_self, true_and]
    exact and_congr_right fun hvalue => by rw [hvalue]

theorem position?_toText_of_number (h : (number x).position? = some i) :
    (text x.toText).position? = some i := by
  obtain ⟨hx, hlimit⟩ := position?_number_eq_some_iff.mp h
  have hchars : x.chars = (toString i).toList :=
    (Binary64.chars_of_toNat? hx (Nat.lt_trans hlimit positionLimit_lt_octave)).trans
      Nat.toList_repr.symm
  rw [Binary64.toText, hchars, String.ofList_toList]
  exact position?_text_eq_some_iff.mpr ⟨Decimal.writes_toString i, Nat.lt_trans hlimit (by decide)⟩

theorem position?_number_of_toText (h : (text x.toText).position? = some i)
    (hlimit : i < positionLimit) :
    (number x).position? = some i := by
  obtain ⟨⟨hne, hdigits, hvalue⟩, -⟩ := position?_text_eq_some_iff.mp h
  rw [Binary64.toText, String.toList_ofList] at hne hdigits hvalue
  refine position?_number_eq_some_iff.mpr ⟨?_, hlimit⟩
  cases x with
  | nan => cases hdigits 'N' (by decide)
  | infinity negative => cases hdigits 'I' (by cases negative <;> decide)
  | finite negative m =>
    have hread := Binary64.ofChars_chars negative m
    rw [Binary64.ofChars_digits hne hdigits, hvalue] at hread
    rw [← Binary64.toNat?_withoutNegativeZero, ← hread]
    exact Binary64.toNat?_ofNat (Nat.lt_trans hlimit (by decide))

/-- Numbers can name all positions in the value. -/
def Addressable : Value → Prop
  | sequence items => items.length < positionLimit
  | text s => s.length < positionLimit
  | _ => True

theorem itemAt_congr (hposition : key.position? = key'.position?) (htext : key.toText = key'.toText) :
    t.itemAt key = t.itemAt key' := by
  cases t <;> simp only [itemAt, hposition, htext]

theorem itemAt_of_position?_eq_none (h : key.position? = none) :
    t.itemAt key = t.property key.toText := by
  cases t <;> simp only [itemAt, h]

/-- At a position that numbers cannot name stands nothing. -/
theorem itemAt_of_le (ht : t.Addressable) (h : key.position? = some i) (hi : positionLimit ≤ i)
    (hname : key.toText ≠ "length") : t.itemAt key = t.property key.toText := by
  cases t with
  | sequence items =>
    have hbeyond : items.length ≤ i := Nat.le_of_lt (Nat.lt_of_lt_of_le ht hi)
    simp only [itemAt, h, property, if_neg hname, List.getElem?_eq_none hbeyond, Option.getD_none]
  | text s =>
    have hbeyond : s.toList.length ≤ i := Nat.le_of_lt (Nat.lt_of_lt_of_le ht hi)
    simp only [itemAt, h, property, if_neg hname, List.getElem?_eq_none hbeyond,
      Option.map_none, Option.getD_none]
  | _ => rfl

/-- A number and its text are the same key. -/
theorem itemAt_number_eq_itemAt_toText (ht : t.Addressable) (x : Binary64) :
    t.itemAt (number x) = t.itemAt (text x.toText) := by
  have htext : (number x).toText = (text x.toText).toText := (toText_text x.toText).symm
  cases hkey : (text x.toText).position? with
  | none =>
    have hnumber : (number x).position? = none := by
      by_contra hsome
      obtain ⟨i, hi⟩ := Option.ne_none_iff_exists'.mp hsome
      rw [position?_toText_of_number hi] at hkey
      cases hkey
    exact itemAt_congr (hnumber.trans hkey.symm) htext
  | some i =>
    obtain hi | hi := Nat.lt_or_ge i positionLimit
    · exact itemAt_congr ((position?_number_of_toText hkey hi).trans hkey.symm) htext
    · have hnumber : (number x).position? = none := by
        by_contra hsome
        obtain ⟨j, hj⟩ := Option.ne_none_iff_exists'.mp hsome
        have hlimit := (position?_number_eq_some_iff.mp hj).2
        rw [position?_toText_of_number hj] at hkey
        have hij := Option.some.inj hkey
        omega
      rw [itemAt_of_position?_eq_none hnumber,
        itemAt_of_le ht hkey hi (htext ▸ toText_number_ne_length x), htext]

end Value

namespace Expr

theorem position?_name {p : String} (h : IsName p.toList) : (Value.text p).position? = none := by
  rw [Option.eq_none_iff_forall_ne_some]
  intro i hi
  obtain ⟨c, r, hcr, hc, -⟩ := h
  have hdigit := (Value.position?_text_eq_some_iff.mp hi).1.isDigit c (hcr ▸ List.mem_cons_self)
  rw [isDigit_of_isWordStart hc] at hdigit
  cases hdigit

theorem property_spellings_agree :
    (∀ (env : Environment) (o : Expr) (p : String), IsName p.toList →
      (member o p).eval env = (index o (literal (.text p))).eval env) ∧
    ∀ t : Value, t.Addressable → ∀ x : Binary64, t.itemAt (.number x) = t.itemAt (.text x.toText) := by
  refine ⟨fun env o p hp => ?_, fun t ht x => Value.itemAt_number_eq_itemAt_toText ht x⟩
  have hname (v : Value) : v.property p = v.itemAt (.text p) := by
    rw [Value.itemAt_of_position?_eq_none (position?_name hp), Value.toText_text]
  rw [eval, eval, eval, Value.ofLiteral, funext hname]
  rfl

/-- The length of a text, and the first item of a sequence at negative zero. -/
theorem property_spellings_agree_negative_zero :
    (index (ident "s") (literal (.text "length"))).eval (.ofRecord [("s", .text "né")]) =
      .ok (.ofNat 2) ∧
    (Value.sequence [.bool true]).itemAt (.number (.finite true .zero)) = .ok (.bool true) := by
  obtain ⟨hmember, hkey⟩ := property_spellings_agree
  have hname : IsName "length".toList := isName_cons rfl rfl
  have hitems : (Value.sequence [.bool true]).Addressable := by
    change 1 < Value.positionLimit
    decide
  exact ⟨(hmember _ _ _ hname).symm.trans rfl, (hkey _ hitems _).trans rfl⟩

end Expr

end NoteQuery
