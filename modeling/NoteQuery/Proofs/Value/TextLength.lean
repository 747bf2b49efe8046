import Mathlib.Data.Set.Card
import NoteQuery.Expr.Eval
import NoteQuery.Proofs.Number.Natural
import NoteQuery.Proofs.Value.NumberText

/-!
# The length of a text and its positions

The length of a text counts units of 16 bits, and its positions are characters. So the length is the
number of positions just where every character is one unit and numbers can name all the positions.
-/

namespace NoteQuery

set_option autoImplicit false

namespace Text

theorem length_le_units16 (cs : List Char) : cs.length ≤ units16 cs := by
  induction cs with
  | nil => exact Nat.le_refl 0
  | cons c cs ih =>
    rw [units16, List.length_cons]
    split <;> omega

theorem units16_eq_length_iff (cs : List Char) :
    units16 cs = cs.length ↔ ∀ c ∈ cs, c.toNat < 0x10000 := by
  induction cs with
  | nil => exact ⟨fun _ => List.forall_mem_nil _, fun _ => rfl⟩
  | cons c cs ih =>
    have hle := length_le_units16 cs
    rw [units16, List.length_cons, List.forall_mem_cons, ← ih]
    split <;> omega

end Text

namespace Value

def positionLimit : Nat := Nat.pow 2 32

theorem positionLimit_lt_octave : positionLimit < Magnitude.octave := by decide

theorem position?_ofNat_of_lt {i : Nat} (h : i < positionLimit) : position? (ofNat i) = some i := by
  have hlimit : i < Magnitude.wholeLimit := Nat.lt_trans h (by decide)
  rw [ofNat, position?, Binary64.toNat?_ofNat hlimit, Option.filter_some]
  exact if_pos (decide_eq_true h)

theorem position?_ofNat_of_le {i : Nat} (h : positionLimit ≤ i) : position? (ofNat i) = none := by
  rw [ofNat, position?, Option.filter_eq_none_iff]
  intro k hk hlt
  have hk' : k < positionLimit := of_decide_eq_true hlt
  have heq : i = k := Binary64.eq_of_toNat?_ofNat (Nat.lt_trans hk' positionLimit_lt_octave) hk
  omega

theorem toText_number_ne_length (n : Binary64) : (number n).toText ≠ "length" := by
  intro h
  have hchars : (String.ofList n.chars).toList = "length".toList := congrArg String.toList h
  rw [String.toList_ofList] at hchars
  cases n with
  | nan => cases hchars
  | infinity negative => cases negative <;> cases hchars
  | finite negative m =>
    obtain ⟨k, minus, htext, -, -⟩ := Binary64.exists_numeral_chars negative m
    obtain ⟨c, r, hcr, hc⟩ := k.exists_chars_eq_cons
    rw [htext, hcr] at hchars
    cases minus with
    | true => cases hchars
    | false =>
      cases hchars
      cases hc

variable {s : String} {key : Value} {i : Nat}

theorem itemAt_text_of_position? (h : key.position? = some i) :
    (text s).itemAt key = .ok ((s.toList[i]?.map fun c => text c.toString).getD absent) := by
  simp only [itemAt, h]

theorem itemAt_text_of_position?_eq_none (h : key.position? = none) (hname : key.toText ≠ "length") :
    (text s).itemAt key = .ok absent := by
  simp only [itemAt, h, property, if_neg hname]

theorem itemAt_text_of_lt (h : i < s.toList.length) (hlimit : i < positionLimit) :
    (text s).itemAt (ofNat i) = .ok (text s.toList[i].toString) := by
  rw [itemAt_text_of_position? (position?_ofNat_of_lt hlimit), List.getElem?_eq_getElem h,
    Option.map_some, Option.getD_some]

theorem itemAt_text_of_not_lt (h : ¬i < min s.toList.length positionLimit) :
    (text s).itemAt (ofNat i) = .ok absent := by
  obtain hlimit | hlimit := Nat.lt_or_ge i positionLimit
  · have hbeyond : s.toList.length ≤ i := by omega
    rw [itemAt_text_of_position? (position?_ofNat_of_lt hlimit), List.getElem?_eq_none hbeyond,
      Option.map_none, Option.getD_none]
  · exact itemAt_text_of_position?_eq_none (position?_ofNat_of_le hlimit) (toText_number_ne_length _)

theorem itemAt_text_eq_absent_iff :
    (text s).itemAt (ofNat i) = .ok absent ↔ ¬i < min s.toList.length positionLimit := by
  refine ⟨fun habsent hlt => ?_, itemAt_text_of_not_lt⟩
  rw [itemAt_text_of_lt (by omega) (by omega)] at habsent
  cases habsent

end Value

namespace Expr

def lengthOf (o : Expr) : Expr := .member o "length"

def itemOf (o : Expr) (i : Nat) : Expr := .index o (.literal (.number (.ofNat i)))

/-- The length is the number of positions that hold something, and the texts at them, none of
them empty, make up the text. -/
def LengthTells (env : Environment) (o : Expr) (s : String) : Prop :=
  ∃ (x : Binary64) (n : Nat), o.lengthOf.eval env = .ok (.number x) ∧ x.toNat? = some n ∧
    {i : Nat | (o.itemOf i).eval env ≠ .ok .absent}.encard = n ∧
    ∃ ts : List String, ts.length = n ∧
      (∀ i t, ts[i]? = some t → (o.itemOf i).eval env = .ok (.text t) ∧ t ≠ "") ∧ String.join ts = s

variable {env : Environment} {o : Expr} {s : String}

theorem eval_member {v : Value} (h : o.eval env = .ok v) (name : String) :
    (member o name).eval env = v.property name := by
  rw [eval, h]
  rfl

theorem eval_index {k : Expr} {v w : Value} (h : o.eval env = .ok v) (hk : k.eval env = .ok w) :
    (index o k).eval env = v.itemAt w := by
  rw [eval, h, hk]
  rfl

theorem eval_number (n : Binary64) : (literal (.number n)).eval env = .ok (.number n) := by
  rw [eval, Value.ofLiteral]

theorem eval_lengthOf (h : o.eval env = .ok (.text s)) :
    o.lengthOf.eval env = .ok (.number (.ofNat (Text.units16 s.toList))) := by
  rw [lengthOf, eval_member h, Value.property, if_pos rfl, Value.ofNat]

theorem eval_itemOf (h : o.eval env = .ok (.text s)) (i : Nat) :
    (o.itemOf i).eval env = (Value.text s).itemAt (.ofNat i) := by
  rw [itemOf, eval_index h (eval_number _), Value.ofNat]

theorem encard_positions (h : o.eval env = .ok (.text s)) :
    {i : Nat | (o.itemOf i).eval env ≠ .ok .absent}.encard =
      (min s.toList.length Value.positionLimit : Nat) := by
  have hset : {i : Nat | (o.itemOf i).eval env ≠ .ok .absent} =
      ↑(Finset.range (min s.toList.length Value.positionLimit)) := by
    ext i
    rw [Set.mem_ofPred_eq, eval_itemOf h, ne_eq, Value.itemAt_text_eq_absent_iff, not_not,
      Finset.coe_range, Set.mem_Iio]
  rw [hset, Set.encard_coe_eq_coe_finsetCard, Finset.card_range]

theorem exists_texts (h : o.eval env = .ok (.text s)) (hlimit : s.toList.length ≤ Value.positionLimit) :
    ∃ ts : List String, ts.length = s.toList.length ∧
      (∀ i t, ts[i]? = some t → (o.itemOf i).eval env = .ok (.text t) ∧ t ≠ "") ∧
        String.join ts = s := by
  refine ⟨s.toList.map Char.toString, List.length_map .., fun i t hi => ?_, ?_⟩
  · rw [List.getElem?_map] at hi
    obtain ⟨c, hc, rfl⟩ := Option.map_eq_some_iff.mp hi
    obtain ⟨hlt, rfl⟩ := List.getElem?_eq_some_iff.mp hc
    refine ⟨?_, fun hempty => ?_⟩
    · rw [eval_itemOf h, Value.itemAt_text_of_lt hlt (Nat.lt_of_lt_of_le hlt hlimit)]
    · have hchars : s.toList[i].toString.toList = [] := by
        rw [hempty]
        rfl
      rw [Char.toString_eq_singleton, String.toList_singleton] at hchars
      cases hchars
  · rw [← String.toList_inj, String.toList_join, List.flatMap_map]
    simp only [Char.toString_eq_singleton, String.toList_singleton, List.flatMap_singleton']

theorem lengthTells_iff (h : o.eval env = .ok (.text s)) :
    LengthTells env o s ↔ (∀ c ∈ s.toList, c.toNat < 0x10000) ∧ s.toList.length ≤ 4294967296 := by
  have hpositions := encard_positions h
  have hlength := eval_lengthOf h
  have hle := Text.length_le_units16 s.toList
  rw [← Text.units16_eq_length_iff]
  change _ ↔ _ ∧ s.toList.length ≤ Value.positionLimit
  constructor
  · rintro ⟨x, n, hx, hn, hcount, -⟩
    rw [hlength] at hx
    rw [← Value.number.inj (Except.ok.inj hx)] at hn
    have hmin : n = min s.toList.length Value.positionLimit := by
      rw [hpositions] at hcount
      exact (Nat.cast_inj.mp hcount).symm
    have hunits : Text.units16 s.toList = n := by
      refine Binary64.eq_of_toNat?_ofNat (Nat.lt_of_le_of_lt ?_ Value.positionLimit_lt_octave) hn
      rw [hmin]
      exact Nat.min_le_right _ _
    omega
  · rintro ⟨hunits, hlimit⟩
    rw [hunits] at hlength
    refine ⟨_, s.toList.length, hlength, Binary64.toNat?_ofNat ?_, ?_, exists_texts h hlimit⟩
    · exact Nat.lt_of_le_of_lt hlimit (by decide)
    · rw [hpositions, Nat.min_eq_left hlimit]

/-- A character beyond ASCII is still one unit. -/
theorem lengthTells_iff_accent : LengthTells (.ofRecord [("s", .text "né")]) (.ident "s") "né" :=
  (lengthTells_iff rfl).mpr ⟨(Text.units16_eq_length_iff _).mp (by decide), by decide⟩

/-- One character of two units has a length of two, and nothing stands at the second position. -/
theorem not_lengthTells :
    ¬∀ (env : Environment) (o : Expr) (s : String), o.eval env = .ok (.text s) →
      LengthTells env o s := by
  intro h
  have heval : (ident "s").eval (.ofRecord [("s", .text "😀")]) = .ok (.text "😀") := rfl
  obtain ⟨x, n, hx, hn, -, ts, hcount, hitems, -⟩ := h _ _ _ heval
  have hx2 : Except.ok (Value.number (.ofNat 2)) = Except.ok (Value.number x) :=
    (eval_lengthOf heval).symm.trans hx
  rw [← Value.number.inj (Except.ok.inj hx2), Binary64.toNat?_ofNat (by decide)] at hn
  have hn2 : n = 2 := (Option.some.inj hn).symm
  have hsecond := (hitems 1 _ (List.getElem?_eq_getElem (by omega))).1
  rw [eval_itemOf heval, Value.itemAt_text_of_not_lt (by decide)] at hsecond
  cases hsecond

end Expr

end NoteQuery
