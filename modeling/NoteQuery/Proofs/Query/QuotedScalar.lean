import NoteQuery.Proofs.Calendar.Refusal
import NoteQuery.Proofs.Value.NumberText

/-!
# Numbers in quotes

The text of a number is no date: behind the digits at its start stands a point or a
power, and never a mark between the parts of a date. So a number or a boolean shows the
same cell when it is given as a text.
-/

namespace NoteQuery

set_option autoImplicit false

open Text
open NoteQuery.Expr (Numeral)

namespace Expr.Numeral

theorem head?_behind_whole (n : Numeral) :
    ∀ c ∈ (n.fractionChars ++ n.powerChars).head?, c ∈ ['.', 'e', 'E'] := by
  intro c hc
  by_cases hfraction : n.fraction = []
  · rw [fractionChars, hfraction, List.nil_append] at hc
    cases hpower : n.power with
    | none =>
      rw [powerChars, hpower] at hc
      cases hc
    | some p =>
      rw [powerChars, hpower] at hc
      cases hc
      obtain h | h := p.mark_eq_or <;> simp [h]
  · rw [fractionChars_of_ne_nil hfraction] at hc
    cases hc
    exact List.mem_cons_self

theorem dropWhile_isDigit_chars (n : Numeral) :
    n.chars.dropWhile Decimal.isDigit = n.fractionChars ++ n.powerChars := by
  have hmarks : ∀ c ∈ ['.', 'e', 'E'], Decimal.isDigit c = false := by simp [Decimal.isDigit]
  rw [chars, List.append_assoc]
  exact dropWhile_append_of_head n.isDigit_of_mem_whole fun c hc => hmarks c (n.head?_behind_whole c hc)

theorem after?_mark_of_digits? {n : Numeral} {mark : Char}
    (hmark : mark = '-' ∨ mark = '/') {least : Nat} {most : Option Nat} {k : Nat} {rest : List Char}
    (h : Calendar.digits? least most n.chars = some (k, rest)) :
    after? [mark] rest = none := by
  have hdigit : Decimal.isDigit mark = false := by obtain rfl | rfl := hmark <;> rfl
  have hother : mark ∉ ['.', 'e', 'E'] := by obtain rfl | rfl := hmark <;> decide
  rw [after?_eq_none_iff]
  rintro ⟨r, rfl⟩
  obtain hc | hc := Calendar.head?_of_digits? h mark rfl
  · rw [hc] at hdigit
    cases hdigit
  · rw [dropWhile_isDigit_chars] at hc
    exact hother (n.head?_behind_whole mark hc)

theorem any_isBlank_chars (n : Numeral) : n.chars.any isBlank = false := by
  rw [List.any_eq_false]
  intro c hc
  rw [Bool.not_eq_true]
  obtain hdigit | hmark := n.isDigit_or_of_mem_chars hc
  · exact Decimal.not_isBlank_of_isDigit hdigit
  · simp only [List.mem_cons, List.not_mem_nil, or_false] at hmark
    obtain rfl | rfl | rfl | rfl | rfl := hmark <;> rfl

end Expr.Numeral

namespace Date

open Calendar

theorem ofChars?_numeral (n : Numeral) : ofChars? n.chars = none := by
  obtain ⟨c, r, hcr, hc⟩ := n.exists_chars_eq_cons
  have hblank := n.any_isBlank_chars
  rw [hcr] at hblank ⊢
  refine ofChars?_eq_none_of_not_isLetter (not_isLetter_of_isDigit hc) hblank ?_
  intro mark hmark y rest hyear
  rw [year?_of_isDigit hc, ← hcr, Option.map_eq_some_iff] at hyear
  obtain ⟨read, hread, heq⟩ := hyear
  cases heq
  exact Numeral.after?_mark_of_digits? hmark hread

theorem ofChars?_minus_numeral (n : Numeral) : ofChars? ('-' :: n.chars) = none := by
  refine ofChars?_eq_none_of_not_isLetter rfl n.any_isBlank_chars ?_
  intro mark hmark y rest hyear
  rw [year?, trimStart_cons_of_neg rfl] at hyear
  obtain ⟨read, hread, heq⟩ := Option.map_eq_some_iff.mp hyear
  cases heq
  exact Numeral.after?_mark_of_digits? hmark hread

theorem ofChars?_infinity (negative : Bool) : ofChars? (Binary64.infinity negative).chars = none := by
  cases negative with
  | false => exact ofChars?_eq_none_of_isLetter rfl rfl rfl rfl
  | true =>
    refine ofChars?_eq_none_of_not_isLetter rfl rfl ?_
    intro mark _ y rest hyear
    cases hyear

theorem ofText?_toText (n : Binary64) : ofText? n.toText = none := by
  rw [ofText?, Binary64.toText, String.toList_ofList]
  cases n with
  | nan => exact ofChars?_eq_none_of_isLetter rfl rfl rfl rfl
  | infinity negative => exact ofChars?_infinity negative
  | finite negative m =>
    obtain ⟨k, minus, hchars, -, -⟩ := Binary64.exists_numeral_chars negative m
    rw [hchars]
    cases minus with
    | true => exact ofChars?_minus_numeral k
    | false => exact ofChars?_numeral k

theorem ofText?_bool (b : Bool) : ofText? (Value.bool b).toText = none := by
  cases b <;> exact ofChars?_eq_none_of_isLetter rfl rfl rfl rfl

end Date

namespace Field

theorem cell_text_of_ofText?_eq_none {s : String} (h : Date.ofText? s = none) : cell (.text s) = s := by
  rw [cell_text, h, Option.map_none, Option.getD_none]

/-- Given as a text, a number or a boolean is no date and shows the same cell. -/
theorem cell_of_quoted_scalar : (∀ n : Binary64, Date.ofText? n.toText = none ∧
      cell (.text (Value.number n).toText) = cell (.number n) ∧ cell (.number n) = n.toText) ∧
    ∀ b : Bool, cell (.text (Value.bool b).toText) = cell (.bool b) ∧
      cell (.bool b) = if b then "true" else "false" := by
  constructor
  · intro n
    have hdate : Date.ofText? n.toText = none := Date.ofText?_toText n
    have hshown : cell (.number n) = n.toText := rfl
    have hquoted : cell (.text n.toText) = n.toText := cell_text_of_ofText?_eq_none hdate
    exact ⟨hdate, hquoted.trans hshown.symm, hshown⟩
  · intro b
    have hquoted : cell (.text (Value.bool b).toText) = (Value.bool b).toText :=
      cell_text_of_ofText?_eq_none (Date.ofText?_bool b)
    refine ⟨hquoted.trans rfl, ?_⟩
    cases b <;> rfl

end Field

end NoteQuery
