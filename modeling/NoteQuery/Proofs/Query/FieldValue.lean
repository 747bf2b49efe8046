import NoteQuery.Proofs.Expr.Grouping
import NoteQuery.Proofs.Query.FieldIndex
import NoteQuery.Proofs.Value.TextLength

/-!
# What a field shows

A name, or a name with a position in brackets, is a field of a query and also an expression. The
cell of the field shows the value of the expression.
-/

namespace NoteQuery

set_option autoImplicit false

open Text

namespace Text

theorem isBlank_of_isWordChar {c : Char} (h : Expr.isWordChar c = true) : isBlank c = false := by
  have hword : (97 ≤ c.toNat ∧ c.toNat ≤ 122) ∨ (65 ≤ c.toNat ∧ c.toNat ≤ 90) ∨
    c.toNat = 95 ∨ c.toNat = 36 ∨ (48 ≤ c.toNat ∧ c.toNat ≤ 57) := by
    rw [Expr.isWordChar, Bool.or_eq_true] at h
    rcases h with h | h
    · rcases Expr.isWordStart_iff.mp h with h | h | rfl | rfl
      · exact .inl h
      · exact .inr (.inl h)
      · exact .inr (.inr (.inl rfl))
      · exact .inr (.inr (.inr (.inl rfl)))
    · exact .inr (.inr (.inr (.inr (Decimal.isDigit_iff.mp h))))
  exact not_isBlank_of_visible (by omega) (by omega)

end Text

namespace Expr

theorem parse_ident {k : String} (hname : IsName k.toList) (hkey : k ∉ keywords) :
    parse k = .ok (.ident k) := by
  refine parse_eq_ok_iff.mpr ⟨.ident ⟨k, hname⟩ hkey, .ident _ hkey, rfl, ?_⟩
  apply spelled_singleton (.word hname)
  intro c hc
  cases hc

/-- An expression in brackets behind a name is the key of an index. -/
theorem parse_index {k key : String} {e : Expr} (hname : IsName k.toList) (hkey : k ∉ keywords)
    (h : parse key = .ok e) :
    parse (k ++ "[" ++ key ++ "]") = .ok (.index (.ident k) e) := by
  obtain ⟨p, hp, rfl, hspelled⟩ := parse_eq_ok_iff.mp h
  refine parse_eq_ok_iff.mpr ⟨.index (.ident ⟨k, hname⟩ hkey) p,
    .index (.ident _ hkey) (Nat.le_succ 7) hp, rfl, ?_⟩
  have htext : (k ++ "[" ++ key ++ "]").toList = k.toList ++ '[' :: (key.toList ++ [']']) := by
    simp [String.toList_append]
  rw [htext]
  have hclose : Spelled [.symbol .closeBracket] [']'] :=
    spelled_singleton (.symbol .closeBracket) (fun hs => nomatch hs)
  have hopen : Spelled (.symbol .openBracket :: (p.tokens ++ [.symbol .closeBracket]))
      ('[' :: (key.toList ++ [']'])) :=
    .cons (List.forall_mem_nil _) (.symbol .openBracket) (fun hs => nomatch hs)
      (hspelled.append hclose rfl (by decide))
  refine .cons (List.forall_mem_nil _) (.word hname) ?_ hopen
  intro c hc
  cases hc
  rfl

theorem IsName.isWordChar {cs : List Char} (h : IsName cs) : ∀ c ∈ cs, isWordChar c = true := by
  obtain ⟨c, r, rfl, hc, hr⟩ := h
  intro d hd
  rcases List.mem_cons.mp hd with rfl | hd
  · exact isWordChar_of_isWordStart hc
  · exact hr d hd

end Expr

namespace Field

variable {k : String} (hname : Expr.IsName k.toList)
include hname

theorem not_isBlank_of_mem_name : ∀ c ∈ k.toList, isBlank c = false :=
  fun c hc => isBlank_of_isWordChar (hname.isWordChar c hc)

theorem openBracket_not_mem_name : '[' ∉ k.toList := by
  intro hmem
  cases hname.isWordChar _ hmem

theorem ofText_name : ofText k = ⟨k, k, .whole⟩ := by
  rw [ofText, ofChars]
  simp only [trim_of_not_isBlank (not_isBlank_of_mem_name hname),
    cutAt?_of_not_mem (openBracket_not_mem_name hname), String.ofList_toList]

theorem ofText_element {digits : String} {n : Nat} (hdigits : Decimal.Writes digits n)
    (hn : n < Nat.pow 2 64) :
    ofText (k ++ "[" ++ digits ++ "]") = ⟨k ++ "[" ++ digits ++ "]", k, .element n⟩ := by
  have htext : (k ++ "[" ++ digits ++ "]").toList = k.toList ++ '[' :: (digits.toList ++ [']']) := by
    simp [String.toList_append]
  have htrim : trim (k.toList ++ '[' :: (digits.toList ++ [']'])) =
      k.toList ++ '[' :: (digits.toList ++ [']']) := by
    apply trim_of_not_isBlank
    intro c hc
    simp only [List.mem_append, List.mem_cons, List.not_mem_nil, or_false] at hc
    rcases hc with hc | rfl | hc | rfl
    · exact not_isBlank_of_mem_name hname c hc
    · rfl
    · exact hdigits.not_isBlank c hc
    · rfl
  have hindex : (digits.toList ++ [']']).takeWhile (· != ']') = digits.toList := by
    apply takeWhile_ne_append
    intro hmem
    cases hdigits.isDigit _ hmem
  rw [ofText, ofChars, htext, htrim, cutAt?_append (openBracket_not_mem_name hname)]
  simp only [hindex, trim_of_not_isBlank hdigits.not_isBlank,
    trim_of_not_isBlank (not_isBlank_of_mem_name hname),
    selectorOf_eq_element_iff.mpr ⟨hdigits, hn⟩, String.ofList_toList, ← htext]

end Field

namespace Value

/-- A small whole number is a position, however it is written. -/
theorem position?_number {n : Nat} (h : n < Nat.pow 2 32) :
    position? (.number (Decimal.toBinary64 false ⟨n, 0⟩)) = some n := by
  rw [Decimal.toBinary64_natural]
  exact position?_ofNat_of_lt h

end Value

namespace Expr

theorem parse_digits {digits : String} {n : Nat} (h : Decimal.Writes digits n) :
    parse digits = .ok (.literal (.number (Decimal.toBinary64 false ⟨n, 0⟩))) := by
  have hparse := parse_numeral ⟨digits.toList, [], none, h.ne_nil, h.isDigit, List.forall_mem_nil _⟩
  simp only [Numeral.chars, Numeral.fractionChars, Numeral.powerChars, List.append_nil, Numeral.value,
    Numeral.decimal, String.ofList_toList, h.ofDigits_eq] at hparse
  exact hparse

theorem evalText_ident {r : Record} {k : String} {v : Value} (hname : IsName k.toList)
    (hkey : k ∉ keywords) (hv : r.get? k = some v) : evalText (.ofRecord r) k = .ok v := by
  rw [evalText, parse_ident hname hkey]
  simp [eval, Environment.lookup, Environment.ofRecord, hv, Except.bind, bind]

theorem evalText_index {r : Record} {k : String} {items : List Value} (hname : IsName k.toList)
    (hkey : k ∉ keywords) (hv : r.get? k = some (.sequence items)) {digits : String} {n : Nat}
    (hdigits : Decimal.Writes digits n) (hn : n < Nat.pow 2 32) :
    evalText (.ofRecord r) (k ++ "[" ++ digits ++ "]") = .ok (items[n]?.getD .absent) := by
  rw [evalText, parse_index hname hkey (parse_digits hdigits)]
  simp [eval, Environment.lookup, Environment.ofRecord, hv, Except.bind, bind,
    Value.ofLiteral, Value.itemAt, Value.position?_number hn]

end Expr

namespace Field

theorem cell_shows_value {r : Record} {k : String} {v : Value} (hname : Expr.IsName k.toList)
    (hkey : k ∉ Expr.keywords) (hv : r.get? k = some v) :
    (Expr.evalText (.ofRecord r) k = .ok v ∧ resolve r (ofText k) = cell v) ∧
    ∀ items, v = .sequence items → ∀ n, n ≤ 4294967295 → Decimal.Writes (toString n) n ∧
      ∀ digits, Decimal.Writes digits n →
        Expr.evalText (.ofRecord r) (k ++ "[" ++ digits ++ "]") = .ok (items[n]?.getD .absent) ∧
        resolve r (ofText (k ++ "[" ++ digits ++ "]")) = cell (items[n]?.getD .absent) := by
  refine ⟨⟨Expr.evalText_ident hname hkey hv, ?_⟩, ?_⟩
  · simp [ofText_name hname, resolve, value?, hv]
  · rintro items rfl n hn
    have hposition : n < Nat.pow 2 32 := Nat.lt_succ_of_le hn
    refine ⟨Decimal.writes_toString n, fun digits hdigits => ⟨?_, ?_⟩⟩
    · exact Expr.evalText_index hname hkey hv hdigits hposition
    · rw [ofText_element hname hdigits (Nat.lt_trans hposition (by decide))]
      simp only [resolve, value?, hv, Option.bind_some, Value.element?]
      cases items[n]? <;> rfl

theorem cell_shows_value_days :
    Expr.evalText (.ofRecord [("days", .sequence [.text "2024-01-05"])]) "days[0]" =
      .ok (.text "2024-01-05") ∧
    resolve [("days", .sequence [.text "2024-01-05"])] (ofText "days[0]") = "January 05, 2024" ∧
    resolve [("days", .sequence [.text "2024-01-05"])] (ofText "days[7]") = "" := by
  have hname : Expr.IsName "days".toList := Expr.isName_cons rfl rfl
  have hdays : Record.get? [("days", .sequence [.text "2024-01-05"])] "days" = some _ := rfl
  have hshows := (cell_shows_value hname (by decide) hdays).2 _ rfl
  obtain ⟨heval, hfirst⟩ := (hshows 0 (Nat.zero_le _)).2 "0" (Decimal.writes_toString 0)
  obtain ⟨-, hbeyond⟩ := (hshows 7 (by omega)).2 "7" (Decimal.writes_toString 7)
  exact ⟨heval, hfirst, hbeyond⟩

end Field

end NoteQuery
