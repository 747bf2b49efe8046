import NoteQuery.Proofs.Expr.Parts
import NoteQuery.Proofs.Expr.Reading

/-!
# What is accepted as an expression

Only spellings of an expression are read as that expression.
-/

namespace NoteQuery.Expr

set_option autoImplicit false

/-- A direct operand of an infix operator, without parentheses around it, holds together at least as
tightly as the operator, and on its right more tightly. -/
theorem Phrase.Stratified.operands {p : Phrase} (h : p.Stratified) {op : BinaryOp} {inWords : Bool}
    {left right : Phrase} (hmem : .binary op inWords left right ∈ p.parts) :
    op.level ≤ left.level ∧ op.level < right.level := by
  cases h.of_mem_parts _ hmem with
  | binary _ _ _ hleftLevel _ hrightLevel => exact ⟨hleftLevel, hrightLevel⟩

/-- The tokens of a text decide which expression it is read as. -/
theorem parse_congr {s s' : String} {ts : List Token} (hs : Spelled ts s.toList)
    (hs' : Spelled ts s'.toList) (e : Expr) : parse s = .ok e ↔ parse s' = .ok e := by
  rw [parse_eq_ok_iff_ofChars?, parse_eq_ok_iff_ofChars?, ofChars?, ofChars?, tokens?_eq_some_iff.mpr hs,
    tokens?_eq_some_iff.mpr hs']

theorem derivation_of_parse {s : String} {e : Expr} (h : parse s = .ok e) :
    (∃ p : Phrase, p.Stratified ∧ p.expr = e ∧ Spelled p.tokens s.toList ∧
      ∀ op inWords left right, .binary op inWords left right ∈ p.parts →
        (∀ op' inWords' l r, left = .binary op' inWords' l r → op.level ≤ op'.level) ∧
        ∀ op' inWords' l r, right = .binary op' inWords' l r → op.level < op'.level) ∧
    (∀ name, .ident name ∈ e.parts → name ∉ keywords) ∧
    ∀ s' e' ts, Spelled ts s.toList → Spelled ts s'.toList → parse s' = .ok e' → e' = e := by
  obtain ⟨p, hp, rfl, hspelled⟩ := parse_eq_ok_iff.mp h
  refine ⟨⟨p, hp, rfl, hspelled, fun op inWords left right hmem => ?_⟩, fun name hname => ?_, ?_⟩
  · obtain ⟨hleft, hright⟩ := hp.operands hmem
    refine ⟨?_, ?_⟩
    · rintro op' inWords' l r rfl
      exact hleft
    · rintro op' inWords' l r rfl
      exact hright
  · exact (p.printable_expr _ hname).2
  · intro s' e' ts hs hs' h'
    have hsame := (parse_congr hs hs' e').mpr h'
    rw [h] at hsame
    cases hsame
    rfl

theorem derivation_of_parse_connectives :
    parse "not a.or||b" = .ok (.binary .or (.unary .not (.member (.ident "a") "or")) (.ident "b")) ∧
    ∃ p : Phrase, p.Stratified ∧
      p.expr = .binary .or (.unary .not (.member (.ident "a") "or")) (.ident "b") ∧
      Spelled p.tokens "not a.or||b".toList := by
  have h : parse "not a.or||b" =
    .ok (.binary .or (.unary .not (.member (.ident "a") "or")) (.ident "b")) :=
    parse_eq_ok_iff_ofChars?.mpr (by cbv)
  obtain ⟨p, hp, hexpr, hspelled, -⟩ := (derivation_of_parse h).1
  exact ⟨h, p, hp, hexpr, hspelled⟩

end NoteQuery.Expr
