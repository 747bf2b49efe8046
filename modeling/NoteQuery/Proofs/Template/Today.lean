import NoteQuery.Proofs.Template.Days
import NoteQuery.Proofs.Template.Tokens

/-!
# Two ways to write today

A template writes the day as a format of tokens or by a helper. The two texts differ in the year only:
the helper gives it four digits at least, and a plus behind year 9999, where the token gives it bare.
-/

namespace NoteQuery

set_option autoImplicit false

open Text

namespace Calendar

theorem toList_padded_eq_iff {width : Nat} (n : Nat) :
    (padded (width + 2) n).toList = Nat.toDigits 10 n ↔ Nat.pow 10 (width + 1) ≤ n := by
  have hfits : (Nat.toDigits 10 n).length ≤ width + 1 ↔ n < Nat.pow 10 (width + 1) :=
    Nat.length_toDigits_le_iff (by decide) (by omega)
  rw [toList_padded, List.append_left_eq_self, List.replicate_eq_nil_iff]
  omega

theorem toString_eq_yearText_iff (y : Int) :
    toString y = yearText y ↔ y ≤ -1000 ∨ (1000 ≤ y ∧ y ≤ 9999) := by
  have hpadded : Nat.toDigits 10 y.natAbs = (padded 4 y.natAbs).toList ↔ 1000 ≤ y.natAbs :=
    eq_comm.trans (toList_padded_eq_iff y.natAbs)
  have hpower : Nat.pow 10 4 = 10000 := rfl
  rw [← String.toList_inj, toList_toString_int]
  obtain ⟨hy, htext⟩ | ⟨hy, htext⟩ | ⟨hy, hfour, htext⟩ := toList_yearText y
  · rw [htext, if_pos hy, List.singleton_append, List.cons.injEq, hpadded, eq_self, true_and]
    omega
  · rw [htext, if_neg (by omega), List.nil_append]
    refine ⟨fun hplus => ?_, by omega⟩
    have hdigit : Decimal.isDigit '+' = true :=
      Nat.isDigit_of_mem_toDigits (by decide) (by decide) (hplus ▸ List.mem_cons_self : '+' ∈
        Nat.toDigits 10 y.natAbs)
    cases hdigit
  · rw [htext, if_neg (by omega), List.nil_append, hpadded]
    omega

end Calendar

namespace Instant

variable (now : Instant)

theorem format_isoDay : now.format "YYYY-MM-DD".toList =
    (toString now.date.year).toList ++ '-' ::
      ((Calendar.padded 2 now.date.month).toList ++ '-' ::
        (Calendar.padded 2 now.date.day).toList) := by
  have hparts : Apart tokenLetters [("YYYY", ['-']), ("MM", ['-']), ("DD", [])] :=
    ⟨by decide, by simp [tokenLetters], by decide⟩
  have htext := now.format_chunks (by decide) (List.forall_mem_nil _) hparts
  simpa [chunks, valueOf, tokens, List.lookup_cons] using htext

def nowCall (format : String) : Expr :=
  .call (.member (.member (.ident "tp") "date") "now") [.literal (.text format)]

theorem eval_nowCall (format : String) :
    (nowCall format).eval now.environment = .ok (.text (String.ofList (now.format format.toList))) := by
  have hcall : now.environment.callPath? ["tp", "date", "now"] [.text format] =
      some (.ok (.text (String.ofList (now.format format.toList)))) := rfl
  simp [nowCall, Expr.eval, Expr.evalAll, Expr.namePath, bind, Except.bind, pure, Except.pure,
    Value.ofLiteral, hcall]

theorem evalText_now : Expr.evalText now.environment "tp.date.now(\"YYYY-MM-DD\")" =
    .ok (.text (String.ofList (now.format "YYYY-MM-DD".toList))) := by
  have hsource : Expr.ofChars? "tp.date.now(\"YYYY-MM-DD\")".toList =
    some (nowCall "YYYY-MM-DD") := by cbv
  rw [Expr.evalText, Expr.parse_eq_ok_iff_ofChars?.mpr hsource]
  exact now.eval_nowCall "YYYY-MM-DD"

theorem format_eq_isoText_iff : String.ofList (now.format "YYYY-MM-DD".toList) = now.date.isoText ↔
    toString now.date.year = Calendar.yearText now.date.year := by
  rw [← String.toList_inj, String.toList_ofList, format_isoDay, Date.toList_isoText,
    List.append_left_inj, String.toList_inj]

theorem now_writes_today_iff :
    ∃ s t, Expr.evalText now.environment "tp.date.now(\"YYYY-MM-DD\")" = .ok (.text s) ∧
    Expr.evalText now.environment "tp.date.today()" = .ok (.text t) ∧
    (s = t ↔ now.date.year ≤ -1000 ∨ (1000 ≤ now.date.year ∧ now.date.year ≤ 9999)) :=
  ⟨_, _, now.evalText_now, now.evalText_today,
    now.format_eq_isoText_iff.trans (Calendar.toString_eq_yearText_iff now.date.year)⟩

theorem not_now_writes_today :
    ¬∀ now : Instant, Expr.evalText now.environment "tp.date.now(\"YYYY-MM-DD\")" =
      Expr.evalText now.environment "tp.date.today()" := by
  intro h
  have hsame := h ⟨⟨7, 1, 2, by decide⟩, 0, 0, 0⟩
  rw [evalText_now, evalText_today] at hsame
  have hyear := (format_eq_isoText_iff _).mp (Value.text.inj (Except.ok.inj hsame))
  exact absurd hyear (by decide)

end Instant

end NoteQuery
