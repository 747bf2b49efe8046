import NoteQuery.Proofs.Calendar.Readback
import NoteQuery.Proofs.Calendar.Succession
import NoteQuery.Proofs.Expr.Reading
import NoteQuery.Template.Clock

/-!
# The days that helpers write

The helpers of the days around an instant write dates in numbers, which are read back as those days.
Each helper has a value at every instant, except where the supported years end.
-/

namespace NoteQuery

set_option autoImplicit false

namespace Instant

/-- The expression of a call of a date helper without arguments. -/
def helperCall (name : String) : Expr := .call (.member (.member (.ident "tp") "date") name) []

/-- The text that a source text has as its value is read as a date. -/
def WritesDay (now : Instant) (source : String) (d : Date) : Prop :=
  ∃ t, Expr.evalText now.environment source = .ok (.text t) ∧ Date.ofText? t = some d

variable (now : Instant) {source : String}

theorem eval_helperCall (name : String) {result : Except EvalError Value}
    (h : now.helper? name [] = some result) :
    (helperCall name).eval now.environment = result := by
  have hcall : now.environment.call? ["tp", "date", name] [] = some result := h
  have hpath : now.environment.callPath? ["tp", "date", name] [] =
    some result := by rw [Environment.callPath?, hcall]
  simp [helperCall, Expr.eval, Expr.evalAll, Expr.namePath, bind, Except.bind, hpath]

theorem evalText_helperCall (name : String) {result : Except EvalError Value}
    (hsource : Expr.ofChars? source.toList = some (helperCall name))
    (h : now.helper? name [] = some result) :
    Expr.evalText now.environment source = result := by
  rw [Expr.evalText, Expr.parse_eq_ok_iff_ofChars?.mpr hsource]
  exact now.eval_helperCall name h

theorem evalText_today : Expr.evalText now.environment "tp.date.today()" = dateValue (some now.date) :=
  now.evalText_helperCall "today" (by cbv) rfl

theorem evalText_tomorrow :
    Expr.evalText now.environment "tp.date.tomorrow()" = dateValue now.date.next? :=
  now.evalText_helperCall "tomorrow" (by cbv) rfl

theorem evalText_yesterday :
    Expr.evalText now.environment "tp.date.yesterday()" = dateValue now.date.previous? :=
  now.evalText_helperCall "yesterday" (by cbv) rfl

variable {now}

theorem writesDay_of_dateValue {d : Date}
    (h : Expr.evalText now.environment source = dateValue (some d)) :
    now.WritesDay source d :=
  ⟨d.isoText, h, Date.ofText?_isoText d⟩

variable (now)

theorem helpers_write_days :
    now.WritesDay "tp.date.today()" now.date ∧
    (now.date = Date.last ∧ Expr.evalText now.environment "tp.date.tomorrow()" = .error .dateOutOfRange ∨
      now.date ≠ Date.last ∧ ∃ e, now.WritesDay "tp.date.tomorrow()" e ∧ now.date ⋖ e ∧
        e.dayNumber = now.date.dayNumber + 1) ∧
    (now.date = Date.first ∧ Expr.evalText now.environment "tp.date.yesterday()" =
      .error .dateOutOfRange ∨
      now.date ≠ Date.first ∧ ∃ e, now.WritesDay "tp.date.yesterday()" e ∧ e ⋖ now.date ∧
        now.date.dayNumber = e.dayNumber + 1) := by
  refine ⟨writesDay_of_dateValue now.evalText_today, ?_, ?_⟩
  · have htomorrow := now.evalText_tomorrow
    cases hnext : now.date.next? with
    | none =>
      rw [hnext] at htomorrow
      exact .inl ⟨Date.next?_eq_none_iff.mp hnext, htomorrow⟩
    | some e =>
      rw [hnext] at htomorrow
      have hcovBy := Date.next?_eq_some_iff.mp hnext
      have hnotLast : now.date ≠ Date.last := fun h => Date.not_last_lt e (h ▸ hcovBy.lt)
      exact .inr ⟨hnotLast, e, writesDay_of_dateValue htomorrow, hcovBy, Date.dayNumber_of_covBy hcovBy⟩
  · have hyesterday := now.evalText_yesterday
    cases hprevious : now.date.previous? with
    | none =>
      rw [hprevious] at hyesterday
      exact .inl ⟨Date.previous?_eq_none_iff.mp hprevious, hyesterday⟩
    | some e =>
      rw [hprevious] at hyesterday
      have hcovBy := Date.previous?_eq_some_iff.mp hprevious
      have hnotFirst : now.date ≠ Date.first := fun h => Date.not_lt_first e (h ▸ hcovBy.lt)
      exact .inr ⟨hnotFirst, e, writesDay_of_dateValue hyesterday, hcovBy,
        Date.dayNumber_of_covBy hcovBy⟩

end Instant

end NoteQuery
