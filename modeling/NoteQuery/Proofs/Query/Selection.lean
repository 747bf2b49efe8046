import Mathlib.Data.List.Basic
import Mathlib.Tactic.Tauto
import NoteQuery.Proofs.Expr.Grouping
import NoteQuery.Proofs.Expr.Locality
import NoteQuery.Query.Run

/-!
# Which notes a query selects

Conditions make an algebra of notes: connectives select what both, either or none of their operands
select, where a note on which the first operand has no value is never selected. New fields of a note
take nothing from what is selected.
-/

namespace NoteQuery

set_option autoImplicit false

namespace Record

theorem get?_insert_of_ne {r : Record} {key other : String} (h : other ≠ key) (value : Value) :
    (r.insert key value).get? other = r.get? other := by
  have hkey : (other == key) = false := beq_eq_false_iff_ne.mpr h
  fun_induction insert r key value with
  | case1 => simp [get?, List.lookup_cons, hkey]
  | case2 => simp [get?, List.lookup_cons, hkey]
  | case3 => simp [get?, List.lookup_cons, hkey]
  | case4 k v rest _ _ ih =>
    rw [get?, get?] at ih ⊢
    rw [List.lookup_cons, List.lookup_cons, ih]

theorem get?_insert_of_get? {r : Record} {key : String} (hnew : r.get? key = none)
    (value : Value) {other : String}
    {v : Value} (h : r.get? other = some v) : (r.insert key value).get? other = some v := by
  have hne : other ≠ key := by
    rintro rfl
    rw [hnew] at h
    cases h
  rw [get?_insert_of_ne hne, h]

end Record

namespace Condition

variable {c d : String} {e f : Expr}

theorem holds_ofText_iff (hc : Expr.parse c = .ok e) (r : Record) :
    (ofText c).holds r = true ↔ ∃ v, e.eval (.ofRecord r) = .ok v ∧ v.isTruthy = true := by
  have hevaluate : (ofText c).evaluate r = (e.eval (.ofRecord r)).map Value.isTruthy := by
    rw [evaluate, ofText, hc]
    rfl
  rw [holds, hevaluate]
  cases e.eval (.ofRecord r) with
  | error err => simp [Except.map]
  | ok v => simp [Except.map]

theorem exists_eval_of_holds (hc : Expr.parse c = .ok e) {r : Record} (h : (ofText c).holds r = true) :
    ∃ v, e.eval (.ofRecord r) = .ok v := by
  obtain ⟨v, hv, -⟩ := (holds_ofText_iff hc r).mp h
  exact ⟨v, hv⟩

theorem holds_ofText_eq_false (hc : ∀ e, Expr.parse c ≠ .ok e) (r : Record) :
    (ofText c).holds r = false := by
  cases hparse : Expr.parse c with
  | error err =>
    rw [holds, evaluate, ofText, hparse]
    rfl
  | ok e => exact absurd hparse (hc e)

theorem holds_conjunction_iff (hc : Expr.parse c = .ok e) (hd : Expr.parse d = .ok f) (r : Record) :
    (ofText ("(" ++ c ++ ") and (" ++ d ++ ")")).holds r = true ↔
      (ofText c).holds r = true ∧ (ofText d).holds r = true := by
  rw [holds_ofText_iff (Expr.parse_conjunction hc hd), holds_ofText_iff hc,
    holds_ofText_iff hd, Expr.eval]
  cases e.eval (.ofRecord r) with
  | error err => simp [bind, Except.bind]
  | ok v => cases hv : v.isTruthy <;> simp [bind, Except.bind, pure, Except.pure, hv]

theorem holds_disjunction_iff (hc : Expr.parse c = .ok e) (hd : Expr.parse d = .ok f) (r : Record) :
    (ofText ("(" ++ c ++ ") or (" ++ d ++ ")")).holds r = true ↔
      (ofText c).holds r = true ∨ (ofText d).holds r = true ∧ ∃ v, e.eval (.ofRecord r) = .ok v := by
  rw [holds_ofText_iff (Expr.parse_disjunction hc hd), holds_ofText_iff hc,
    holds_ofText_iff hd, Expr.eval]
  cases e.eval (.ofRecord r) with
  | error err => simp [bind, Except.bind]
  | ok v => cases hv : v.isTruthy <;> simp [bind, Except.bind, pure, Except.pure, hv]

theorem holds_negation_iff (hc : Expr.parse c = .ok e) (r : Record) :
    (ofText ("not (" ++ c ++ ")")).holds r = true ↔
      (ofText c).holds r = false ∧ ∃ v, e.eval (.ofRecord r) = .ok v := by
  rw [← Bool.not_eq_true, holds_ofText_iff (Expr.parse_negation hc), holds_ofText_iff hc, Expr.eval]
  cases e.eval (.ofRecord r) with
  | error err => simp [bind, Except.bind]
  | ok v => simp [bind, Except.bind, pure, Except.pure, Value.unary, Value.isTruthy]

/-- With more fields in the record a condition that held still holds. -/
theorem holds_of_extends {c : Condition} {r r' : Record}
    (hfields : ∀ key v, r.get? key = some v → r'.get? key = some v)
    (h : c.holds r = true) : c.holds r' = true := by
  rw [holds, evaluate] at h ⊢
  cases hexpr : c.expr with
  | error err =>
    rw [hexpr] at h
    cases h
  | ok e =>
    rw [hexpr] at h
    have hsame : Expr.AgreesBut r (e.eval (.ofRecord r)) (e.eval (.ofRecord r')) :=
      Expr.agreesBut_eval fun name _ => hfields name
    cases heval : e.eval (.ofRecord r) with
    | error err =>
      simp only [bind, Except.bind, heval] at h
      cases h
    | ok v =>
      simp only [bind, Except.bind, heval] at h
      simp only [bind, Except.bind, hsame.eq_of_ok heval]
      exact h

end Condition

namespace Query

def selected (q : Query) (notes : List Note) : List Note := notes.filter q.selects

/-- The notes that give a row when the query has a given condition instead of its own. -/
def selectedWhere (q : Query) (condition : String) (notes : List Note) : List Note :=
  { q with condition := some condition }.selected notes

theorem rows_run (q : Query) (notes : List Note) :
    (q.run notes).rows = (q.selected notes).map q.row := rfl

theorem rows_run_of_selects {q : Query} {n : Note} (h : q.selects n = true) (before after : List Note) :
    (q.run (before ++ n :: after)).rows = (q.run before).rows ++ q.row n :: (q.run after).rows := by
  rw [rows_run, selected, List.filter_append, List.filter_cons_of_pos h, List.map_append, List.map_cons]
  rfl

theorem selects_where_iff {fields : List Field} {tag c : String} {n : Note} :
    selects ⟨fields, tag, some c⟩ n = true ↔
    n.hasTag tag = true ∧ (Condition.ofText c).holds n.record = true := by
  simp [selects]

theorem mem_selectedWhere_iff {q : Query} {c : String} {notes : List Note} {n : Note} :
    n ∈ q.selectedWhere c notes ↔ n ∈ notes ∧ n.hasTag q.tag = true ∧
      (Condition.ofText c).holds n.record = true := by
  rw [selectedWhere, selected, List.mem_filter, selects_where_iff]

theorem selectedWhere_eq_filter {q : Query} {c : String} {notes : List Note} {p : Note → Bool}
    (h : ∀ n ∈ notes, n ∈ q.selectedWhere c notes ↔ p n = true) :
    q.selectedWhere c notes = notes.filter p := by
  refine List.filter_congr fun n hn => Bool.eq_iff_iff.mpr ?_
  rw [← h n hn, selectedWhere, selected, List.mem_filter]
  exact (and_iff_right hn).symm

open Classical in
/-- A condition and its negation divide the notes with the tag on which the condition has a value. -/
theorem selectedWhere_append_negation_perm {c : String} {e : Expr}
    (hc : Expr.parse c = .ok e) (q : Query) (notes : List Note) :
    (q.selectedWhere c notes ++ q.selectedWhere ("not (" ++ c ++ ")") notes).Perm
      (notes.filter fun n => n.hasTag q.tag = true ∧ ∃ v, e.eval (.ofRecord n.record) = .ok v) := by
  let evaluated := notes.filter fun n => n.hasTag q.tag = true ∧ ∃ v, e.eval (.ofRecord n.record) = .ok v
  have hholds : q.selectedWhere c notes = evaluated.filter fun n =>
    (Condition.ofText c).holds n.record := by
    rw [List.filter_filter]
    refine selectedWhere_eq_filter fun n hn => ?_
    have hvalue := Condition.exists_eval_of_holds hc (r := n.record)
    rw [mem_selectedWhere_iff, Bool.and_eq_true, decide_eq_true_iff]
    tauto
  have hnot : q.selectedWhere ("not (" ++ c ++ ")") notes =
      evaluated.filter fun n => !(Condition.ofText c).holds n.record := by
    rw [List.filter_filter]
    refine selectedWhere_eq_filter fun n hn => ?_
    rw [mem_selectedWhere_iff, Bool.and_eq_true, decide_eq_true_iff,
      Condition.holds_negation_iff hc, Bool.not_eq_true']
    tauto
  rw [hholds, hnot]
  exact List.filter_append_perm _ evaluated

open Classical in
theorem selectedWhere_connectives (q : Query) (notes : List Note) {c d : String} {e f : Expr}
    (hc : Expr.parse c = .ok e) (hd : Expr.parse d = .ok f) :
    (∀ x, ({ q with condition := some x }.run notes).rows = (q.selectedWhere x notes).map q.row) ∧
    q.selectedWhere ("(" ++ c ++ ") and (" ++ d ++ ")") notes =
      notes.filter (fun n => n ∈ q.selectedWhere c notes ∧ n ∈ q.selectedWhere d notes) ∧
    q.selectedWhere ("(" ++ c ++ ") or (" ++ d ++ ")") notes =
      notes.filter (fun n => n ∈ q.selectedWhere c notes ∨
        n ∈ q.selectedWhere d notes ∧ ∃ v, e.eval (.ofRecord n.record) = .ok v) ∧
    (q.selectedWhere c notes).Disjoint (q.selectedWhere ("not (" ++ c ++ ")") notes) ∧
    (q.selectedWhere c notes ++ q.selectedWhere ("not (" ++ c ++ ")") notes).Perm
      (notes.filter fun n => n.hasTag q.tag = true ∧ ∃ v, e.eval (.ofRecord n.record) = .ok v) ∧
    ∀ x, (∀ e, Expr.parse x ≠ .ok e) → q.selectedWhere x notes = [] := by
  refine ⟨fun x => rfl, selectedWhere_eq_filter fun n hn => ?_, selectedWhere_eq_filter fun n hn => ?_,
    fun n hholds hnot => ?_, ?_, fun x hx => ?_⟩
  · rw [decide_eq_true_iff, mem_selectedWhere_iff, mem_selectedWhere_iff, mem_selectedWhere_iff,
      Condition.holds_conjunction_iff hc hd]
    tauto
  · rw [decide_eq_true_iff, mem_selectedWhere_iff, mem_selectedWhere_iff, mem_selectedWhere_iff,
      Condition.holds_disjunction_iff hc hd]
    tauto
  · obtain ⟨-, -, hholds⟩ := mem_selectedWhere_iff.mp hholds
    obtain ⟨-, -, hnot⟩ := mem_selectedWhere_iff.mp hnot
    rw [((Condition.holds_negation_iff hc n.record).mp hnot).1] at hholds
    cases hholds
  · exact selectedWhere_append_negation_perm hc q notes
  · rw [List.eq_nil_iff_forall_not_mem]
    intro n hn
    obtain ⟨-, -, hholds⟩ := mem_selectedWhere_iff.mp hn
    rw [Condition.holds_ofText_eq_false hx] at hholds
    cases hholds

open Classical in
/-- The note has no value for the left operand, so that it does not count that the right one holds. -/
theorem selectedWhere_connectives_missing_field :
    Expr.parse "done" = .ok (.ident "done") ∧ Expr.parse "due" = .ok (.ident "due") ∧
    ⟨"n", "n.md", [("due", .bool true), ("tags", .text "p")]⟩ ∈
      selectedWhere ⟨[], "p", none⟩ "due" [⟨"n", "n.md", [("due", .bool true), ("tags", .text "p")]⟩] ∧
    selectedWhere ⟨[], "p", none⟩ "(done) or (due)"
      [⟨"n", "n.md", [("due", .bool true), ("tags", .text "p")]⟩] = [] := by
  have hdone : Expr.parse "done" = .ok (.ident "done") := Expr.parse_eq_ok_iff_ofChars?.mpr (by cbv)
  have hdue : Expr.parse "due" = .ok (.ident "due") := Expr.parse_eq_ok_iff_ofChars?.mpr (by cbv)
  have hmissing : (Expr.ident "done").eval (.ofRecord [("due", .bool true), ("tags", .text "p")]) =
      .error (.undefined "done") := rfl
  refine ⟨hdone, hdue, mem_selectedWhere_iff.mpr ⟨List.mem_cons_self, rfl, ?_⟩, ?_⟩
  · exact (Condition.holds_ofText_iff hdue _).mpr ⟨.bool true, rfl, rfl⟩
  · refine (selectedWhere_connectives ⟨[], "p", none⟩ _ hdone hdue).2.2.1.trans
      (List.filter_eq_nil_iff.mpr ?_)
    refine List.forall_mem_singleton.mpr fun h => ?_
    rcases of_decide_eq_true h with h | ⟨-, v, hv⟩
    · obtain ⟨v, hv⟩ := Condition.exists_eval_of_holds hdone (mem_selectedWhere_iff.mp h).2.2
      rw [hmissing] at hv
      cases hv
    · rw [hmissing] at hv
      cases hv

/-- New fields other than the tags take no note from what a query selects. -/
theorem selects_of_extends {q : Query} {n : Note} {r : Record}
    (hfields : ∀ key v, n.record.get? key = some v → r.get? key = some v)
    (htags : r.get? "tags" = n.record.get? "tags") (h : q.selects n = true) :
    q.selects { n with record := r } = true := by
  rw [selects, Bool.and_eq_true] at h ⊢
  obtain ⟨htag, hcondition⟩ := h
  refine ⟨?_, ?_⟩
  · rw [Note.hasTag, Note.tags] at htag ⊢
    rwa [htags]
  · cases hc : q.condition with
    | none => rfl
    | some c =>
      rw [hc] at hcondition
      exact Condition.holds_of_extends hfields hcondition

theorem eval_agrees_and_row_kept :
    (∀ (e : Expr) (r r' : Record), (∀ name, .ident name ∈ e.parts → ∀ v, r.get? name = some v →
      r'.get? name = some v) →
      (∃ name, r.get? name = none ∧ e.eval (.ofRecord r) = .error (.undefined name)) ∨
        e.eval (.ofRecord r) = e.eval (.ofRecord r')) ∧
    ∀ (q : Query) (n : Note) (r : Record), (∀ key v, n.record.get? key = some v → r.get? key = some v) →
      r.get? "tags" = n.record.get? "tags" → q.selects n = true → ∀ before after,
        (q.run (before ++ n :: after)).rows = (q.run before).rows ++ q.row n :: (q.run after).rows ∧
        (q.run (before ++ { n with record := r } :: after)).rows =
          (q.run before).rows ++ q.row { n with record := r } :: (q.run after).rows := by
  refine ⟨fun e r r' h => Expr.agreesBut_eval h, fun q n r hfields htags h before after => ⟨?_, ?_⟩⟩
  · exact rows_run_of_selects h before after
  · exact rows_run_of_selects (selects_of_extends hfields htags h) before after

theorem eval_agrees_and_row_kept_new_field :
    (Expr.unary .not (.ident "done")).eval
      (.ofRecord (Record.insert [("done", .bool true), ("tags", .text "p")] "due"
      (.bool false))) = .ok (.bool false) ∧
    (run ⟨[⟨"due", "due", .whole⟩], "p", some "done"⟩
      [⟨"n", "n.md", Record.insert [("done", .bool true), ("tags", .text "p")] "due" (.bool false)⟩]).rows =
      [["[[n]]", "false"]] := by
  have hnew : Record.get? [("done", .bool true), ("tags", .text "p")] "due" = none := rfl
  refine ⟨?_, ?_⟩
  · have heval : (Expr.unary .not (.ident "done")).eval
      (.ofRecord [("done", .bool true), ("tags", .text "p")]) = .ok (.bool false) := rfl
    have hagrees := eval_agrees_and_row_kept.1 (.unary .not (.ident "done")) _ _ fun name _ v =>
      Record.get?_insert_of_get? hnew (.bool false)
    exact Expr.AgreesBut.eq_of_ok hagrees heval
  · have hdone : Expr.parse "done" = .ok (.ident "done") := Expr.parse_eq_ok_iff_ofChars?.mpr (by cbv)
    have hselects : selects ⟨[⟨"due", "due", .whole⟩], "p", some "done"⟩
        ⟨"n", "n.md", [("done", .bool true), ("tags", .text "p")]⟩ = true :=
      selects_where_iff.mpr ⟨rfl, (Condition.holds_ofText_iff hdone _).mpr ⟨.bool true, rfl, rfl⟩⟩
    exact (eval_agrees_and_row_kept.2 _ _ _ (fun key v => Record.get?_insert_of_get? hnew (.bool false))
      (Record.get?_insert_of_ne (by decide) _) hselects [] []).2

end Query

end NoteQuery
