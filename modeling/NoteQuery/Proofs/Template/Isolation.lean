import NoteQuery.Proofs.Expr.Agreement
import NoteQuery.Template.Clock

/-!
# What a template sees

The environment of templates holds no values, only the date helpers. So an expression that calls none of
them has the value that it has for a record without fields, and its result is the same at every instant.
-/

namespace NoteQuery

set_option autoImplicit false

namespace Expr

variable {α β : Type} {env env' : Environment}

/-- The results are the same value, or none of them is a value. -/
def SameValue (x y : Except EvalError α) : Prop := x.toOption = y.toOption

theorem toOption_bind (x : Except EvalError α) (f : α → Except EvalError β) :
    (x >>= f).toOption = x.toOption.bind fun a => (f a).toOption := by
  cases x <;> rfl

theorem toOption_eq_some_iff {x : Except EvalError α} {a : α} : x.toOption = some a ↔ x = .ok a := by
  cases x with
  | error e => exact ⟨nofun, nofun⟩
  | ok b => simp [Except.toOption]

theorem SameValue.ok_iff {x y : Except EvalError α} (h : SameValue x y) (a : α) :
    x = .ok a ↔ y = .ok a := by
  rw [← toOption_eq_some_iff, h, toOption_eq_some_iff]

theorem preserved_sameValue : Preserved SameValue where
  refl _ := rfl
  bind {_ _ x y f g} hxy hfg := by
    have hrest : (fun a => (f a).toOption) = fun a => (g a).toOption := funext hfg
    rw [SameValue, toOption_bind, toOption_bind, hxy, hrest]

theorem preserved_eq : Preserved Eq where
  refl _ := rfl
  bind hxy hfg := by rw [hxy, funext hfg]

def helperPaths : List (List String) :=
  ["now", "today", "tomorrow", "yesterday", "getCurrentWeek"].map fun name => ["tp", "date", name]

/-- No call in the expression has the path of a helper as its callee. -/
def CallsNoHelper (e : Expr) : Prop :=
  ∀ callee args, call callee args ∈ e.parts → ∀ path ∈ helperPaths, callee.namePath ≠ some path

theorem toOption_lookup {name : String} (h : env.value? name = none) :
    (env.lookup name).toOption = none := by
  rw [Environment.lookup, h]
  rfl

/-- Without values for names, no path of names has a value. -/
theorem toOption_eval_of_namePath (henv : ∀ name, env.value? name = none) {e : Expr} {path : List String}
    (hpath : e.namePath = some path) : (e.eval env).toOption = none := by
  fun_induction namePath e generalizing path with
  | case1 name =>
    rw [eval]
    exact toOption_lookup (henv name)
  | case2 object name ih =>
    obtain ⟨front, hfront, -⟩ := Option.map_eq_some_iff.mp hpath
    rw [eval, toOption_bind, ih hfront, Option.bind_none]
  | case3 => cases hpath

/-- Without values for names and without a helper at its path, a call by a path fails. -/
theorem toOption_applied_of_namePath (henv : ∀ name, env.value? name = none) {callee : Expr}
    {path : List String}
    (hpath : callee.namePath = some path) {values : List Value} (hcall : env.call? path values = none) :
    (callee.applied env values).toOption = none := by
  rw [applied, hpath, Option.bind_some, Environment.callPath?, hcall]
  dsimp only
  split
  · rename_i heq
    split at heq
    · cases heq
      rfl
    · cases heq
  · cases callee with
    | member object name =>
      obtain ⟨front, hfront, -⟩ := Option.map_eq_some_iff.mp hpath
      rw [evalMethod, toOption_bind, toOption_eval_of_namePath henv hfront, Option.bind_none]
    | _ => rfl

theorem applied_of_namePath_eq_none {callee : Expr} (hpath : callee.namePath = none)
    (values : List Value) :
    callee.applied env values = callee.evalMethod env values := by
  rw [applied, hpath, Option.bind_none]

theorem applied_congr {callee : Expr} {values : List Value}
    (hpath : ∀ path, callee.namePath = some path →
      env.callPath? path values = env'.callPath? path values)
    (hmethod : callee.evalMethod env values = callee.evalMethod env' values) :
    callee.applied env values = callee.applied env' values := by
  have hcall : callee.namePath.bind (env.callPath? · values) =
    callee.namePath.bind (env'.callPath? · values) :=
    Option.bind_congr hpath
  rw [applied, applied, hcall, hmethod]

end Expr

namespace Instant

theorem lookup_environment (now : Instant) (name : String) :
    now.environment.lookup name = .error (if name == "tp" then .namespaceAsValue name
      else .undefined name) := rfl

theorem helper?_eq_none (now : Instant) {name : String} {args : List Value}
    (h : ["tp", "date", name] ∉ Expr.helperPaths) :
    now.helper? name args = none := by
  simp only [Expr.helperPaths, List.map_cons, List.map_nil, List.mem_cons, List.cons.injEq,
    List.not_mem_nil, true_and, and_true, or_false, not_or] at h
  obtain ⟨hnow, htoday, htomorrow, hyesterday, hweek⟩ := h
  rw [helper?, if_neg hnow, if_neg htoday, if_neg htomorrow, if_neg hyesterday, if_neg hweek]

theorem call?_eq_none (now : Instant) {path : List String} {args : List Value}
    (h : path ∉ Expr.helperPaths) :
    now.environment.call? path args = none := by
  simp only [environment]
  split
  · split
    · rename_i hroot
      obtain ⟨rfl, rfl⟩ := hroot
      exact now.helper?_eq_none h
    · rfl
  · rfl

end Instant

namespace Expr

variable {e : Expr}

theorem CallsNoHelper.not_mem (h : e.CallsNoHelper) {callee : Expr} {args : List Expr}
    (hcall : call callee args ∈ e.parts)
    {path : List String} (hpath : callee.namePath = some path) : path ∉ helperPaths :=
  fun hmem => h callee args hcall path hmem hpath

theorem CallsNoHelper.sameValue (h : e.CallsNoHelper) (now : Instant) :
    SameValue (e.eval now.environment) (e.eval (.ofRecord .empty)) := by
  apply agree_eval preserved_sameValue
  constructor
  · intro name _
    rw [SameValue, toOption_lookup rfl, toOption_lookup rfl]
  · intro callee args hcall values hmethod
    cases hpath : callee.namePath with
    | none => rwa [applied_of_namePath_eq_none hpath, applied_of_namePath_eq_none hpath]
    | some path =>
      have hnone : now.environment.call? path values = none := now.call?_eq_none (h.not_mem hcall hpath)
      rw [SameValue, toOption_applied_of_namePath (fun _ => rfl) hpath hnone,
        toOption_applied_of_namePath (fun _ => rfl) hpath rfl]

theorem CallsNoHelper.eval_eq (h : e.CallsNoHelper) (now later : Instant) :
    e.eval now.environment = e.eval later.environment := by
  apply agree_eval preserved_eq
  constructor
  · intro name _
    rw [now.lookup_environment, later.lookup_environment]
  · intro callee args hcall values hmethod
    apply applied_congr _ hmethod
    intro path hpath
    have hmem := h.not_mem hcall hpath
    rw [Environment.callPath?, Environment.callPath?, now.call?_eq_none hmem, later.call?_eq_none hmem]
    rfl

theorem eval_sees_only_helpers (h : e.CallsNoHelper) (now : Instant) :
    (∀ v, e.eval now.environment = .ok v ↔ e.eval (.ofRecord .empty) = .ok v) ∧
    ∀ later : Instant, e.eval now.environment = e.eval later.environment :=
  ⟨(h.sameValue now).ok_iff, h.eval_eq now⟩

/-- `'ab'.includes('b') or tp.now()` has a value at two instants: a text has its methods, and behind
a value that decides nothing is called. -/
theorem eval_sees_only_helpers_includes :
    (binary .or (call (member (literal (.text "ab")) "includes") [literal (.text "b")])
      (call (member (ident "tp") "now") [])).eval
        (Instant.environment ⟨⟨2024, 2, 29, by decide⟩, 23, 59, 60⟩) = .ok (.bool true) ∧
    (binary .or (call (member (literal (.text "ab")) "includes") [literal (.text "b")])
      (call (member (ident "tp") "now") [])).eval
        (Instant.environment ⟨⟨-44, 3, 15, by decide⟩, 0, 0, 0⟩) = .ok (.bool true) := by
  have hcalls : CallsNoHelper
    (binary .or (call (member (literal (.text "ab")) "includes") [literal (.text "b")])
      (call (member (ident "tp") "now") [])) := by
    intro callee args hcall path hpath
    simp only [parts, partsOfAll, List.mem_cons, List.mem_append, List.not_mem_nil, or_false,
      false_or, reduceCtorEq, call.injEq] at hcall
    obtain ⟨rfl, -⟩ | ⟨rfl, -⟩ := hcall
    · nofun
    · revert path
      decide
  have hsees := eval_sees_only_helpers hcalls ⟨⟨2024, 2, 29, by decide⟩, 23, 59, 60⟩
  have hvalue := (hsees.1 (.bool true)).mpr rfl
  exact ⟨hvalue, (hsees.2 _).symm.trans hvalue⟩

end Expr

end NoteQuery
