import NoteQuery.Expr.Eval
import NoteQuery.Proofs.Expr.Parts

/-!
# One expression in two environments

The results of an expression in two environments are related as soon as its names and its calls
give related results. This holds for every relation between results that is kept when a
computation goes on with them.
-/

namespace NoteQuery.Expr

set_option autoImplicit false

/-- What a call gives for the values of its arguments. -/
def applied (env : Environment) (callee : Expr) (values : List Value) : Except EvalError Value :=
  match callee.namePath.bind (env.callPath? · values) with
  | some result => result
  | none => callee.evalMethod env values

theorem eval_call (env : Environment) (callee : Expr) (args : List Expr) :
    (call callee args).eval env = evalAll env args >>= applied env callee := by
  rw [eval]
  rfl

/-- Same results are related, and so are computations that go on in the same way from related results. -/
structure Preserved (R : ∀ {α : Type}, Except EvalError α → Except EvalError α → Prop) : Prop where
  refl : ∀ {α : Type} (x : Except EvalError α), R x x
  bind : ∀ {α β : Type} {x y : Except EvalError α} {f g : α → Except EvalError β},
    R x y → (∀ a, R (f a) (g a)) → R (x >>= f) (y >>= g)

/-- The names and the calls among the expressions give related results in the two environments. A
call may use that its callee does so as a method. -/
structure Agree (R : ∀ {α : Type}, Except EvalError α → Except EvalError α → Prop)
    (env env' : Environment) (es : List Expr) : Prop where
  lookup : ∀ name, ident name ∈ es → R (env.lookup name) (env'.lookup name)
  applied : ∀ callee args, call callee args ∈ es → ∀ values,
    R (callee.evalMethod env values) (callee.evalMethod env' values) →
      R (callee.applied env values) (callee.applied env' values)

variable {R : ∀ {α : Type}, Except EvalError α → Except EvalError α → Prop} {env env' : Environment}

theorem Agree.mono {es ds : List Expr} (h : Agree R env env' es) (hsub : ds ⊆ es) :
    Agree R env env' ds :=
  ⟨fun name hname => h.lookup name (hsub hname),
    fun callee args hcall => h.applied callee args (hsub hcall)⟩

mutual

theorem agree_eval (hR : Preserved R) {e : Expr} (h : Agree R env env' e.parts) :
    R (e.eval env) (e.eval env') := by
  cases e with
  | literal l => exact hR.refl _
  | ident name => exact h.lookup name List.mem_cons_self
  | member object name =>
    rw [eval, eval]
    exact hR.bind (agree_eval hR (h.mono (List.subset_cons_self _ _))) fun v => hR.refl _
  | index object key =>
    obtain ⟨hobject, hkey⟩ := List.append_subset.mp (List.subset_cons_self (index object key) _)
    rw [eval, eval]
    refine hR.bind (agree_eval hR (h.mono hobject)) fun v => ?_
    exact hR.bind (agree_eval hR (h.mono hkey)) fun k => hR.refl _
  | call callee args =>
    obtain ⟨hcallee, hargs⟩ := List.append_subset.mp (List.subset_cons_self (call callee args) _)
    rw [eval_call, eval_call]
    refine hR.bind (agree_evalAll hR (h.mono hargs)) fun values => ?_
    exact h.applied callee args List.mem_cons_self values (agree_evalMethod hR (h.mono hcallee) values)
  | unary op operand =>
    rw [eval, eval]
    exact hR.bind (agree_eval hR (h.mono (List.subset_cons_self _ _))) fun v => hR.refl _
  | binary op left right =>
    obtain ⟨hleft, hright⟩ := List.append_subset.mp (List.subset_cons_self (binary op left right) _)
    have hl := agree_eval hR (h.mono hleft)
    have hr := agree_eval hR (h.mono hright)
    cases op with
    | or =>
      rw [eval, eval]
      refine hR.bind hl fun v => ?_
      split
      · exact hR.refl _
      · exact hr
    | and =>
      rw [eval, eval]
      refine hR.bind hl fun v => ?_
      split
      · exact hr
      · exact hR.refl _
    | _ => exact hR.bind hl fun v => hR.bind hr fun w => hR.refl _
termination_by structural e

theorem agree_evalMethod (hR : Preserved R) {callee : Expr} (h : Agree R env env' callee.parts)
    (values : List Value) :
    R (callee.evalMethod env values) (callee.evalMethod env' values) := by
  cases callee with
  | member object name =>
    rw [evalMethod, evalMethod]
    exact hR.bind (agree_eval hR (h.mono (List.subset_cons_self _ _))) fun v => hR.refl _
  | _ => exact hR.refl _

theorem agree_evalAll (hR : Preserved R) {es : List Expr} (h : Agree R env env' (partsOfAll es)) :
    R (evalAll env es) (evalAll env' es) := by
  cases es with
  | nil => exact hR.refl _
  | cons e es =>
    rw [evalAll, evalAll]
    refine hR.bind (agree_eval hR (h.mono (List.subset_append_left _ _))) fun v => ?_
    exact hR.bind (agree_evalAll hR (h.mono (List.subset_append_right _ _))) fun vs => hR.refl _
termination_by structural es

end

end NoteQuery.Expr
