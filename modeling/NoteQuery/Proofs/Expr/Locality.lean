import NoteQuery.Proofs.Expr.Agreement

/-!
# What an expression sees of a record

The value of an expression depends only on the fields that it names. So a record in which these fields
are the same gives the same result, unless the expression failed because one of them was missing.
-/

namespace NoteQuery.Expr

set_option autoImplicit false

variable {α β : Type} {r r' : Record}

/-- The results are the same, unless the first one is that a name is no field of the record. -/
def AgreesBut (r : Record) (x y : Except EvalError α) : Prop :=
  (∃ name, r.get? name = none ∧ x = .error (.undefined name)) ∨ x = y

/-- The names of the expressions that are fields of the first record are fields of the
second one with the same value. -/
def SameFields (es : List Expr) (r r' : Record) : Prop :=
  ∀ name, .ident name ∈ es → ∀ v, r.get? name = some v → r'.get? name = some v

theorem AgreesBut.refl (x : Except EvalError α) : AgreesBut r x x := .inr rfl

theorem AgreesBut.bind {x y : Except EvalError α} {f g : α → Except EvalError β} (h : AgreesBut r x y)
    (hfg : ∀ a, AgreesBut r (f a) (g a)) : AgreesBut r (x >>= f) (y >>= g) := by
  rcases h with ⟨name, hname, rfl⟩ | rfl
  · exact .inl ⟨name, hname, rfl⟩
  · cases x with
    | error e => exact .refl _
    | ok a => exact hfg a

theorem AgreesBut.eq_of_ok {x y : Except EvalError α} (h : AgreesBut r x y) {a : α}
    (hx : x = .ok a) : y = .ok a := by
  rcases h with ⟨name, -, herror⟩ | rfl
  · rw [herror] at hx
    cases hx
  · exact hx

theorem SameFields.mono {es ds : List Expr} (h : SameFields es r r') (hsub : ds ⊆ es) :
    SameFields ds r r' :=
  fun name hname => h name (hsub hname)

theorem agreesBut_lookup {name : String} (h : SameFields [.ident name] r r') :
    AgreesBut r ((Environment.ofRecord r).lookup name) ((Environment.ofRecord r').lookup name) := by
  rw [Environment.lookup, Environment.lookup]
  cases hr : r.get? name with
  | none => exact .inl ⟨name, hr, by simp only [Environment.ofRecord, hr]; rfl⟩
  | some v =>
    have hr' : r'.get? name = some v := h name List.mem_cons_self v hr
    simp only [Environment.ofRecord, hr, hr']
    exact .refl _

theorem preserved_agreesBut (r : Record) : Preserved (AgreesBut r) := ⟨.refl, .bind⟩

theorem agreesBut_eval {e : Expr} (h : SameFields e.parts r r') :
    AgreesBut r (e.eval (.ofRecord r)) (e.eval (.ofRecord r')) := by
  apply agree_eval (preserved_agreesBut r)
  constructor
  · intro name hname
    exact agreesBut_lookup (h.mono (List.cons_subset.mpr ⟨hname, List.nil_subset _⟩))
  · intro callee args _ values hmethod
    -- A record has no helpers, so that what can be called by its path is the same for all records.
    have hpath : callee.namePath.bind ((Environment.ofRecord r).callPath? · values) =
        callee.namePath.bind ((Environment.ofRecord r').callPath? · values) := rfl
    rw [applied, applied, hpath]
    split
    · exact .refl _
    · exact hmethod

end NoteQuery.Expr
