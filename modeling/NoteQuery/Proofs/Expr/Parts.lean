import NoteQuery.Proofs.Expr.Phrase

/-!
# Parts of expressions and phrases

An expression is written by some phrase if and only if every name and every number in it can be written.
-/

namespace NoteQuery.Expr

set_option autoImplicit false

mutual

/-- The expression and all expressions within it. -/
def parts : Expr → List Expr
  | member object name => member object name :: parts object
  | index object key => index object key :: (parts object ++ parts key)
  | call callee args => call callee args :: (parts callee ++ partsOfAll args)
  | unary op operand => unary op operand :: parts operand
  | binary op left right => binary op left right :: (parts left ++ parts right)
  | e => [e]

def partsOfAll : List Expr → List Expr
  | [] => []
  | e :: es => parts e ++ partsOfAll es

end

/-- Whether the name or number at the root of the expression, if there is one, can be written. -/
def RootPrintable : Expr → Prop
  | ident name => IsName name.toList ∧ name ∉ keywords
  | member _ name => IsName name.toList
  | literal (.number x) => ∃ n : Numeral, n.value = x
  | _ => True

def Printable (e : Expr) : Prop := ∀ part ∈ e.parts, part.RootPrintable

mutual

theorem exists_phrase {e : Expr} (h : e.Printable) : ∃ p : Phrase, p.expr = e := by
  cases e with
  | literal l =>
    cases l with
    | text s => exact ⟨.text s, rfl⟩
    | number x =>
      obtain ⟨n, rfl⟩ := h (literal (.number x)) (by simp [parts])
      exact ⟨.number n, rfl⟩
    | bool b => exact ⟨.bool b, rfl⟩
    | null => exact ⟨.null false, rfl⟩
  | ident name =>
    obtain ⟨hname, hkeyword⟩ := h (ident name) (by simp [parts])
    exact ⟨.ident ⟨name, hname⟩ hkeyword, rfl⟩
  | member object name =>
    obtain ⟨hname, hobject⟩ := List.forall_mem_cons.mp h
    obtain ⟨p, rfl⟩ := exists_phrase hobject
    exact ⟨.member p ⟨name, hname⟩, rfl⟩
  | index object key =>
    obtain ⟨hobject, hkey⟩ := List.forall_mem_append.mp (List.forall_mem_cons.mp h).2
    obtain ⟨p, rfl⟩ := exists_phrase hobject
    obtain ⟨q, rfl⟩ := exists_phrase hkey
    exact ⟨.index p q, rfl⟩
  | call callee args =>
    obtain ⟨hcallee, hargs⟩ := List.forall_mem_append.mp (List.forall_mem_cons.mp h).2
    obtain ⟨p, rfl⟩ := exists_phrase hcallee
    obtain ⟨ps, rfl⟩ := exists_phrases hargs
    exact ⟨.call p ps, rfl⟩
  | unary op operand =>
    obtain ⟨p, rfl⟩ := exists_phrase (List.forall_mem_cons.mp h).2
    exact ⟨.unary op false p, rfl⟩
  | binary op left right =>
    obtain ⟨hleft, hright⟩ := List.forall_mem_append.mp (List.forall_mem_cons.mp h).2
    obtain ⟨p, rfl⟩ := exists_phrase hleft
    obtain ⟨q, rfl⟩ := exists_phrase hright
    exact ⟨.binary op false p q, rfl⟩
termination_by structural e

theorem exists_phrases {es : List Expr} (h : ∀ part ∈ partsOfAll es, part.RootPrintable) :
    ∃ ps : List Phrase, Phrase.exprs ps = es := by
  cases es with
  | nil => exact ⟨[], rfl⟩
  | cons e es =>
    obtain ⟨he, hes⟩ := List.forall_mem_append.mp h
    obtain ⟨p, rfl⟩ := exists_phrase he
    obtain ⟨ps, rfl⟩ := exists_phrases hes
    exact ⟨p :: ps, rfl⟩
termination_by structural es

end

namespace Phrase

mutual

theorem printable_expr (p : Phrase) : p.expr.Printable := by
  cases p with
  | number n => exact List.forall_mem_singleton.mpr ⟨n, rfl⟩
  | text s => exact List.forall_mem_singleton.mpr trivial
  | bool b => exact List.forall_mem_singleton.mpr trivial
  | null inFull => exact List.forall_mem_singleton.mpr trivial
  | ident name hname => exact List.forall_mem_singleton.mpr ⟨name.isName, hname⟩
  | group inner => exact printable_expr inner
  | member object name => exact List.forall_mem_cons.mpr ⟨name.isName, printable_expr object⟩
  | index object key =>
    exact List.forall_mem_cons.mpr ⟨trivial,
      List.forall_mem_append.mpr ⟨printable_expr object, printable_expr key⟩⟩
  | call callee args =>
    exact List.forall_mem_cons.mpr ⟨trivial,
      List.forall_mem_append.mpr ⟨printable_expr callee, printable_exprs args⟩⟩
  | unary op inWords operand => exact List.forall_mem_cons.mpr ⟨trivial, printable_expr operand⟩
  | binary op inWords left right =>
    exact List.forall_mem_cons.mpr ⟨trivial,
      List.forall_mem_append.mpr ⟨printable_expr left, printable_expr right⟩⟩
termination_by structural p

theorem printable_exprs (ps : List Phrase) : ∀ part ∈ partsOfAll (exprs ps), part.RootPrintable := by
  cases ps with
  | nil => exact List.forall_mem_nil _
  | cons p ps => exact List.forall_mem_append.mpr ⟨printable_expr p, printable_exprs ps⟩
termination_by structural ps

end

mutual

def parts : Phrase → List Phrase
  | group inner => group inner :: parts inner
  | member object name => member object name :: parts object
  | index object key => index object key :: (parts object ++ parts key)
  | call callee args => call callee args :: (parts callee ++ partsOfAll args)
  | unary op inWords operand => unary op inWords operand :: parts operand
  | binary op inWords left right => binary op inWords left right :: (parts left ++ parts right)
  | p => [p]

def partsOfAll : List Phrase → List Phrase
  | [] => []
  | p :: ps => parts p ++ partsOfAll ps

end

theorem forall_mem_partsOfAll {ps : List Phrase} {P : Phrase → Prop}
    (h : ∀ p ∈ ps, ∀ part ∈ p.parts, P part) :
    ∀ part ∈ partsOfAll ps, P part := by
  induction ps with
  | nil => exact List.forall_mem_nil _
  | cons p ps ih =>
    obtain ⟨hp, hps⟩ := List.forall_mem_cons.mp h
    exact List.forall_mem_append.mpr ⟨hp, ih hps⟩

theorem Stratified.of_mem_parts {p : Phrase} (h : p.Stratified) : ∀ part ∈ p.parts, part.Stratified := by
  induction h with
  | number n => exact List.forall_mem_singleton.mpr (.number n)
  | text s => exact List.forall_mem_singleton.mpr (.text s)
  | bool b => exact List.forall_mem_singleton.mpr (.bool b)
  | null inFull => exact List.forall_mem_singleton.mpr (.null inFull)
  | ident name hname => exact List.forall_mem_singleton.mpr (.ident name hname)
  | group h ih => exact List.forall_mem_cons.mpr ⟨.group h, ih⟩
  | member name h hlevel ih => exact List.forall_mem_cons.mpr ⟨.member name h hlevel, ih⟩
  | index h hlevel hkey ih ihKey =>
    exact List.forall_mem_cons.mpr ⟨.index h hlevel hkey, List.forall_mem_append.mpr ⟨ih, ihKey⟩⟩
  | call h hlevel hargs ih ihArgs =>
    exact List.forall_mem_cons.mpr ⟨.call h hlevel hargs,
      List.forall_mem_append.mpr ⟨ih, forall_mem_partsOfAll ihArgs⟩⟩
  | unary op inWords h hlevel ih => exact List.forall_mem_cons.mpr ⟨.unary op inWords h hlevel, ih⟩
  | binary op inWords hleft hleftLevel hright hrightLevel ihLeft ihRight =>
    exact List.forall_mem_cons.mpr ⟨.binary op inWords hleft hleftLevel hright hrightLevel,
      List.forall_mem_append.mpr ⟨ihLeft, ihRight⟩⟩

end Phrase

theorem exists_phrase_iff {e : Expr} : (∃ p : Phrase, p.expr = e) ↔ e.Printable := by
  constructor
  · rintro ⟨p, rfl⟩
    exact p.printable_expr
  · exact exists_phrase

end NoteQuery.Expr
