import NoteQuery.Proofs.Expr.Parts
import NoteQuery.Proofs.Expr.Reading

/-!
# Printing expressions

A phrase is printed with the parentheses that it has and those that the levels of its operators
require, in a layout that chooses the space around the tokens and the quotes of the texts. What is
printed reads as the expression of the phrase.
-/

namespace NoteQuery.Expr

set_option autoImplicit false

namespace Phrase

/-- The phrase where a level is required, in parentheses if it does not hold together so tightly. -/
def atLevel (level : Nat) (p : Phrase) : Phrase := if level ≤ p.level then p else group p

mutual

/-- The phrase with the parentheses that its operators require. -/
def parenthesized : Phrase → Phrase
  | group inner => group (parenthesized inner)
  | member object name => member (atLevel 7 (parenthesized object)) name
  | index object key => index (atLevel 7 (parenthesized object)) (parenthesized key)
  | call callee args => call (atLevel 7 (parenthesized callee)) (parenthesizedAll args)
  | unary op inWords operand => unary op inWords (atLevel 6 (parenthesized operand))
  | binary op inWords left right =>
    binary op inWords (atLevel op.level (parenthesized left))
      (atLevel (op.level + 1) (parenthesized right))
  | p => p

def parenthesizedAll : List Phrase → List Phrase
  | [] => []
  | p :: ps => parenthesized p :: parenthesizedAll ps

end

theorem expr_atLevel (level : Nat) (p : Phrase) : (p.atLevel level).expr = p.expr := by
  rw [atLevel]
  split <;> rfl

theorem level_atLevel {level : Nat} (hlevel : level ≤ 8) (p : Phrase) :
    level ≤ (p.atLevel level).level := by
  rw [atLevel]
  split
  · assumption
  · exact hlevel

theorem Stratified.atLevel {p : Phrase} (h : p.Stratified) (level : Nat) :
    (p.atLevel level).Stratified := by
  rw [Phrase.atLevel]
  split
  · exact h
  · exact .group h

mutual

theorem expr_parenthesized (p : Phrase) : p.parenthesized.expr = p.expr := by
  cases p with
  | group inner => exact expr_parenthesized inner
  | member object name => rw [parenthesized, expr, expr, expr_atLevel, expr_parenthesized object]
  | index object key =>
    rw [parenthesized, expr, expr, expr_atLevel, expr_parenthesized object, expr_parenthesized key]
  | call callee args =>
    rw [parenthesized, expr, expr, expr_atLevel, expr_parenthesized callee, exprs_parenthesizedAll args]
  | unary op inWords operand => rw [parenthesized, expr, expr, expr_atLevel, expr_parenthesized operand]
  | binary op inWords left right =>
    rw [parenthesized, expr, expr, expr_atLevel, expr_atLevel, expr_parenthesized left,
      expr_parenthesized right]
  | _ => rfl
termination_by structural p

theorem exprs_parenthesizedAll (ps : List Phrase) : exprs (parenthesizedAll ps) = exprs ps := by
  cases ps with
  | nil => rfl
  | cons p ps => rw [parenthesizedAll, exprs, exprs, expr_parenthesized p, exprs_parenthesizedAll ps]
termination_by structural ps

end

mutual

theorem stratified_parenthesized (p : Phrase) : p.parenthesized.Stratified := by
  cases p with
  | number n => exact .number n
  | text s => exact .text s
  | bool b => exact .bool b
  | null inFull => exact .null inFull
  | ident name hname => exact .ident name hname
  | group inner => exact .group (stratified_parenthesized inner)
  | member object name =>
    exact .member name ((stratified_parenthesized object).atLevel 7) (level_atLevel (by decide) _)
  | index object key =>
    exact .index ((stratified_parenthesized object).atLevel 7) (level_atLevel (by decide) _)
      (stratified_parenthesized key)
  | call callee args =>
    exact .call ((stratified_parenthesized callee).atLevel 7) (level_atLevel (by decide) _)
      (stratified_parenthesizedAll args)
  | unary op inWords operand =>
    exact .unary op inWords ((stratified_parenthesized operand).atLevel 6) (level_atLevel (by decide) _)
  | binary op inWords left right =>
    have hlevel : op.level < 6 := BinaryOp.level_lt op
    exact .binary op inWords ((stratified_parenthesized left).atLevel op.level)
      (level_atLevel (by omega) _)
      ((stratified_parenthesized right).atLevel (op.level + 1)) (level_atLevel (by omega) _)
termination_by structural p

theorem stratified_parenthesizedAll (ps : List Phrase) : ∀ p ∈ parenthesizedAll ps, p.Stratified := by
  cases ps with
  | nil => exact List.forall_mem_nil _
  | cons p ps =>
    exact List.forall_mem_cons.mpr ⟨stratified_parenthesized p, stratified_parenthesizedAll ps⟩
termination_by structural ps

end

theorem parenthesizedAll_eq_self {ps : List Phrase} (h : ∀ p ∈ ps, p.parenthesized = p) :
    parenthesizedAll ps = ps := by
  induction ps with
  | nil => rfl
  | cons p ps ih =>
    obtain ⟨hp, hps⟩ := List.forall_mem_cons.mp h
    rw [parenthesizedAll, hp, ih hps]

theorem Stratified.parenthesized_eq_self {p : Phrase} (h : p.Stratified) : p.parenthesized = p := by
  induction h with
  | group _ ih => rw [parenthesized, ih]
  | member name _ hlevel ih => rw [parenthesized, ih, Phrase.atLevel, if_pos hlevel]
  | index _ hlevel _ ih ihKey => rw [parenthesized, ih, ihKey, Phrase.atLevel, if_pos hlevel]
  | call _ hlevel _ ih ihArgs =>
    rw [parenthesized, ih, parenthesizedAll_eq_self ihArgs, Phrase.atLevel, if_pos hlevel]
  | unary op inWords _ hlevel ih => rw [parenthesized, ih, Phrase.atLevel, if_pos hlevel]
  | binary op inWords _ hleftLevel _ hrightLevel ihLeft ihRight =>
    have hright : op.level + 1 ≤ _ := hrightLevel
    rw [parenthesized, ihLeft, ihRight, Phrase.atLevel, Phrase.atLevel, if_pos hleftLevel, if_pos hright]
  | _ => rfl

end Phrase

/-- How tokens are set out: the space before each token and behind the last one, and
the quotes around each text. -/
structure Layout where
  before : Nat → List Char
  after : List Char
  doubleQuotes : Nat → Bool
  isGap_before : ∀ i, IsGap (before i)
  before_ne_nil : ∀ i, 0 < i → before i ≠ []
  isGap_after : IsGap after

def quoteMark (double : Bool) : Char := if double then '"' else '\''

/-- The body of a quoted text, with a backslash before each backslash and each quote
of the kind around the text. -/
def escape (quote : Char) (cs : List Char) : List Char :=
  cs.flatMap fun c => if c = quote ∨ c = '\\' then ['\\', c] else [c]

def Token.chars (double : Bool) : Token → List Char
  | .number digits => digits
  | .text s => quoteMark double :: (escape (quoteMark double) s.toList ++ [quoteMark double])
  | .word name => name.toList
  | .symbol s => s.chars

namespace Layout

/-- The text of tokens of which the first one is the `i`-th. -/
def chars (l : Layout) : Nat → List Token → List Char
  | _, [] => l.after
  | i, t :: ts => l.before i ++ t.chars (l.doubleQuotes i) ++ chars l (i + 1) ts

def print (l : Layout) (p : Phrase) : String := String.ofList (l.chars 0 p.parenthesized.tokens)

end Layout

theorem quoteMark_eq_or (double : Bool) : quoteMark double = '"' ∨ quoteMark double = '\'' := by
  cases double
  · exact .inr rfl
  · exact .inl rfl

theorem unescape_quoteMark (double : Bool) : unescape (quoteMark double) = quoteMark double := by
  cases double <;> rfl

theorem quoted_escape (double : Bool) (cs : List Char) :
    Quoted (quoteMark double) (escape (quoteMark double) cs) cs := by
  induction cs with
  | nil => exact .nil
  | cons c cs ih =>
    rw [escape, List.flatMap_cons]
    split
    · rename_i hc
      have hunescape : unescape c = c := by
        rcases hc with rfl | rfl
        · exact unescape_quoteMark double
        · rfl
      have hquoted : Quoted (quoteMark double) ('\\' :: c :: escape (quoteMark double) cs)
        (unescape c :: cs) := .escaped ih
      rwa [hunescape] at hquoted
    · rename_i hc
      obtain ⟨hquote, hescape⟩ := not_or.mp hc
      exact .plain hquote hescape ih

theorem Spells.spells_chars {t : Token} {lexeme : List Char} (h : Spells t lexeme) (double : Bool) :
    Spells t (t.chars double) := by
  cases h with
  | number n => exact .number n
  | @text _ _ content =>
    have hspells := Spells.text (quoteMark_eq_or double) (quoted_escape double content)
    rwa [Token.chars, String.toList_ofList]
  | word h => exact .word h
  | symbol s => exact .symbol s

theorem stops_of_isSpace {t : Token} {lexeme : List Char} (h : Spells t lexeme) {rest : List Char}
    (hrest : ∀ c ∈ rest.head?, isSpace c = true) : Stops t rest := by
  cases h with
  | number n =>
    intro m hm
    rcases List.prefix_or_prefix_of_prefix hm (List.prefix_append n.chars rest) with
      hprefix | ⟨more, hmore⟩
    · exact hprefix
    · cases more with
      | nil =>
        have hsame : n.chars = m.chars := by rw [← hmore, List.append_nil]
        exact hsame ▸ List.prefix_refl n.chars
      | cons c more =>
        -- A longer numeral would contain the space.
        rw [← hmore, List.prefix_append_right_inj] at hm
        obtain ⟨r, rfl⟩ := hm
        have hspace : isSpace c = false :=
          isSpace_of_isNumeralChar (m.isNumeralChar_of_mem_chars (by simp [← hmore]))
        rw [hrest c rfl] at hspace
        cases hspace
  | text => trivial
  | word => exact fun c hc => isWordChar_of_isSpace (hrest c hc)
  | symbol s =>
    intro _ heq
    have hspace := hrest '=' (by rw [heq]; rfl)
    cases hspace

theorem exists_spells_unaryToken (inWords : Bool) (op : UnaryOp) :
    ∃ lexeme, Spells (unaryToken inWords op) lexeme := by
  cases op
  case not =>
    cases inWords
    · exact ⟨_, .symbol .bang⟩
    · exact ⟨_, .word (isName_cons rfl rfl)⟩
  all_goals exact ⟨_, .symbol _⟩

theorem exists_spells_binaryToken (inWords : Bool) (op : BinaryOp) :
    ∃ lexeme, Spells (binaryToken inWords op) lexeme := by
  cases op
  case or =>
    cases inWords
    · exact ⟨_, .symbol .bars⟩
    · exact ⟨_, .word (isName_cons rfl rfl)⟩
  case and =>
    cases inWords
    · exact ⟨_, .symbol .ampersands⟩
    · exact ⟨_, .word (isName_cons rfl rfl)⟩
  all_goals exact ⟨_, .symbol _⟩

mutual

theorem spellable_tokens (p : Phrase) : Spellable p.tokens := by
  cases p with
  | number n => exact List.forall_mem_singleton.mpr ⟨_, .number n⟩
  | text s =>
    have hspells := Spells.text (.inl rfl) (quoted_escape true s.toList)
    rw [String.ofList_toList] at hspells
    exact List.forall_mem_singleton.mpr ⟨_, hspells⟩
  | bool b => exact List.forall_mem_singleton.mpr ⟨_, .word (by cases b <;> exact isName_cons rfl rfl)⟩
  | null inFull =>
    exact List.forall_mem_singleton.mpr ⟨_, .word (by cases inFull <;> exact isName_cons rfl rfl)⟩
  | ident name hname => exact List.forall_mem_singleton.mpr ⟨_, .word name.isName⟩
  | group inner =>
    exact List.forall_mem_cons.mpr ⟨⟨_, .symbol .openParen⟩,
      List.forall_mem_append.mpr ⟨spellable_tokens inner,
        List.forall_mem_singleton.mpr ⟨_, .symbol .closeParen⟩⟩⟩
  | member object name =>
    exact List.forall_mem_append.mpr ⟨spellable_tokens object,
      List.forall_mem_cons.mpr ⟨⟨_, .symbol .dot⟩, List.forall_mem_singleton.mpr ⟨_, .word name.isName⟩⟩⟩
  | index object key =>
    exact List.forall_mem_append.mpr ⟨spellable_tokens object,
      List.forall_mem_cons.mpr ⟨⟨_, .symbol .openBracket⟩,
      List.forall_mem_append.mpr ⟨spellable_tokens key,
        List.forall_mem_singleton.mpr ⟨_, .symbol .closeBracket⟩⟩⟩⟩
  | call callee args =>
    exact List.forall_mem_append.mpr ⟨spellable_tokens callee,
      List.forall_mem_cons.mpr ⟨⟨_, .symbol .openParen⟩,
      List.forall_mem_append.mpr ⟨spellable_argTokens args,
        List.forall_mem_singleton.mpr ⟨_, .symbol .closeParen⟩⟩⟩⟩
  | unary op inWords operand =>
    exact List.forall_mem_cons.mpr ⟨exists_spells_unaryToken inWords op, spellable_tokens operand⟩
  | binary op inWords left right =>
    exact List.forall_mem_append.mpr ⟨spellable_tokens left,
      List.forall_mem_cons.mpr ⟨exists_spells_binaryToken inWords op, spellable_tokens right⟩⟩
termination_by structural p

theorem spellable_argTokens (ps : List Phrase) : Spellable (Phrase.argTokens ps) := by
  cases ps with
  | nil => exact List.forall_mem_nil _
  | cons p ps => exact List.forall_mem_append.mpr ⟨spellable_tokens p, spellable_moreTokens ps⟩
termination_by structural ps

theorem spellable_moreTokens (ps : List Phrase) : Spellable (Phrase.moreTokens ps) := by
  cases ps with
  | nil => exact List.forall_mem_nil _
  | cons p ps =>
    exact List.forall_mem_cons.mpr ⟨⟨_, .symbol .comma⟩,
      List.forall_mem_append.mpr ⟨spellable_tokens p, spellable_moreTokens ps⟩⟩
termination_by structural ps

end

theorem Layout.head?_chars (l : Layout) {i : Nat} (hi : 0 < i) (ts : List Token) :
    ∀ c ∈ (l.chars i ts).head?, isSpace c = true := by
  intro c hc
  cases ts with
  | nil => exact l.isGap_after c (List.mem_of_mem_head? hc)
  | cons t ts =>
    obtain ⟨d, r, hgap⟩ := List.exists_cons_of_ne_nil (l.before_ne_nil i hi)
    have hcd : d = c := by simpa [chars, hgap] using hc
    exact l.isGap_before i c (by simp [hgap, hcd])

theorem Layout.spelled_chars (l : Layout) {ts : List Token} (h : Spellable ts) (i : Nat) :
    Spelled ts (l.chars i ts) := by
  induction ts generalizing i with
  | nil => exact .nil l.isGap_after
  | cons t ts ih =>
    obtain ⟨lexeme, hspells⟩ := h t List.mem_cons_self
    exact .cons (l.isGap_before i) (hspells.spells_chars (l.doubleQuotes i))
      (stops_of_isSpace hspells (l.head?_chars (Nat.succ_pos i) ts)) (ih h.tail (i + 1))

def Layout.singleSpaced (double : Bool) : Layout where
  before i := if i = 0 then [] else [' ']
  after := []
  doubleQuotes _ := double
  isGap_before i := by
    split
    · exact List.forall_mem_nil _
    · exact List.forall_mem_singleton.mpr rfl
  before_ne_nil i hi := by
    rw [if_neg (Nat.ne_of_gt hi)]
    exact List.cons_ne_nil _ _
  isGap_after := List.forall_mem_nil _

theorem parse_print {e : Expr} (he : e.Printable) :
    (∃ p : Phrase, p.expr = e) ∧ ∀ p : Phrase, p.expr = e →
      (p.Stratified → p.parenthesized = p) ∧ ∀ l : Layout, parse (l.print p) = .ok e := by
  refine ⟨exists_phrase he, ?_⟩
  rintro p rfl
  refine ⟨fun hp => hp.parenthesized_eq_self, fun l => ?_⟩
  refine parse_eq_ok_iff.mpr ⟨p.parenthesized, p.stratified_parenthesized, p.expr_parenthesized, ?_⟩
  rw [Layout.print, String.toList_ofList]
  exact l.spelled_chars (spellable_tokens p.parenthesized) 0

theorem parse_print_negation :
    Printable (.unary .not (.binary .or (.ident "a") (.literal (.text "it's")))) ∧
    parse "not ( a or 'it\\'s' )" =
      .ok (.unary .not (.binary .or (.ident "a") (.literal (.text "it's")))) := by
  have hphrase : (Phrase.unary .not true (.binary .or true (.ident ⟨"a", isName_cons rfl rfl⟩ (by decide))
      (.text "it's"))).expr = .unary .not (.binary .or (.ident "a") (.literal (.text "it's"))) := rfl
  have hprintable := exists_phrase_iff.mp ⟨_, hphrase⟩
  exact ⟨hprintable, ((parse_print hprintable).2 _ hphrase).2 (.singleSpaced false)⟩

end NoteQuery.Expr
