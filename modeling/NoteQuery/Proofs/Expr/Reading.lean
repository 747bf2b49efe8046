import NoteQuery.Expr.Eval
import NoteQuery.Proofs.Expr.Phrase

/-!
# What the readers read

The readers of expressions return the expression of a stratified phrase and what follows the
phrase, and they read every stratified phrase. So the texts of an expression are exactly the
spellings of its stratified phrases.
-/

namespace NoteQuery.Expr

set_option autoImplicit false

open Phrase

def Spellable (ts : List Token) : Prop := ∀ t ∈ ts, ∃ lexeme, Spells t lexeme

/-- The tokens start with those of a phrase of at least a level that stands for the
expression, and the rest follows. -/
def Derived (level : Nat) (ts : List Token) (e : Expr) (rest : List Token) : Prop :=
  ∃ p : Phrase, p.Stratified ∧ level ≤ p.level ∧ p.expr = e ∧ ts = p.tokens ++ rest

theorem Spelled.spellable {ts : List Token} {cs : List Char} (h : Spelled ts cs) : Spellable ts := by
  induction h with
  | nil => intro t ht; cases ht
  | cons _ hspells _ _ ih =>
    intro t ht
    rcases List.mem_cons.mp ht with rfl | ht
    · exact ⟨_, hspells⟩
    · exact ih t ht

theorem Spellable.tail {t : Token} {ts : List Token} (h : Spellable (t :: ts)) : Spellable ts :=
  fun u hu => h u (List.mem_cons_of_mem t hu)

theorem Spellable.right {ts us : List Token} (h : Spellable (ts ++ us)) : Spellable us :=
  fun u hu => h u (List.mem_append_right ts hu)

theorem Derived.spellable {level : Nat} {ts rest : List Token} {e : Expr} (h : Derived level ts e rest)
    (hts : Spellable ts) : Spellable rest := by
  obtain ⟨p, -, -, -, rfl⟩ := h
  exact hts.right

theorem Derived.of_le {m n : Nat} {ts rest : List Token} {e : Expr}
    (h : Derived n ts e rest) (hmn : m ≤ n) :
    Derived m ts e rest := by
  obtain ⟨p, hp, hlevel, he, hts⟩ := h
  exact ⟨p, hp, Nat.le_trans hmn hlevel, he, hts⟩

theorem derived_of_operand? {t : Token} {e : Expr} {ts : List Token} (ht : ∃ lexeme, Spells t lexeme)
    (h : operand? t = some e) : Derived 8 (t :: ts) e ts := by
  obtain ⟨lexeme, hspells⟩ := ht
  cases hspells with
  | number n =>
    cases h
    refine ⟨.number n, .number n, Nat.le_refl _, ?_, rfl⟩
    simp only [Phrase.expr, n.binary64_read?_chars, Option.getD_some]
  | @text _ _ content =>
    cases h
    exact ⟨.text (String.ofList content), .text _, Nat.le_refl _, rfl, rfl⟩
  | @word name hname =>
    rw [operand?] at h
    split at h
    · rename_i htrue
      cases h
      exact ⟨.bool true, .bool true, Nat.le_refl _, rfl, by rw [htrue]; rfl⟩
    · split at h
      · rename_i hfalse
        cases h
        exact ⟨.bool false, .bool false, Nat.le_refl _, rfl, by rw [hfalse]; rfl⟩
      · split at h
        · rename_i hnull
          cases h
          rcases hnull with rfl | rfl
          · exact ⟨.null false, .null false, Nat.le_refl _, rfl, rfl⟩
          · exact ⟨.null true, .null true, Nat.le_refl _, rfl, rfl⟩
        · split at h
          · cases h
          · rename_i hkeyword
            cases h
            exact ⟨.ident ⟨name, hname⟩ hkeyword, .ident _ _, Nat.le_refl _, rfl, rfl⟩
  | symbol s => cases h

-- All readers at once, by recursion on the fuel. The loops carry the phrase that they have read so far.
mutual

theorem derived_of_readLevel {fuel level : Nat} {ts rest : List Token} {e : Expr} (hts : Spellable ts)
    (hlevel : level ≤ tightest) (h : readLevel fuel level ts = some (e, rest)) :
    Derived level ts e rest := by
  cases fuel with
  | zero => cases h
  | succ fuel =>
    rw [readLevel] at h
    split at h
    · rename_i hlt
      split at h
      · rename_i left after hleft
        obtain ⟨p, hp, hpLevel, rfl, rfl⟩ := derived_of_readLevel hts hlt hleft
        exact derived_of_readInfix hts.right hlt hp (Nat.le_of_succ_le hpLevel) h
      · cases h
    · exact (derived_of_readUnary hts h).of_le hlevel
termination_by fuel

theorem derived_of_readInfix {fuel level : Nat} {left : Phrase} {ts rest : List Token}
    {e : Expr} (hts : Spellable ts)
    (hlevel : level < tightest) (hleft : left.Stratified) (hleftLevel : level ≤ left.level)
    (h : readInfix fuel level left.expr ts = some (e, rest)) :
    Derived level (left.tokens ++ ts) e rest := by
  cases fuel with
  | zero => cases h
  | succ fuel =>
    rw [readInfix] at h
    split at h
    · cases h
      exact ⟨left, hleft, hleftLevel, rfl, rfl⟩
    · rename_i op after hop
      obtain ⟨t, rfl, ht, hopLevel⟩ : ∃ t, ts = t :: after ∧ binaryOp? t = some op ∧
        op.level = level := by
        cases ts with
        | nil => cases hop
        | cons t ts =>
          rw [infixAt?] at hop
          split at hop
          · rename_i op' hop'
            split at hop
            · cases hop
              exact ⟨t, rfl, hop', ‹_›⟩
            · cases hop
          · cases hop
      split at h
      · rename_i right after' hright
        obtain ⟨q, hq, hqLevel, rfl, rfl⟩ := derived_of_readLevel hts.tail hlevel hright
        obtain ⟨inWords, rfl⟩ := exists_binaryToken_eq ht
        have hp : (Phrase.binary op inWords left q).Stratified :=
          .binary op inWords hleft (hopLevel ▸ hleftLevel) hq (hopLevel ▸ hqLevel)
        have hmore := derived_of_readInfix hts.tail.right hlevel hp (Nat.le_of_eq hopLevel.symm) h
        simpa only [Phrase.tokens, List.append_assoc, List.cons_append] using hmore
      · cases h
termination_by fuel

theorem derived_of_readUnary {fuel : Nat} {ts rest : List Token} {e : Expr} (hts : Spellable ts)
    (h : readUnary fuel ts = some (e, rest)) : Derived tightest ts e rest := by
  cases fuel with
  | zero => cases h
  | succ fuel =>
    cases ts with
    | nil => cases h
    | cons t ts =>
      rw [readUnary] at h
      split at h
      · rename_i op hop
        obtain ⟨⟨operand, after⟩, hoperand, hresult⟩ := Option.map_eq_some_iff.mp h
        cases hresult
        obtain ⟨p, hp, hpLevel, rfl, rfl⟩ := derived_of_readUnary hts.tail hoperand
        obtain ⟨inWords, rfl⟩ := exists_unaryToken_eq hop
        exact ⟨.unary op inWords p, .unary op inWords hp hpLevel, Nat.le_refl _, rfl, rfl⟩
      · split at h
        · rename_i after hoperand
          obtain ⟨p, hp, hpLevel, rfl, htokens⟩ := derived_of_readOperand hts hoperand
          rw [htokens] at hts ⊢
          exact (derived_of_readSuffixes hts.right hp (Nat.le_of_succ_le hpLevel) h).of_le (by decide)
        · cases h
termination_by fuel

theorem derived_of_readOperand {fuel : Nat} {ts rest : List Token} {e : Expr} (hts : Spellable ts)
    (h : readOperand fuel ts = some (e, rest)) : Derived 8 ts e rest := by
  cases fuel with
  | zero => cases h
  | succ fuel =>
    cases ts with
    | nil => cases h
    | cons t ts =>
      rw [readOperand] at h
      split at h
      · rename_i ht
        split at h
        · rename_i inner after hinner
          cases h
          obtain ⟨p, hp, -, rfl, rfl⟩ := derived_of_readLevel hts.tail (Nat.zero_le _) hinner
          exact ⟨.group p, .group hp, Nat.le_refl _, rfl, by simp [Phrase.tokens, ht]⟩
        · cases h
      · obtain ⟨e', he', hresult⟩ := Option.map_eq_some_iff.mp h
        cases hresult
        exact derived_of_operand? (hts t List.mem_cons_self) he'
termination_by fuel

theorem derived_of_readSuffixes {fuel : Nat} {p : Phrase} {ts rest : List Token}
    {e : Expr} (hts : Spellable ts)
    (hp : p.Stratified) (hlevel : 7 ≤ p.level) (h : readSuffixes fuel p.expr ts = some (e, rest)) :
    Derived 7 (p.tokens ++ ts) e rest := by
  rw [readSuffixes.eq_def] at h
  split at h
  · cases h
  · rename_i fuel _ name ts
    obtain ⟨lexeme, hspells⟩ := hts (.word name) (by simp)
    have hname : IsName name.toList := by
      cases hspells
      assumption
    have hmember : (Phrase.member p ⟨name, hname⟩).Stratified := .member _ hp hlevel
    have hmore := derived_of_readSuffixes hts.tail.tail hmember (Nat.le_refl _) h
    simpa only [Phrase.tokens, List.append_assoc, List.cons_append, List.nil_append] using hmore
  · rename_i fuel _ ts
    split at h
    · rename_i key after hkey
      obtain ⟨q, hq, -, rfl, rfl⟩ := derived_of_readLevel hts.tail (Nat.zero_le _) hkey
      have hindex : (Phrase.index p q).Stratified := .index hp hlevel hq
      have hmore := derived_of_readSuffixes hts.tail.right.tail hindex (Nat.le_refl _) h
      simpa only [Phrase.tokens, List.append_assoc, List.cons_append, List.nil_append] using hmore
    · cases h
  · rename_i fuel _ ts
    have hcall : (Phrase.call p []).Stratified := .call hp hlevel (by simp)
    have hmore := derived_of_readSuffixes hts.tail.tail hcall (Nat.le_refl _) h
    simpa only [Phrase.tokens, argTokens, List.append_assoc, List.cons_append,
      List.nil_append] using hmore
  · rename_i fuel _ ts _
    split at h
    · rename_i arg after harg
      obtain ⟨q, hq, -, rfl, rfl⟩ := derived_of_readLevel hts.tail (Nat.zero_le _) harg
      split at h
      · rename_i args after' hargs
        obtain ⟨qs, hqs, rfl, rfl⟩ := derived_of_readArgs hts.tail.right hargs
        have hcall : (Phrase.call p (q :: qs)).Stratified := by
          refine .call hp hlevel fun a ha => ?_
          rcases List.mem_cons.mp ha with rfl | ha
          · exact hq
          · exact hqs a ha
        have hmore := derived_of_readSuffixes hts.tail.right.right.tail hcall (Nat.le_refl _) h
        simpa only [Phrase.tokens, argTokens, List.append_assoc, List.cons_append,
          List.nil_append] using hmore
      · cases h
    · cases h
  · cases h
    exact ⟨p, hp, hlevel, rfl, rfl⟩
termination_by fuel

theorem derived_of_readArgs {fuel : Nat} {ts rest : List Token} {es : List Expr} (hts : Spellable ts)
    (h : readArgs fuel ts = some (es, rest)) :
    ∃ ps : List Phrase, (∀ p ∈ ps, p.Stratified) ∧ exprs ps = es ∧
      ts = moreTokens ps ++ .symbol .closeParen :: rest := by
  rw [readArgs.eq_def] at h
  split at h
  · cases h
  · cases h
    exact ⟨[], by simp, rfl, rfl⟩
  · rename_i fuel ts
    split at h
    · rename_i arg after harg
      obtain ⟨q, hq, -, rfl, rfl⟩ := derived_of_readLevel hts.tail (Nat.zero_le _) harg
      obtain ⟨⟨args, after'⟩, hargs, hresult⟩ := Option.map_eq_some_iff.mp h
      cases hresult
      obtain ⟨qs, hqs, rfl, rfl⟩ := derived_of_readArgs hts.tail.right hargs
      refine ⟨q :: qs, fun a ha => ?_, rfl, by simp [moreTokens]⟩
      rcases List.mem_cons.mp ha with rfl | ha
      · exact hq
      · exact hqs a ha
    · cases h
  · cases h
termination_by fuel

end

/-- What may follow a phrase without being drawn into it: no suffix, and no infix operator of
this level or a tighter one. -/
def Follows (level : Nat) : List Token → Prop
  | [] => True
  | t :: _ => t ≠ .symbol .dot ∧ t ≠ .symbol .openBracket ∧ t ≠ .symbol .openParen ∧
      ∀ op, binaryOp? t = some op → op.level < level

theorem Follows.of_le {m n : Nat} {rest : List Token} (h : Follows m rest) (hmn : m ≤ n) :
    Follows n rest := by
  cases rest with
  | nil => trivial
  | cons t ts =>
    obtain ⟨hdot, hbracket, hparen, hop⟩ := h
    exact ⟨hdot, hbracket, hparen, fun op ht => Nat.lt_of_lt_of_le (hop op ht) hmn⟩

theorem follows_closing {s : Symbol} (hs : s = .closeParen ∨ s = .closeBracket ∨ s = .comma)
    (level : Nat) (rest : List Token) : Follows level (.symbol s :: rest) := by
  rcases hs with rfl | rfl | rfl <;> exact ⟨by decide, by decide, by decide, fun op hop => by cases hop⟩

theorem follows_binaryToken (inWords : Bool) (op : BinaryOp) (rest : List Token) :
    Follows (op.level + 1) (binaryToken inWords op :: rest) := by
  refine ⟨?_, ?_, ?_, fun op' hop' => ?_⟩
  · cases op <;> cases inWords <;> decide
  · cases op <;> cases inWords <;> decide
  · cases op <;> cases inWords <;> decide
  · rw [binaryOp?_binaryToken] at hop'
    cases hop'
    exact Nat.lt_succ_self _

theorem infixAt?_of_follows {level : Nat} {rest : List Token} (h : Follows level rest) :
    infixAt? level rest = none := by
  cases rest with
  | nil => rfl
  | cons t ts =>
    rw [infixAt?]
    split
    · rename_i op hop
      rw [if_neg (Nat.ne_of_lt (h.2.2.2 op hop))]
    · rfl

theorem readSuffixes_of_follows {level : Nat} {rest : List Token} (h : Follows level rest)
    (fuel : Nat) (e : Expr) :
    readSuffixes (fuel + 1) e rest = some (e, rest) := by
  rw [readSuffixes.eq_def]
  split
  · contradiction
  · exact absurd rfl h.1
  · exact absurd rfl h.2.1
  · exact absurd rfl h.2.2.1
  · exact absurd rfl h.2.2.1
  · rfl

/-- The reader of a level reads the phrase whole. Ten calls for a token pay for one
descent through all levels. -/
def ReadsAt (level : Nat) (p : Phrase) : Prop :=
  ∀ fuel rest, 10 * p.tokens.length + 9 ≤ fuel + level → Follows level rest →
    readLevel fuel level (p.tokens ++ rest) = some (p.expr, rest)

/-- The reader of a level comes to where it looks for a further operator of
the level behind the phrase. -/
def LeadsAt (level : Nat) (p : Phrase) : Prop :=
  ∀ fuel rest, 10 * p.tokens.length + 9 ≤ fuel + level + 1 → Follows (level + 1) rest →
    ∃ fuel', fuel ≤ fuel' + p.tokens.length ∧
      readLevel (fuel + 1) level (p.tokens ++ rest) = readInfix fuel' level p.expr rest

/-- The reader of operands comes to where it looks for a further suffix behind the phrase. -/
def LeadsToSuffixes (p : Phrase) : Prop :=
  ∀ fuel rest, 10 * p.tokens.length + 1 ≤ fuel → ∃ fuel', fuel ≤ fuel' + p.tokens.length ∧
    readUnary (fuel + 1) (p.tokens ++ rest) = readSuffixes fuel' p.expr rest

theorem LeadsAt.readsAt {level : Nat} {p : Phrase} (hlevel : level < tightest)
    (h : LeadsAt level p) : ReadsAt level p := by
  intro fuel rest hfuel hrest
  have hlt : level < 6 := hlevel
  obtain ⟨fuel, rfl⟩ : ∃ n, fuel = n + 1 := Nat.exists_eq_add_one.mpr (by omega)
  obtain ⟨fuel', hfuel', hread⟩ := h fuel rest (by omega) (hrest.of_le (Nat.le_succ level))
  obtain ⟨fuel', rfl⟩ : ∃ n, fuel' = n + 1 := Nat.exists_eq_add_one.mpr (by omega)
  rw [hread, readInfix, infixAt?_of_follows hrest]

theorem ReadsAt.leadsAt {level : Nat} {p : Phrase} (hlevel : level < tightest)
    (h : ReadsAt (level + 1) p) :
    LeadsAt level p := by
  intro fuel rest hfuel hrest
  refine ⟨fuel, Nat.le_add_right fuel _, ?_⟩
  rw [readLevel, if_pos hlevel, h fuel rest (by omega) hrest]

theorem ReadsAt.of_le {m n : Nat} {p : Phrase} (h : ReadsAt n p) (hn : n ≤ tightest)
    (hmn : m ≤ n) : ReadsAt m p := by
  induction n with
  | zero => rwa [Nat.le_zero.mp hmn]
  | succ n ih =>
    rcases Nat.le_succ_iff.mp hmn with hle | rfl
    · exact ih ((h.leadsAt hn).readsAt hn) (Nat.le_of_succ_le hn) hle
    · exact h

theorem LeadsToSuffixes.readsAt {p : Phrase} (h : LeadsToSuffixes p) : ReadsAt tightest p := by
  intro fuel rest hfuel hrest
  have htightest : tightest = 6 := rfl
  obtain ⟨fuel, rfl⟩ : ∃ n, fuel = n + 2 := Nat.exists_eq_add_of_le' (by omega)
  obtain ⟨fuel', hfuel', hread⟩ := h fuel rest (by omega)
  obtain ⟨fuel', rfl⟩ : ∃ n, fuel' = n + 1 := Nat.exists_eq_add_one.mpr (by omega)
  rw [readLevel, if_neg (Nat.lt_irrefl _), hread, readSuffixes_of_follows hrest]

structure Readable (p : Phrase) : Prop where
  reads : ∀ n ≤ tightest, n ≤ p.level → ReadsAt n p
  leads : ∀ n < tightest, n ≤ p.level → LeadsAt n p
  suffixes : 7 ≤ p.level → LeadsToSuffixes p

theorem ReadsAt.leadsAt_of_lt {m n : Nat} {p : Phrase} (h : ReadsAt n p) (hn : n ≤ tightest)
    (hmn : m < n) : LeadsAt m p :=
  (h.of_le hn hmn).leadsAt (Nat.lt_of_lt_of_le hmn hn)

theorem LeadsToSuffixes.readable {p : Phrase} (h : LeadsToSuffixes p) : Readable p where
  reads _ hn _ := h.readsAt.of_le (Nat.le_refl _) hn
  leads _ hn _ := h.readsAt.leadsAt_of_lt (Nat.le_refl _) hn
  suffixes _ := h

theorem leadsToSuffixes_operand {p : Phrase} {t : Token} (htokens : p.tokens = [t])
    (hunary : unaryOp? t = none)
    (hparen : t ≠ .symbol .openParen) (hoperand : operand? t = some p.expr) : LeadsToSuffixes p := by
  intro fuel rest hfuel
  rw [htokens, List.length_singleton] at hfuel
  obtain ⟨fuel, rfl⟩ : ∃ n, fuel = n + 1 := Nat.exists_eq_add_one.mpr (by omega)
  refine ⟨fuel + 1, by omega, ?_⟩
  rw [htokens, List.singleton_append, readUnary, hunary]
  simp only [readOperand, if_neg hparen, hoperand, Option.map_some]

theorem leadsToSuffixes_group {inner : Phrase} (h : Readable inner) :
    LeadsToSuffixes (.group inner) := by
  intro fuel rest hfuel
  have hlength : (Phrase.group inner).tokens.length = inner.tokens.length + 2 := by simp [Phrase.tokens]
  obtain ⟨fuel, rfl⟩ : ∃ n, fuel = n + 1 := Nat.exists_eq_add_one.mpr (by omega)
  refine ⟨fuel + 1, by omega, ?_⟩
  have hread := h.reads 0 (Nat.zero_le _) (Nat.zero_le _) fuel (.symbol .closeParen :: rest) (by omega)
    (follows_closing (.inl rfl) 0 rest)
  simp only [Phrase.tokens, List.cons_append, List.append_assoc, List.nil_append, readUnary,
    unaryOp?, readOperand, if_true, hread, Phrase.expr]

theorem leadsToSuffixes_member {object : Phrase} (name : Name) (h : LeadsToSuffixes object) :
    LeadsToSuffixes (.member object name) := by
  intro fuel rest hfuel
  have hlength : (Phrase.member object name).tokens.length = object.tokens.length + 2 := by
    simp [Phrase.tokens]
  obtain ⟨fuel', hfuel', hread⟩ := h fuel (.symbol .dot :: .word name.text :: rest) (by omega)
  obtain ⟨fuel', rfl⟩ : ∃ n, fuel' = n + 1 := Nat.exists_eq_add_one.mpr (by omega)
  refine ⟨fuel', by omega, ?_⟩
  simp only [Phrase.tokens, List.append_assoc, List.cons_append, List.nil_append, hread,
    readSuffixes, Phrase.expr]

theorem leadsToSuffixes_index {object key : Phrase} (h : LeadsToSuffixes object) (hkey : Readable key) :
    LeadsToSuffixes (.index object key) := by
  intro fuel rest hfuel
  have hlength : (Phrase.index object key).tokens.length =
      object.tokens.length + key.tokens.length + 2 := by
    simp [Phrase.tokens]
    omega
  obtain ⟨fuel', hfuel', hread⟩ :=
    h fuel (.symbol .openBracket :: (key.tokens ++ .symbol .closeBracket :: rest)) (by omega)
  obtain ⟨fuel', rfl⟩ : ∃ n, fuel' = n + 1 := Nat.exists_eq_add_one.mpr (by omega)
  refine ⟨fuel', by omega, ?_⟩
  have hreadKey := hkey.reads 0 (Nat.zero_le _) (Nat.zero_le _) fuel'
    (.symbol .closeBracket :: rest) (by omega) (follows_closing (.inr (.inl rfl)) 0 rest)
  simp only [Phrase.tokens, List.append_assoc, List.cons_append, List.nil_append, hread,
    readSuffixes, hreadKey, Phrase.expr]

theorem follows_moreTokens (args : List Phrase) (rest : List Token) :
    Follows 0 (moreTokens args ++ .symbol .closeParen :: rest) := by
  cases args with
  | nil => exact follows_closing (.inl rfl) 0 rest
  | cons a args => exact follows_closing (.inr (.inr rfl)) 0 _

theorem readArgs_append {args : List Phrase} (h : ∀ a ∈ args, Readable a)
    {fuel : Nat} (rest : List Token) (hfuel : 10 * (moreTokens args).length + 1 ≤ fuel) :
    readArgs fuel (moreTokens args ++ .symbol .closeParen :: rest) = some (exprs args, rest) := by
  induction args generalizing fuel with
  | nil =>
    obtain ⟨fuel, rfl⟩ : ∃ n, fuel = n + 1 := Nat.exists_eq_add_one.mpr (by omega)
    simp only [moreTokens, List.nil_append, readArgs, exprs]
  | cons a args ih =>
    have hlength : (moreTokens (a :: args)).length = a.tokens.length + (moreTokens args).length + 1 := by
      simp [moreTokens]
    obtain ⟨fuel, rfl⟩ : ∃ n, fuel = n + 1 := Nat.exists_eq_add_one.mpr (by omega)
    have hread := (h a List.mem_cons_self).reads 0 (Nat.zero_le _) (Nat.zero_le _) fuel _ (by omega)
      (follows_moreTokens args rest)
    have hmore := ih (fun b hb => h b (List.mem_cons_of_mem a hb))
      (show 10 * (moreTokens args).length + 1 ≤ fuel by omega)
    simp only [moreTokens, List.cons_append, List.append_assoc, readArgs, hread, hmore,
      Option.map_some, exprs]

/-- No phrase starts with the token at which an argument list ends. -/
theorem exists_tokens_eq_cons (p : Phrase) : ∃ t ts, p.tokens = t :: ts ∧ t ≠ .symbol .closeParen := by
  cases p with
  | member object name =>
    obtain ⟨t, ts, htokens, ht⟩ := exists_tokens_eq_cons object
    exact ⟨t, _, by rw [Phrase.tokens, htokens, List.cons_append], ht⟩
  | index object key =>
    obtain ⟨t, ts, htokens, ht⟩ := exists_tokens_eq_cons object
    exact ⟨t, _, by rw [Phrase.tokens, htokens, List.cons_append], ht⟩
  | call callee args =>
    obtain ⟨t, ts, htokens, ht⟩ := exists_tokens_eq_cons callee
    exact ⟨t, _, by rw [Phrase.tokens, htokens, List.cons_append], ht⟩
  | binary op inWords left right =>
    obtain ⟨t, ts, htokens, ht⟩ := exists_tokens_eq_cons left
    exact ⟨t, _, by rw [Phrase.tokens, htokens, List.cons_append], ht⟩
  | unary op inWords operand =>
    refine ⟨_, _, by rw [Phrase.tokens], ?_⟩
    cases op <;> cases inWords <;> decide
  | _ => exact ⟨_, _, by rw [Phrase.tokens], by simp⟩

theorem readSuffixes_openParen {t : Token} {ts rest rest' : List Token} {fuel : Nat}
    {arg : Expr} {args : List Expr}
    (ht : t ≠ .symbol .closeParen) (harg : readLevel fuel 0 (t :: ts) = some (arg, rest))
    (hargs : readArgs fuel rest = some (args, rest')) (e : Expr) :
    readSuffixes (fuel + 1) e (.symbol .openParen :: t :: ts) =
      readSuffixes fuel (.call e (arg :: args)) rest' := by
  have hnext : ∀ us, t :: ts = .symbol .closeParen :: us → False := by
    rintro us ⟨⟩
    exact ht rfl
  simp only [readSuffixes, harg, hargs]

theorem leadsToSuffixes_call {callee : Phrase} {args : List Phrase} (h : LeadsToSuffixes callee)
    (hargs : ∀ a ∈ args, Readable a) : LeadsToSuffixes (.call callee args) := by
  intro fuel rest hfuel
  have hlength : (Phrase.call callee args).tokens.length =
      callee.tokens.length + (argTokens args).length + 2 := by
    simp [Phrase.tokens]
    omega
  obtain ⟨fuel', hfuel', hread⟩ :=
    h fuel (.symbol .openParen :: (argTokens args ++ .symbol .closeParen :: rest)) (by omega)
  obtain ⟨fuel', rfl⟩ : ∃ n, fuel' = n + 1 := Nat.exists_eq_add_one.mpr (by omega)
  refine ⟨fuel', by omega, ?_⟩
  simp only [Phrase.tokens, List.append_assoc, List.cons_append, List.nil_append, hread, Phrase.expr]
  cases args with
  | nil => simp only [argTokens, List.nil_append, readSuffixes, exprs]
  | cons a args =>
    have hlengthArgs : (argTokens (a :: args)).length =
        a.tokens.length + (moreTokens args).length := by simp [argTokens]
    have hreadArg := (hargs a List.mem_cons_self).reads 0 (Nat.zero_le _)
      (Nat.zero_le _) fuel' _ (by omega) (follows_moreTokens args rest)
    have hmore := readArgs_append (fun b hb => hargs b (List.mem_cons_of_mem a hb)) rest
      (show 10 * (moreTokens args).length + 1 ≤ fuel' by omega)
    obtain ⟨t, ts, htokens, ht⟩ := exists_tokens_eq_cons a
    rw [htokens, List.cons_append] at hreadArg
    rw [argTokens, htokens, List.append_assoc, List.cons_append,
      readSuffixes_openParen ht hreadArg hmore, exprs]

theorem readsAt_unary (op : UnaryOp) (inWords : Bool) {operand : Phrase} (h : ReadsAt tightest operand) :
    ReadsAt tightest (.unary op inWords operand) := by
  intro fuel rest hfuel hrest
  have htightest : tightest = 6 := rfl
  have hlength : (Phrase.unary op inWords operand).tokens.length = operand.tokens.length + 1 := by
    simp [Phrase.tokens]
  obtain ⟨fuel, rfl⟩ : ∃ n, fuel = n + 2 := Nat.exists_eq_add_of_le' (by omega)
  have hread := h (fuel + 1) rest (by omega) hrest
  rw [readLevel, if_neg (Nat.lt_irrefl _)] at hread ⊢
  rw [Phrase.tokens, List.cons_append, readUnary, unaryOp?_unaryToken]
  simp only [hread, Option.map_some, Phrase.expr]

theorem leadsAt_binary (op : BinaryOp) (inWords : Bool) {left right : Phrase}
    (hleft : LeadsAt op.level left)
    (hright : ReadsAt (op.level + 1) right) : LeadsAt op.level (.binary op inWords left right) := by
  intro fuel rest hfuel hrest
  have hlevel : op.level < 6 := BinaryOp.level_lt op
  have hlength : (Phrase.binary op inWords left right).tokens.length =
      left.tokens.length + right.tokens.length + 1 := by
    simp [Phrase.tokens]
    omega
  obtain ⟨fuel', hfuel', hread⟩ :=
    hleft fuel (binaryToken inWords op :: (right.tokens ++ rest)) (by omega)
    (follows_binaryToken inWords op _)
  obtain ⟨fuel', rfl⟩ : ∃ n, fuel' = n + 1 := Nat.exists_eq_add_one.mpr (by omega)
  refine ⟨fuel', by omega, ?_⟩
  -- The loop of the level has the left operand and stands at the operator.
  have hreadRight := hright fuel' rest (by omega) hrest
  rw [Phrase.tokens, List.append_assoc, List.cons_append, hread, readInfix, infixAt?,
    binaryOp?_binaryToken]
  simp only [if_true, hreadRight, Phrase.expr]

theorem readable_of_stratified {p : Phrase} (h : p.Stratified) : Readable p := by
  induction h with
  | number n =>
    refine (leadsToSuffixes_operand rfl rfl (by simp) ?_).readable
    rw [operand?, n.binary64_read?_chars]
    rfl
  | text s => exact (leadsToSuffixes_operand rfl rfl (by simp) rfl).readable
  | bool b => cases b <;> exact (leadsToSuffixes_operand rfl (by decide) (by simp) rfl).readable
  | null inFull => cases inFull <;> exact (leadsToSuffixes_operand rfl (by decide) (by simp) rfl).readable
  | ident name hname =>
    obtain ⟨htrue, hfalse, hnull, hundefined, hand, hor, hnot⟩ :
        name.text ≠ "true" ∧ name.text ≠ "false" ∧ name.text ≠ "null" ∧ name.text ≠ "undefined" ∧
          name.text ≠ "and" ∧ name.text ≠ "or" ∧ name.text ≠ "not" := by
      simpa [keywords] using hname
    refine (leadsToSuffixes_operand rfl ?_ (by simp) ?_).readable
    · rw [unaryOp?, if_neg hnot]
    · rw [operand?, if_neg htrue, if_neg hfalse, if_neg (by simp [hnull, hundefined]), if_neg hname]
      rfl
  | group _ ih => exact (leadsToSuffixes_group ih).readable
  | member name _ hlevel ih => exact (leadsToSuffixes_member name (ih.suffixes hlevel)).readable
  | index _ hlevel _ ih ihKey => exact (leadsToSuffixes_index (ih.suffixes hlevel) ihKey).readable
  | call _ hlevel _ ih ihArgs => exact (leadsToSuffixes_call (ih.suffixes hlevel) ihArgs).readable
  | @unary op inWords operand _ hlevel ih =>
    have hreads := readsAt_unary op inWords (ih.reads tightest (Nat.le_refl _) hlevel)
    exact ⟨fun _ hn _ => hreads.of_le (Nat.le_refl _) hn,
      fun _ hn _ => hreads.leadsAt_of_lt (Nat.le_refl _) hn,
      fun hsuffix => absurd hsuffix (Nat.lt_irrefl 6)⟩
  | @binary op inWords left right _ hleftLevel _ hrightLevel ihLeft ihRight =>
    have hlevel : op.level < tightest := BinaryOp.level_lt op
    have hleads := leadsAt_binary op inWords (ihLeft.leads op.level hlevel hleftLevel)
      (ihRight.reads (op.level + 1) hlevel hrightLevel)
    have hreads := hleads.readsAt hlevel
    refine ⟨fun n _ hn => hreads.of_le (Nat.le_of_lt hlevel) hn, fun n _ hn => ?_, fun hsuffix => ?_⟩
    · rcases Nat.lt_or_eq_of_le hn with hlt | rfl
      · exact hreads.leadsAt_of_lt (Nat.le_of_lt hlevel) hlt
      · exact hleads
    · have hsuffix' : 7 ≤ op.level := hsuffix
      have htightest : tightest = 6 := rfl
      omega

theorem ofTokens?_eq_some_iff {ts : List Token} {e : Expr} (hts : Spellable ts) :
    ofTokens? ts = some e ↔ ∃ p : Phrase, p.Stratified ∧ p.expr = e ∧ ts = p.tokens := by
  constructor
  · intro h
    rw [ofTokens?] at h
    split at h
    · rename_i hread
      cases h
      obtain ⟨p, hp, -, hexpr, htokens⟩ := derived_of_readLevel hts (Nat.zero_le _) hread
      exact ⟨p, hp, hexpr, by rw [htokens, List.append_nil]⟩
    · cases h
  · rintro ⟨p, hp, rfl, rfl⟩
    have hread := (readable_of_stratified hp).reads 0 (Nat.zero_le _) (Nat.zero_le _)
      (fuelFor p.tokens) [] (by rw [fuelFor]; omega) trivial
    rw [List.append_nil] at hread
    rw [ofTokens?, hread]

theorem ofChars?_eq_some_iff {cs : List Char} {e : Expr} :
    ofChars? cs = some e ↔ ∃ p : Phrase, p.Stratified ∧ p.expr = e ∧ Spelled p.tokens cs := by
  rw [ofChars?, Option.bind_eq_some_iff]
  constructor
  · rintro ⟨ts, hts, h⟩
    have hspelled := tokens?_eq_some_iff.mp hts
    obtain ⟨p, hp, hexpr, rfl⟩ := (ofTokens?_eq_some_iff hspelled.spellable).mp h
    exact ⟨p, hp, hexpr, hspelled⟩
  · rintro ⟨p, hp, hexpr, hspelled⟩
    exact ⟨p.tokens, tokens?_eq_some_iff.mpr hspelled,
      (ofTokens?_eq_some_iff hspelled.spellable).mpr ⟨p, hp, hexpr, rfl⟩⟩

theorem parse_eq_ok_iff_ofChars? {s : String} {e : Expr} :
    parse s = .ok e ↔ ofChars? s.toList = some e := by
  rw [parse]
  cases ofChars? s.toList <;> simp [EvalError.ofOption]

/-- The texts of an expression are the spellings of its derivations. -/
theorem parse_eq_ok_iff {s : String} {e : Expr} :
    parse s = .ok e ↔ ∃ p : Phrase, p.Stratified ∧ p.expr = e ∧ Spelled p.tokens s.toList := by
  rw [parse_eq_ok_iff_ofChars?, ofChars?_eq_some_iff]

end NoteQuery.Expr
