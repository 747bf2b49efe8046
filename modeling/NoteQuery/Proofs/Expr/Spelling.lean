import NoteQuery.Expr.Parser
import NoteQuery.Proofs.Expr.Numeral

/-!
# How tokens are spelled

The spellings of a token, and how a text is made of tokens with space between them. The lexer finds
exactly the tokens that a text is made of.
-/

namespace NoteQuery.Expr

set_option autoImplicit false

open Text

namespace Symbol

def chars : Symbol → List Char
  | bars => ['|', '|']
  | ampersands => ['&', '&']
  | equal3 => ['=', '=', '=']
  | notEqual3 => ['!', '=', '=']
  | equal2 => ['=', '=']
  | notEqual2 => ['!', '=']
  | lessEqual => ['<', '=']
  | greaterEqual => ['>', '=']
  | less => ['<']
  | greater => ['>']
  | plus => ['+']
  | minus => ['-']
  | star => ['*']
  | slash => ['/']
  | percent => ['%']
  | bang => ['!']
  | openParen => ['(']
  | closeParen => [')']
  | openBracket => ['[']
  | closeBracket => [']']
  | dot => ['.']
  | comma => [',']

/-- Whether an equality sign behind the symbol makes it another symbol. -/
def takesEqual : Symbol → Bool
  | equal2 | notEqual2 | less | greater | bang => true
  | _ => false

theorem symbol?_append (s : Symbol) (rest : List Char)
    (h : s.takesEqual = true → rest.head? ≠ some '=') :
    symbol? (s.chars ++ rest) = some (s, rest) := by
  have hrest : s.takesEqual = true → ∀ r, rest = '=' :: r → False := by
    rintro hs r rfl
    exact h hs rfl
  cases s
  case equal2 | notEqual2 | less | greater =>
    simp only [chars, List.cons_append, List.nil_append]
    rw [symbol?]
    exact hrest rfl
  case bang =>
    simp only [chars, List.cons_append, List.nil_append]
    rw [symbol?]
    · intro r hr
      exact hrest rfl _ hr
    · exact hrest rfl
  all_goals rfl

theorem symbol?_eq_some {cs rest : List Char} {s : Symbol} (h : symbol? cs = some (s, rest)) :
    cs = s.chars ++ rest ∧ (s.takesEqual = true → rest.head? ≠ some '=') := by
  unfold symbol? at h
  split at h
  all_goals cases h
  all_goals refine ⟨rfl, fun hs he => ?_⟩
  -- Only the five symbols that take an equality sign are left, each tried behind its longer form.
  all_goals cases hs
  all_goals
    obtain ⟨r, rfl⟩ := List.head?_eq_some_iff.mp he
    exact ‹∀ r', '=' :: r = '=' :: r' → False› r rfl

end Symbol

/-- The body of a quoted text and what it stands for: a backslash goes together
with the character behind it. -/
inductive Quoted (quote : Char) : List Char → List Char → Prop
  | nil : Quoted quote [] []
  | plain {c : Char} {raw content : List Char} (hquote : c ≠ quote) (hescape : c ≠ '\\') :
      Quoted quote raw content → Quoted quote (c :: raw) (c :: content)
  | escaped {c : Char} {raw content : List Char} :
      Quoted quote raw content → Quoted quote ('\\' :: c :: raw) (unescape c :: content)

/-- The names of the language: a letter, an underscore or a dollar sign, then also digits. -/
def IsName (cs : List Char) : Prop :=
  ∃ c r, cs = c :: r ∧ isWordStart c = true ∧ ∀ d ∈ r, isWordChar d = true

theorem isName_cons {c : Char} {r : List Char} (hc : isWordStart c = true)
    (hr : r.all isWordChar = true) :
    IsName (c :: r) := ⟨c, r, rfl, hc, List.all_eq_true.mp hr⟩

inductive Spells : Token → List Char → Prop
  | number (n : Numeral) : Spells (.number n.chars) n.chars
  | text {quote : Char} {raw content : List Char} (hquote : quote = '"' ∨ quote = '\'')
      (h : Quoted quote raw content) :
      Spells (.text (String.ofList content)) (quote :: (raw ++ [quote]))
  | word {name : String} (h : IsName name.toList) : Spells (.word name) name.toList
  | symbol (s : Symbol) : Spells (.symbol s) s.chars

/-- What may directly follow a token: nothing that would make it a longer one. -/
def Stops : Token → List Char → Prop
  | .number digits, rest => ∀ n : Numeral, n.chars <+: digits ++ rest → n.chars <+: digits
  | .text _, _ => True
  | .word _, rest => ∀ c ∈ rest.head?, isWordChar c = false
  | .symbol s, rest => s.takesEqual = true → rest.head? ≠ some '='

def IsGap (cs : List Char) : Prop := ∀ c ∈ cs, isSpace c = true

/-- A text made of tokens, in order, with space before, between and behind them. -/
inductive Spelled : List Token → List Char → Prop
  | nil {gap : List Char} (hgap : IsGap gap) : Spelled [] gap
  | cons {gap lexeme rest : List Char} {t : Token} {ts : List Token} (hgap : IsGap gap)
    (hspells : Spells t lexeme)
      (hstops : Stops t rest) (hrest : Spelled ts rest) : Spelled (t :: ts) (gap ++ lexeme ++ rest)

theorem quotedBody_append {quote : Char} {raw content : List Char} (hquote : quote ≠ '\\')
    (h : Quoted quote raw content) (rest : List Char) :
    quotedBody quote (raw ++ quote :: rest) = some (content, rest) := by
  induction h with
  | nil =>
    cases rest <;> simp [quotedBody]
  | @plain c raw content hne hescape _ ih =>
    obtain ⟨d, r, hdr⟩ := List.exists_cons_of_ne_nil (l := raw ++ quote :: rest) (by simp)
    rw [List.cons_append, hdr, quotedBody, if_neg hne, if_neg hescape, ← hdr, ih]
    rfl
  | escaped _ ih =>
    rw [List.cons_append, List.cons_append, quotedBody, if_neg hquote.symm, if_pos rfl, ih]
    rfl

theorem quotedBody_eq_some {quote : Char} {cs content rest : List Char}
    (h : quotedBody quote cs = some (content, rest)) :
    ∃ raw, cs = raw ++ quote :: rest ∧ Quoted quote raw content := by
  fun_induction quotedBody quote cs generalizing content with
  | case1 => cases h
  | case2 =>
    cases h
    exact ⟨[], rfl, .nil⟩
  | case3 => cases h
  | case4 =>
    cases h
    exact ⟨[], rfl, .nil⟩
  | case5 d r _ ih =>
    obtain ⟨⟨body, rest'⟩, hbody, hresult⟩ := Option.map_eq_some_iff.mp h
    cases hresult
    obtain ⟨raw, rfl, hraw⟩ := ih hbody
    exact ⟨'\\' :: d :: raw, rfl, .escaped hraw⟩
  | case6 c d r hquote hescape ih =>
    obtain ⟨⟨body, rest'⟩, hbody, hresult⟩ := Option.map_eq_some_iff.mp h
    cases hresult
    obtain ⟨raw, hsplit, hraw⟩ := ih hbody
    exact ⟨c :: raw, by rw [hsplit]; rfl, .plain hquote hescape hraw⟩

theorem isWordStart_iff {c : Char} : isWordStart c = true ↔
    (97 ≤ c.toNat ∧ c.toNat ≤ 122) ∨ (65 ≤ c.toNat ∧ c.toNat ≤ 90) ∨ c = '_' ∨ c = '$' := by
  simp only [isWordStart, Bool.and_eq_true, Bool.or_eq_true, decide_eq_true_eq, beq_iff_eq, or_assoc]
  exact Iff.rfl

theorem isDigit_of_isWordStart {c : Char} (h : isWordStart c = true) : Decimal.isDigit c = false := by
  rw [Bool.eq_false_iff, ne_eq, Decimal.isDigit_iff]
  rcases isWordStart_iff.mp h with h | h | rfl | rfl
  · omega
  · omega
  · decide
  · decide

theorem isWordChar_of_isSpace {c : Char} (h : isSpace c = true) : isWordChar c = false := by
  simp only [isSpace, Bool.or_eq_true, beq_iff_eq] at h
  rcases h with ((rfl | rfl) | rfl) | rfl <;> rfl

theorem isSpace_of_isWordChar {c : Char} (h : isWordChar c = true) : isSpace c = false := by
  rw [Bool.eq_false_iff]
  intro hspace
  rw [isWordChar_of_isSpace hspace] at h
  cases h

theorem isWordChar_of_isWordStart {c : Char} (h : isWordStart c = true) : isWordChar c = true := by
  rw [isWordChar, h, Bool.true_or]

theorem isWordChar_of_isDigit {c : Char} (h : Decimal.isDigit c = true) : isWordChar c = true := by
  rw [isWordChar, h, Bool.or_true]

def isNumeralChar (c : Char) : Bool := isWordChar c || c == '.' || c == '+' || c == '-'

theorem isNumeralChar_of_isWordChar {c : Char} (h : isWordChar c = true) : isNumeralChar c = true := by
  rw [isNumeralChar, h, Bool.true_or, Bool.true_or, Bool.true_or]

theorem isSpace_of_isNumeralChar {c : Char} (h : isNumeralChar c = true) : isSpace c = false := by
  simp only [isNumeralChar, Bool.or_eq_true, beq_iff_eq] at h
  rcases h with ((h | rfl) | rfl) | rfl
  · exact isSpace_of_isWordChar h
  · rfl
  · rfl
  · rfl

theorem Power.isNumeralChar_of_mem_chars (p : Power) {c : Char} (hc : c ∈ p.chars) :
    isNumeralChar c = true := by
  simp only [Power.chars, List.mem_cons, List.mem_append] at hc
  rcases hc with rfl | hc | hc
  · rcases p.mark_eq_or with h | h <;> rw [h] <;> rfl
  · rw [Power.signChars] at hc
    split at hc
    · cases hc
    · split at hc <;> obtain rfl := List.mem_singleton.mp hc <;> rfl
  · exact isNumeralChar_of_isWordChar (isWordChar_of_isDigit (p.isDigit_of_mem_digits c hc))

theorem Numeral.isNumeralChar_of_mem_chars (n : Numeral) {c : Char} (hc : c ∈ n.chars) :
    isNumeralChar c = true := by
  simp only [Numeral.chars, List.mem_append] at hc
  rcases hc with (hc | hc) | hc
  · exact isNumeralChar_of_isWordChar (isWordChar_of_isDigit (n.isDigit_of_mem_whole c hc))
  · rw [Numeral.fractionChars] at hc
    split at hc
    · cases hc
    · rcases List.mem_cons.mp hc with rfl | hc
      · rfl
      · exact isNumeralChar_of_isWordChar (isWordChar_of_isDigit (n.isDigit_of_mem_fraction c hc))
  · rw [Numeral.powerChars] at hc
    split at hc
    · cases hc
    · exact Power.isNumeralChar_of_mem_chars _ hc

theorem Symbol.exists_chars_eq_cons (s : Symbol) : ∃ c r, s.chars = c :: r ∧ Decimal.isDigit c = false ∧
    isWordStart c = false ∧ ¬(c = '"' ∨ c = '\'') ∧ isSpace c = false := by
  cases s <;> exact ⟨_, _, rfl, by decide⟩

theorem Spells.exists_eq_cons {t : Token} {lexeme : List Char} (h : Spells t lexeme) :
    ∃ c r, lexeme = c :: r ∧ isSpace c = false := by
  cases h with
  | number n =>
    obtain ⟨c, r, hcr, hc⟩ := n.exists_chars_eq_cons
    exact ⟨c, r, hcr, isSpace_of_isWordChar (isWordChar_of_isDigit hc)⟩
  | text hquote => exact ⟨_, _, rfl, by rcases hquote with rfl | rfl <;> rfl⟩
  | word h =>
    obtain ⟨c, r, hcr, hc, -⟩ := h
    exact ⟨c, r, hcr, isSpace_of_isWordChar (isWordChar_of_isWordStart hc)⟩
  | symbol s =>
    obtain ⟨c, r, hcr, -, -, -, hc⟩ := s.exists_chars_eq_cons
    exact ⟨c, r, hcr, hc⟩

theorem token?_append {t : Token} {lexeme rest : List Char} (h : Spells t lexeme)
    (hstops : Stops t rest) :
    token? (lexeme ++ rest) = some (t, rest) := by
  cases h with
  | number n =>
    obtain ⟨c, r, hcr, hc⟩ := n.exists_chars_eq_cons
    have htaken := numeral_append_eq n rest hstops
    rw [hcr, List.cons_append] at htaken ⊢
    rw [token?, if_pos hc]
    simp only [htaken]
    rw [← List.cons_append, List.drop_left]
  | @text quote raw content hquote hquoted =>
    have hne : quote ≠ '\\' := by rcases hquote with rfl | rfl <;> decide
    have hdigit : ¬Decimal.isDigit quote = true := by rcases hquote with rfl | rfl <;> decide
    have hword : ¬isWordStart quote = true := by rcases hquote with rfl | rfl <;> decide
    rw [List.cons_append, token?, if_neg hdigit, if_neg hword, if_pos hquote, List.append_assoc]
    rw [List.singleton_append, quotedBody_append hne hquoted]
    rfl
  | @word name hname =>
    obtain ⟨c, r, hcr, hc, hr⟩ := hname
    rw [hcr, List.cons_append, token?, if_neg (by simp [isDigit_of_isWordStart hc]), if_pos hc,
      takeWhile_append_of_head hr hstops, dropWhile_append_of_head hr hstops,
        ← hcr, String.ofList_toList]
  | symbol s =>
    obtain ⟨c, r, hcr, hdigit, hword, hquote, -⟩ := s.exists_chars_eq_cons
    have hsymbol := Symbol.symbol?_append s rest hstops
    rw [hcr, List.cons_append] at hsymbol ⊢
    rw [token?, if_neg (by simp [hdigit]), if_neg (by simp [hword]), if_neg hquote, hsymbol]
    rfl

theorem token?_eq_some {cs rest : List Char} {t : Token} (h : token? cs = some (t, rest)) :
    ∃ lexeme, cs = lexeme ++ rest ∧ Spells t lexeme ∧ Stops t rest := by
  cases cs with
  | nil => cases h
  | cons c r =>
    rw [token?] at h
    split at h
    · rename_i hc
      obtain ⟨n, hn⟩ := exists_chars_eq_numeral hc r
      cases h
      have hsplit := List.prefix_iff_eq_append.mp (numeral_isPrefix (c :: r))
      refine ⟨n.chars, by rw [hn, hsplit], hn ▸ .number n, ?_⟩
      intro m hm
      rw [hsplit] at hm
      obtain ⟨more, hmore⟩ := hm
      rw [← hmore]
      exact chars_prefix_numeral m more
    · split at h
      · rename_i hc
        cases h
        have hword : Spells (.word (String.ofList (c :: r.takeWhile isWordChar)))
            (String.ofList (c :: r.takeWhile isWordChar)).toList :=
          .word ⟨c, r.takeWhile isWordChar, String.toList_ofList, hc,
            List.all_eq_true.mp List.all_takeWhile⟩
        rw [String.toList_ofList] at hword
        refine ⟨c :: r.takeWhile isWordChar, by simp, hword, ?_⟩
        intro d hd
        have hne : r.dropWhile isWordChar ≠ [] := by
          intro hnil
          rw [hnil] at hd
          cases hd
        rw [List.head?_eq_some_head hne] at hd
        cases hd
        simpa using List.head_dropWhile_not isWordChar hne
      · split at h
        · rename_i hquote
          obtain ⟨⟨content, rest'⟩, hbody, hresult⟩ := Option.map_eq_some_iff.mp h
          cases hresult
          obtain ⟨raw, rfl, hraw⟩ := quotedBody_eq_some hbody
          exact ⟨c :: (raw ++ [c]), by simp, .text hquote hraw, trivial⟩
        · obtain ⟨⟨s, rest'⟩, hsymbol, hresult⟩ := Option.map_eq_some_iff.mp h
          cases hresult
          obtain ⟨hcs, hstops⟩ := Symbol.symbol?_eq_some hsymbol
          exact ⟨s.chars, hcs, .symbol s, hstops⟩

theorem isGap_takeWhile (cs : List Char) : IsGap (cs.takeWhile isSpace) :=
  List.all_eq_true.mp List.all_takeWhile

theorem isGap_of_dropWhile_eq_nil {cs : List Char} (h : cs.dropWhile isSpace = []) : IsGap cs := by
  have hsplit : cs.takeWhile isSpace = cs := by
    simpa [h] using List.takeWhile_append_dropWhile (p := isSpace) (l := cs)
  exact hsplit ▸ isGap_takeWhile cs

theorem spelled_of_tokensUpTo {limit : Nat} {cs : List Char} {ts : List Token}
    (h : tokensUpTo limit cs = some ts) : Spelled ts cs := by
  induction limit generalizing cs ts with
  | zero =>
    rw [tokensUpTo] at h
    split at h
    · rename_i hnil
      cases h
      exact .nil (isGap_of_dropWhile_eq_nil hnil)
    · cases h
  | succ limit ih =>
    rw [tokensUpTo] at h
    split at h
    · rename_i hnil
      cases h
      exact .nil (isGap_of_dropWhile_eq_nil hnil)
    · rename_i c r hcons
      dsimp only at h
      split at h
      · cases h
      · rename_i t rest ht
        obtain ⟨ts, hts, rfl⟩ := Option.map_eq_some_iff.mp h
        obtain ⟨lexeme, hsplit, hspells, hstops⟩ := token?_eq_some ht
        have hcs : cs = cs.takeWhile isSpace ++ lexeme ++ rest := by
          rw [List.append_assoc, ← hsplit, ← hcons, List.takeWhile_append_dropWhile]
        rw [hcs]
        exact .cons (isGap_takeWhile cs) hspells hstops (ih hts)

/-- The lexer finds the tokens of every text that is made of tokens. -/
theorem tokensUpTo_of_spelled {ts : List Token} {cs : List Char} (h : Spelled ts cs) {limit : Nat}
    (hlimit : cs.length ≤ limit) : tokensUpTo limit cs = some ts := by
  induction h generalizing limit with
  | @nil gap hgap =>
    have hnil : gap.dropWhile isSpace = [] := by
      rw [← List.append_nil gap, List.dropWhile_append_of_pos hgap, List.dropWhile_nil]
    rw [tokensUpTo, hnil]
  | @cons gap lexeme rest t ts hgap hspells hstops _ ih =>
    obtain ⟨c, r, hcr, hc⟩ := hspells.exists_eq_cons
    have hstart : (gap ++ lexeme ++ rest).dropWhile isSpace = c :: (r ++ rest) := by
      rw [List.append_assoc, List.dropWhile_append_of_pos hgap, hcr, List.cons_append,
        List.dropWhile_cons_of_neg (by simp [hc])]
    have htoken : token? (c :: (r ++ rest)) = some (t, rest) := by
      rw [← List.cons_append, ← hcr]
      exact token?_append hspells hstops
    cases limit with
    | zero => simp [hcr] at hlimit
    | succ limit =>
      have hrest : rest.length ≤ limit := by
        simp only [List.length_append, hcr, List.length_cons] at hlimit
        omega
      rw [tokensUpTo, hstart]
      simp only [htoken, ih hrest, Option.map_some]

theorem tokens?_eq_some_iff {cs : List Char} {ts : List Token} : tokens? cs = some ts ↔ Spelled ts cs :=
  ⟨spelled_of_tokensUpTo, fun h => tokensUpTo_of_spelled h (Nat.le_refl _)⟩

end NoteQuery.Expr
