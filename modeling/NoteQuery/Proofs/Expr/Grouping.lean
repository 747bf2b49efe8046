import NoteQuery.Proofs.Expr.Reading

/-!
# Short texts and expressions in parentheses

A numeral, with or without a minus, is an expression. A text that is an expression reads the same
between parentheses within a longer text. So a text of conditions in parentheses with a connective
between them reads as the connective of the two expressions.
-/

namespace NoteQuery.Expr

set_option autoImplicit false

/-- What follows a token may go on behind a character that belongs to no token before it. -/
theorem Stops.append {t : Token} {rest : List Char} (h : Stops t rest) {c : Char}
    (hc : isNumeralChar c = false)
    (hequal : c ≠ '=') (more : List Char) : Stops t (rest ++ c :: more) := by
  have hword : isWordChar c = false := by
    rw [Bool.eq_false_iff]
    intro htrue
    rw [isNumeralChar_of_isWordChar htrue] at hc
    cases hc
  cases t with
  | number digits =>
    intro n hn
    have hcut : digits ++ (rest ++ c :: more) = (digits ++ rest) ++ [c] ++ more := by simp
    rw [hcut] at hn
    -- A numeral that reached the character would contain it.
    rcases List.prefix_or_prefix_of_prefix hn
      (List.prefix_append (digits ++ rest ++ [c]) more) with hshort | hlong
    · rcases List.prefix_concat_iff.mp hshort with hwhole | hshort
      · have hmem := n.isNumeralChar_of_mem_chars (c := c) (by simp [hwhole])
        rw [hc] at hmem
        cases hmem
      · exact h n hshort
    · have hmem := n.isNumeralChar_of_mem_chars
        (hlong.subset (List.mem_append_right _ List.mem_cons_self))
      rw [hc] at hmem
      cases hmem
  | text s => trivial
  | word name =>
    intro d hd
    cases rest with
    | nil =>
      cases hd
      exact hword
    | cons e rest => exact h d hd
  | symbol s =>
    intro hs
    cases rest with
    | nil => simpa using hequal
    | cons e rest => exact h hs

theorem Spelled.gap_append {ts : List Token} {gap cs : List Char} (hgap : IsGap gap)
    (h : Spelled ts cs) :
    Spelled ts (gap ++ cs) := by
  cases h with
  | nil hcs => exact .nil (List.forall_mem_append.mpr ⟨hgap, hcs⟩)
  | cons hinner hspells hstops hrest =>
    have hcons := Spelled.cons (List.forall_mem_append.mpr ⟨hgap, hinner⟩) hspells hstops hrest
    simpa only [List.append_assoc] using hcons

/-- Two texts of tokens make up one, if what starts the second one belongs
to no token of the first one. -/
theorem Spelled.append {ts us : List Token} {cs more : List Char} {c : Char} (h : Spelled ts cs)
    (hmore : Spelled us (c :: more)) (hc : isNumeralChar c = false) (hequal : c ≠ '=') :
    Spelled (ts ++ us) (cs ++ c :: more) := by
  induction h with
  | nil hgap => exact hmore.gap_append hgap
  | cons hgap hspells hstops _ ih =>
    have hcons := Spelled.cons hgap hspells (hstops.append hc hequal more) ih
    simpa only [List.append_assoc, List.cons_append] using hcons

theorem Spelled.inParens {ts us : List Token} {cs more : List Char} (h : Spelled ts cs)
    (hmore : Spelled us more) :
    Spelled (.symbol .openParen :: (ts ++ .symbol .closeParen :: us)) ('(' :: (cs ++ ')' :: more)) := by
  have hclose : Spelled (.symbol .closeParen :: us) (')' :: more) :=
    .cons (List.forall_mem_nil _) (.symbol .closeParen) (fun hs => nomatch hs) hmore
  exact .cons (List.forall_mem_nil _) (.symbol .openParen) (fun hs => nomatch hs)
    (h.append hclose rfl (by decide))

theorem Spelled.word {name : String} {ts : List Token} {cs : List Char} (hname : IsName name.toList)
    (h : Spelled ts cs) : Spelled (.word name :: ts) (name.toList ++ ' ' :: cs) := by
  have hspace : Spelled ts (' ' :: cs) := h.gap_append (List.forall_mem_singleton.mpr rfl)
  refine .cons (List.forall_mem_nil _) (.word hname) ?_ hspace
  intro c hc
  cases hc
  rfl

theorem spelled_nil : Spelled [] [] := .nil (List.forall_mem_nil _)

theorem spelled_singleton {t : Token} {cs : List Char} (h : Spells t cs) (hstops : Stops t []) :
    Spelled [t] cs := by
  have hcons := Spelled.cons (List.forall_mem_nil _) h hstops spelled_nil
  simpa only [List.nil_append, List.append_nil] using hcons

theorem parse_numeral (n : Numeral) :
    parse (String.ofList n.chars) = .ok (.literal (.number n.value)) := by
  refine parse_eq_ok_iff.mpr ⟨.number n, .number n, rfl, ?_⟩
  rw [String.toList_ofList]
  apply spelled_singleton (.number n)
  intro m hm
  rwa [List.append_nil] at hm

theorem parse_minus_numeral (n : Numeral) :
    parse (String.ofList ('-' :: n.chars)) = .ok (.unary .neg (.literal (.number n.value))) := by
  refine parse_eq_ok_iff.mpr ⟨.unary .neg false (.number n),
    .unary .neg false (.number n) (Nat.le_add_right 6 2), rfl, ?_⟩
  have hnumeral : Spelled [.number n.chars] n.chars := by
    apply spelled_singleton (.number n)
    intro m hm
    rwa [List.append_nil] at hm
  rw [String.toList_ofList]
  exact .cons (List.forall_mem_nil _) (.symbol .minus) (fun hs => nomatch hs) hnumeral

theorem parse_negation {c : String} {e : Expr} (hc : parse c = .ok e) :
    parse ("not (" ++ c ++ ")") = .ok (.unary .not e) := by
  obtain ⟨p, hp, rfl, hspelled⟩ := parse_eq_ok_iff.mp hc
  refine parse_eq_ok_iff.mpr ⟨.unary .not true (.group p),
    .unary .not true (.group hp) (Nat.le_add_right 6 2), rfl, ?_⟩
  have htext : ("not (" ++ c ++ ")").toList = "not".toList ++ ' ' :: '(' :: (c.toList ++ ')' :: []) := by
    rw [String.toList_append, String.toList_append]
    rfl
  rw [htext]
  exact .word (isName_cons rfl rfl) (hspelled.inParens spelled_nil)

/-- Both connectives are written between parentheses in the same way. -/
theorem parse_connective {c d : String} {e f : Expr} (hc : parse c = .ok e)
    (hd : parse d = .ok f) {op : BinaryOp}
    {name : String} (hname : IsName name.toList) (hop : binaryToken true op = .word name)
    (hlevel : op.level < 8) :
    parse ("(" ++ c ++ ") " ++ name ++ " (" ++ d ++ ")") = .ok (.binary op e f) := by
  obtain ⟨p, hp, rfl, hp'⟩ := parse_eq_ok_iff.mp hc
  obtain ⟨q, hq, rfl, hq'⟩ := parse_eq_ok_iff.mp hd
  refine parse_eq_ok_iff.mpr ⟨.binary op true (.group p) (.group q),
    .binary op true (.group hp) (Nat.le_of_lt hlevel) (.group hq) hlevel, rfl, ?_⟩
  have htext : ("(" ++ c ++ ") " ++ name ++ " (" ++ d ++ ")").toList =
      '(' :: (c.toList ++ ')' :: ' ' :: (name.toList ++ ' ' :: '(' :: (d.toList ++ ')' :: []))) := by
    simp [String.toList_append]
  have htokens : (Phrase.binary op true (.group p) (.group q)).tokens =
      .symbol .openParen :: (p.tokens ++ .symbol .closeParen :: .word name ::
        .symbol .openParen :: (q.tokens ++ .symbol .closeParen :: [])) := by
    simp [Phrase.tokens, hop]
  rw [htext, htokens]
  exact hp'.inParens ((Spelled.word hname (hq'.inParens spelled_nil)).gap_append
    (List.forall_mem_singleton.mpr rfl))

theorem parse_conjunction {c d : String} {e f : Expr} (hc : parse c = .ok e) (hd : parse d = .ok f) :
    parse ("(" ++ c ++ ") and (" ++ d ++ ")") = .ok (.binary .and e f) := by
  have h : parse ("(" ++ c ++ ") " ++ "and" ++ " (" ++ d ++ ")") = .ok (.binary .and e f) :=
    parse_connective hc hd (isName_cons rfl rfl) rfl (by decide)
  simpa [String.append_assoc] using h

theorem parse_disjunction {c d : String} {e f : Expr} (hc : parse c = .ok e) (hd : parse d = .ok f) :
    parse ("(" ++ c ++ ") or (" ++ d ++ ")") = .ok (.binary .or e f) := by
  have h : parse ("(" ++ c ++ ") " ++ "or" ++ " (" ++ d ++ ")") = .ok (.binary .or e f) :=
    parse_connective hc hd (isName_cons rfl rfl) rfl (by decide)
  simpa [String.append_assoc] using h

end NoteQuery.Expr
