import NoteQuery.Proofs.Text.Blank
import NoteQuery.Proofs.Text.Lookup
import NoteQuery.Proofs.Text.Mark
import NoteQuery.Template.Clock

/-!
# Substitution of tokens

The tokens of a table are replaced one after the other, each where it occurs first, and so a token may
be found in a value that was put in before. Where the text between the tokens keeps them apart, and no
token is found in an earlier value or in a later token, all of them are replaced as if at once.
-/

namespace NoteQuery.Text

set_option autoImplicit false

/-- Tokens, each with the text behind it, where the tokens are written by a function. -/
def chunks (f : String → List Char) (parts : List (String × List Char)) : List Char :=
  parts.flatMap fun p => f p.1 ++ p.2

/-- Every token stands once, and there is text between the tokens that has no character of theirs. -/
structure Apart (alphabet : List Char) (parts : List (String × List Char)) : Prop where
  nodup : (parts.map Prod.fst).Nodup
  quiet : ∀ p ∈ parts, ∀ c ∈ p.2, c ∉ alphabet
  between : ∀ p ∈ parts.dropLast, p.2 ≠ []

/-- No token is found in the value of a token before it, nor in a token behind it. -/
def Independent (table : List (String × String)) : Prop :=
  table.Pairwise fun e e' => ¬e'.1.toList <:+: e.2.toList ∧ ¬e.1.toList <:+: e'.1.toList

/-- What a table puts in the place of a token. A token that is not in the table stays. -/
def shown (table : List (String × String)) (token : String) : List Char :=
  ((table.lookup token).getD token).toList

variable {mark part value cs behind alphabet : List Char}

theorem clear_of_forall_not_mem (hne : mark ≠ []) (h : ∀ c ∈ cs, c ∉ mark) (behind : List Char) :
    Clear mark cs behind := by
  induction cs with
  | nil => exact clear_nil mark behind
  | cons c cs ih =>
    obtain ⟨hc, hcs⟩ := List.forall_mem_cons.mp h
    refine clear_cons_iff.mpr ⟨?_, ih hcs⟩
    rintro ⟨v, hv⟩
    obtain ⟨d, ds, rfl⟩ := List.exists_cons_of_ne_nil hne
    obtain ⟨rfl, -⟩ := List.cons.inj hv
    exact hc List.mem_cons_self

/-- A mark that is not in the text could only begin in it if it went on behind it. -/
theorem clear_of_not_infix_of_head (h : ¬mark <:+: cs) (hbehind : ∀ c ∈ behind.head?, c ∉ mark) :
    Clear mark cs behind := by
  intro u v huv
  apply Nat.le_of_not_lt
  intro hlt
  obtain ⟨outside, hmark, hover⟩ | ⟨rest, hcs, -⟩ := List.append_eq_append_iff.mp huv
  · obtain ⟨inside, hcs, rfl⟩ | ⟨gap, hu, -⟩ := List.append_eq_append_iff.mp hmark
    · cases outside with
      | nil => exact h ⟨u, [], by rw [hcs, List.append_nil, List.append_nil]⟩
      | cons c outside =>
        apply hbehind c
        · rw [hover]
          rfl
        · exact List.mem_append_right inside List.mem_cons_self
    · rw [hu, List.length_append] at hlt
      omega
  · exact h ⟨u, rest, hcs.symm⟩

theorem replaceFirst_append (h : Clear part cs behind) :
    replaceFirst part value (cs ++ behind) = cs ++ replaceFirst part value behind := by
  induction cs with
  | nil => rfl
  | cons c cs ih =>
    obtain ⟨hstart, hcs⟩ := clear_cons_iff.mp h
    rw [List.cons_append, replaceFirst, after?_eq_none_iff.mpr hstart, ih hcs, List.cons_append]

theorem replaceFirst_self (hne : part ≠ []) (value rest : List Char) :
    replaceFirst part value (part ++ rest) = value ++ rest := by
  obtain ⟨c, part, rfl⟩ := List.exists_cons_of_ne_nil hne
  have hafter : after? (c :: part) (c :: (part ++ rest)) = some rest := after?_eq_some_iff.mpr rfl
  rw [List.cons_append, replaceFirst, hafter]

theorem chunks_cons (f : String → List Char) (p : String × List Char)
    (parts : List (String × List Char)) :
    chunks f (p :: parts) = f p.1 ++ (p.2 ++ chunks f parts) := by
  rw [chunks, List.flatMap_cons, List.append_assoc]
  rfl

theorem chunks_congr {f g : String → List Char} {parts : List (String × List Char)}
    (h : ∀ p ∈ parts, f p.1 = g p.1) :
    chunks f parts = chunks g parts := by
  induction parts with
  | nil => rfl
  | cons p parts ih =>
    obtain ⟨hp, hparts⟩ := List.forall_mem_cons.mp h
    rw [chunks_cons, chunks_cons, hp, ih hparts]

variable {parts : List (String × List Char)} {p : String × List Char}

theorem Apart.tail (h : Apart alphabet (p :: parts)) : Apart alphabet parts where
  nodup := (List.nodup_cons.mp h.nodup).2
  quiet := (List.forall_mem_cons.mp h.quiet).2
  between q hq := by
    cases parts with
    | nil => cases hq
    | cons r parts => exact h.between q (List.mem_cons_of_mem p hq)

theorem Apart.not_mem_tail (h : Apart alphabet (p :: parts)) : ∀ q ∈ parts, q.1 ≠ p.1 := by
  intro q hq heq
  exact (List.nodup_cons.mp h.nodup).1 (heq ▸ List.mem_map_of_mem hq)

theorem Apart.not_mem_of_head? (h : Apart alphabet (p :: parts)) (f : String → List Char) :
    ∀ c ∈ (p.2 ++ chunks f parts).head?, c ∉ alphabet := by
  intro c hc
  have hquiet : ∀ c ∈ p.2, c ∉ alphabet := h.quiet p List.mem_cons_self
  cases parts with
  | nil =>
    rw [chunks, List.flatMap_nil, List.append_nil] at hc
    exact hquiet c (List.mem_of_head? hc)
  | cons q parts =>
    obtain ⟨d, ds, hds⟩ := List.exists_cons_of_ne_nil (h.between p List.mem_cons_self)
    rw [hds] at hc hquiet
    cases hc
    exact hquiet c List.mem_cons_self

/-- One replacement writes one token anew, wherever it stands. -/
theorem replaceFirst_chunks {f g : String → List Char} {token : String} (hne : token.toList ≠ [])
    (htoken : token.toList ⊆ alphabet) (hparts : Apart alphabet parts) (hself : f token = token.toList)
    (hother : ∀ p ∈ parts, p.1 ≠ token → ¬token.toList <:+: f p.1 ∧ g p.1 = f p.1) :
    replaceFirst token.toList (g token) (chunks f parts) = chunks g parts := by
  induction parts with
  | nil =>
    rw [chunks, List.flatMap_nil, replaceFirst, if_neg hne]
    rfl
  | cons p parts ih =>
    obtain ⟨hp, hrest⟩ := List.forall_mem_cons.mp hother
    have hquiet : ∀ c ∈ p.2, c ∉ token.toList :=
      fun c hc hmem => hparts.quiet p List.mem_cons_self c hc (htoken hmem)
    rw [chunks_cons, chunks_cons]
    by_cases heq : p.1 = token
    · have hsame : chunks f parts = chunks g parts :=
        chunks_congr fun q hq => (hrest q hq (heq ▸ hparts.not_mem_tail q hq)).2.symm
      rw [heq, hself, replaceFirst_self hne, hsame]
    · obtain ⟨hoccurs, hvalue⟩ := hp heq
      have hhead : ∀ c ∈ (p.2 ++ chunks f parts).head?, c ∉ token.toList :=
        fun c hc hmem => hparts.not_mem_of_head? f c hc (htoken hmem)
      rw [replaceFirst_append (clear_of_not_infix_of_head hoccurs hhead),
        replaceFirst_append (clear_of_forall_not_mem hne hquiet _), ih hparts.tail hrest, hvalue]

variable {before after : List (String × String)} {e : String × String} {token : String}

theorem shown_concat_self (h : before.lookup e.1 = none) : shown (before ++ [e]) e.1 = e.2.toList := by
  obtain ⟨t, v⟩ := e
  simp [shown, List.lookup_append, h]

theorem shown_concat_of_ne (h : token ≠ e.1) : shown (before ++ [e]) token = shown before token := by
  obtain ⟨t, v⟩ := e
  have hbeq : (token == t) = false := beq_eq_false_iff_ne.mpr h
  simp [shown, List.lookup_append, List.lookup_cons, hbeq]

theorem Independent.lookup_eq_none (h : Independent (before ++ e :: after)) :
    before.lookup e.1 = none := by
  rw [lookup_eq_none_iff]
  intro hmem
  obtain ⟨d, hd, heq⟩ := List.mem_map.mp hmem
  have hoccurs := ((List.pairwise_append.mp h).2.2 d hd e List.mem_cons_self).2
  exact hoccurs (heq ▸ List.infix_refl _)

/-- A token is not found in what is shown of the others when its turn comes. -/
theorem Independent.not_infix_shown (h : Independent (before ++ e :: after))
    (hmem : token ∈ (before ++ e :: after).map Prod.fst) (hne : token ≠ e.1) :
    ¬e.1.toList <:+: shown before token := by
  obtain ⟨hbefore, hafter, hacross⟩ := List.pairwise_append.mp h
  rw [shown]
  cases hlookup : before.lookup token with
  | some v => exact (hacross _ (mem_of_lookup hlookup) e List.mem_cons_self).1
  | none =>
    rw [List.map_append, List.map_cons] at hmem
    obtain hmem | hmem := List.mem_append.mp hmem
    · exact absurd hmem (lookup_eq_none_iff.mp hlookup)
    · obtain ⟨d, hd, rfl⟩ := List.mem_map.mp (List.mem_of_ne_of_mem hne hmem)
      exact ((List.pairwise_cons.mp hafter).1 d hd).2

theorem foldl_replaceFirst (before : List (String × String)) {first : List Char}
    (hparts : Apart alphabet parts)
    (hfirst : ∀ c ∈ first, c ∉ alphabet) (h : Independent (before ++ after))
    (hmem : ∀ p ∈ parts, p.1 ∈ (before ++ after).map Prod.fst)
    (htokens : ∀ e ∈ after, e.1.toList ≠ [] ∧ e.1.toList ⊆ alphabet) :
    after.foldl (fun text e => replaceFirst e.1.toList e.2.toList text)
        (first ++ chunks (shown before) parts) =
      first ++ chunks (shown (before ++ after)) parts := by
  -- The tokens of `before` are written as their values already, and all others still as themselves.
  induction after generalizing before with
  | nil => rw [List.append_nil, List.foldl_nil]
  | cons e after ih =>
    obtain ⟨⟨hne, hchars⟩, hlater⟩ := List.forall_mem_cons.mp htokens
    have hlookup : before.lookup e.1 = none := h.lookup_eq_none
    have hself : shown before e.1 = e.1.toList := by rw [shown, hlookup, Option.getD_none]
    have hstep : replaceFirst e.1.toList e.2.toList (chunks (shown before) parts) =
      chunks (shown (before ++ [e])) parts := by
      rw [← shown_concat_self hlookup]
      refine replaceFirst_chunks hne hchars hparts hself ?_
      intro p hp hdifferent
      exact ⟨h.not_infix_shown (hmem p hp) hdifferent, shown_concat_of_ne hdifferent⟩
    have hquiet : ∀ c ∈ first, c ∉ e.1.toList := fun c hc hmem => hfirst c hc (hchars hmem)
    have hsplit : before ++ e :: after = before ++ [e] ++ after := by rw [List.append_assoc,
      List.singleton_append]
    rw [List.foldl_cons, replaceFirst_append (clear_of_forall_not_mem hne hquiet _), hstep]
    rw [hsplit] at h hmem ⊢
    exact ih _ h hmem hlater

end NoteQuery.Text
