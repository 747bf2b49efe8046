import NoteQuery.Proofs.Query.Canonical
import NoteQuery.Proofs.Text.Lookup
import NoteQuery.Query.Block

/-!
# Queries in lines

The clauses of a query may stand in any order, with lines among them that are passed over: blank
ones, fences, lines without a keyword, and further lines of a keyword. Such lines read as the
query again, alone and as a block.
-/

namespace NoteQuery

set_option autoImplicit false

open Text

theorem Plain.append {xs ys : List Char} (hx : Plain xs) (hy : Plain ys) {middle : List Char}
    (h : '\n' ∉ middle) :
    Plain (xs ++ (middle ++ ys)) := by
  have hne : middle ++ ys ≠ [] := fun hnil => hy.ne_nil (List.append_eq_nil_iff.mp hnil).2
  have hstart : trimStart (xs ++ (middle ++ ys)) = xs ++ (middle ++ ys) :=
    trimStart_append hx.ne_nil (trim_eq_self_iff.mp hx.trim_eq).1 _
  have hend : trimEnd (xs ++ (middle ++ ys)) = xs ++ (middle ++ ys) :=
    trimEnd_append hne (trimEnd_append hy.ne_nil (trim_eq_self_iff.mp hy.trim_eq).2 middle) xs
  refine ⟨List.append_ne_nil_of_right_ne_nil xs hne, trim_eq_self_iff.mpr ⟨hstart, hend⟩, ?_⟩
  simp only [List.mem_append, not_or]
  exact ⟨hx.not_mem, h, hy.not_mem⟩

theorem plain_intercalate {sep : List Char} (hsep : '\n' ∉ sep) {parts : List (List Char)}
    (hne : parts ≠ []) (h : ∀ part ∈ parts, Plain part) : Plain (sep.intercalate parts) := by
  induction parts with
  | nil => exact absurd rfl hne
  | cons part parts ih =>
    obtain ⟨hpart, hparts⟩ := List.forall_mem_cons.mp h
    cases parts with
    | nil => rwa [List.intercalate_singleton]
    | cons next parts =>
      rw [List.intercalate_cons_cons, List.append_assoc]
      exact hpart.append (ih (List.cons_ne_nil next parts) hparts) hsep

namespace Query

def keywords : List String := ["table", "from", "where"]

def clauses (q : Query) : List (String × List Char) :=
  ("table", ", ".toList.intercalate (q.fields.map (·.source.toList))) ::
    ("from", '#' :: q.tag.toList) ::
    (q.condition.map fun c => ("where", c.toList)).toList

def clauseLine (c : String × List Char) : List Char := c.1.toList ++ ' ' :: c.2

inductive Idle (line : List Char) : Prop
  | blank (h : ∀ c ∈ line, isBlank c = true)
  | fence (h : fenceMark <+: trimStart line)
  | other (h : ∀ k ∈ keywords, ¬k.toList <+: line)

/-- The lines of clauses in their order with lines among them that are passed over, behind
lines with the keywords `seen`. -/
inductive Laid : List (String × List Char) → List String → List (List Char) → Prop
  | nil {seen : List String} : Laid [] seen []
  | clause {c : String × List Char} {clauses : List (String × List Char)} {seen : List String}
    {lines : List (List Char)}
      (h : Laid clauses (c.1 :: seen) lines) : Laid (c :: clauses) seen (clauseLine c :: lines)
  | idle {line : List Char} {clauses : List (String × List Char)} {seen : List String}
    {lines : List (List Char)}
      (hline : '\n' ∉ line) (hidle : Idle line) (h : Laid clauses seen lines) :
      Laid clauses seen (line :: lines)
  | repeated {keyword : String} {rest : List Char} {clauses : List (String × List Char)}
    {seen : List String}
      {lines : List (List Char)} (hline : '\n' ∉ keyword.toList ++ rest) (hseen : keyword ∈ seen)
      (h : Laid clauses seen lines) :
      Laid clauses seen ((keyword.toList ++ rest) :: lines)

theorem Laid.append_idle {clauses : List (String × List Char)} {seen : List String}
    {lines : List (List Char)}
    (h : Laid clauses seen lines) {line : List Char} (hline : '\n' ∉ line) (hidle : Idle line) :
    Laid clauses seen (lines ++ [line]) := by
  induction h with
  | nil => exact .idle hline hidle .nil
  | clause _ ih => exact .clause ih
  | idle hother hidle' _ ih => exact .idle hother hidle' ih
  | repeated hrest hseen _ ih => exact .repeated hrest hseen ih

theorem keyword_eq_of_isPrefix {k k' : String} (hk : k ∈ keywords)
    (hk' : k' ∈ keywords) {line : List Char}
    (h : k.toList <+: line) (h' : k'.toList <+: line) : k = k' := by
  have happart : ∀ a ∈ keywords, ∀ b ∈ keywords, a.toList <+: b.toList → a = b := by decide
  rcases List.prefix_or_prefix_of_prefix h h' with hprefix | hprefix
  · exact happart k hk k' hk' hprefix
  · exact (happart k' hk' k hk hprefix).symm

theorem isClauseLine_of_isPrefix {k : String} (hk : k ∈ keywords) {line : List Char}
    (h : k.toList <+: line) :
    isClauseLine line = true := by
  obtain ⟨rest, rfl⟩ := h
  simp only [keywords, List.mem_cons, List.not_mem_nil, or_false] at hk
  rcases hk with rfl | rfl | rfl <;> rfl

theorem Idle.not_isPrefix {line : List Char} (h : Idle line) {k : String} (hk : k ∈ keywords) :
    ¬k.toList <+: line := by
  intro hprefix
  have hclause := isClauseLine_of_isPrefix hk hprefix
  rw [isClauseLine, Bool.and_eq_true, bne_iff_ne, Bool.not_eq_true', ← Bool.not_eq_true,
    List.isPrefixOf_iff_prefix] at hclause
  cases h with
  | blank hblank => exact hclause.1 (List.dropWhile_eq_nil_iff.mpr hblank)
  | fence hfence => exact hclause.2 hfence
  | other hother => exact hother k hk hprefix

theorem clause?_clauseLines {k : String} (hk : k ∈ keywords) (cs : List Char) :
    clause? k (clauseLines cs) = clause? k (lines cs) := by
  rw [clauseLines]
  induction lines cs with
  | nil => rfl
  | cons line lines ih =>
    rw [clause?, clause?] at ih ⊢
    by_cases hline : isClauseLine line = true
    · rw [List.filter_cons_of_pos hline, List.findSome?_cons, List.findSome?_cons, ih]
    · have hnone := after?_eq_none_iff.mpr fun hprefix => hline (isClauseLine_of_isPrefix hk hprefix)
      rw [List.filter_cons_of_neg hline, List.findSome?_cons, hnone, ih]

theorem not_mem_clauseLine {c : String × List Char} (hk : c.1 ∈ keywords) (h : Plain c.2) :
    '\n' ∉ clauseLine c := by
  have hkeyword : ∀ k ∈ keywords, '\n' ∉ k.toList := by decide
  rw [clauseLine, List.mem_append, List.mem_cons]
  rintro (hmem | hmem | hmem)
  · exact hkeyword c.1 hk hmem
  · cases hmem
  · exact h.not_mem hmem

theorem trimEnd_clauseLine {c : String × List Char} (h : Plain c.2) :
    trimEnd (clauseLine c) = clauseLine c := by
  rw [clauseLine, List.append_cons]
  exact trimEnd_append h.ne_nil (trim_eq_self_iff.mp h.trim_eq).2 _

theorem after?_nil {k : String} (hk : k ∈ keywords) : after? k.toList [] = none := by
  have hnil : ∀ k ∈ keywords, after? k.toList [] = none := by decide
  exact hnil k hk

theorem clause?_clauseLine {c : String × List Char} (hc : c.1 ∈ keywords) (h : Plain c.2)
    (layout : List (List Char)) :
    clause? c.1 (lines (['\n'].intercalate (clauseLine c :: layout))) = some (' ' :: c.2) := by
  obtain ⟨shown, -, hshown, hfound⟩ :=
    exists_findSome?_lines (after?_nil hc) (not_mem_clauseLine hc h) layout
  have hself : after? c.1.toList (clauseLine c) = some (' ' :: c.2) := after?_eq_some_iff.mpr rfl
  rw [clause?, hfound, hshown (trimEnd_clauseLine h), hself, Option.some_or]

theorem clause?_of_not_isPrefix {k : String} (hk : k ∈ keywords) {line : List Char} (hline : '\n' ∉ line)
    (h : ¬k.toList <+: line) (layout : List (List Char)) :
    clause? k (lines (['\n'].intercalate (line :: layout))) =
      clause? k (lines (['\n'].intercalate layout)) := by
  obtain ⟨shown, hprefix, -, hfound⟩ := exists_findSome?_lines (after?_nil hk) hline layout
  have hnone : after? k.toList shown = none :=
    after?_eq_none_iff.mpr fun hshown => h (hshown.trans hprefix)
  rw [clause?, hfound, hnone, Option.none_or, clause?]

/-- A keyword that was not seen has the text of its clause. -/
theorem Laid.clause?_eq_lookup {clauses : List (String × List Char)} {seen : List String}
    {layout : List (List Char)}
    (h : Laid clauses seen layout) (hclauses : ∀ c ∈ clauses, c.1 ∈ keywords ∧ Plain c.2)
    (hseen : ∀ k ∈ seen, k ∈ keywords) {k : String} (hk : k ∈ keywords) (hnew : k ∉ seen) :
    clause? k (lines (['\n'].intercalate layout)) = (clauses.lookup k).map (' ' :: ·) := by
  induction h with
  | nil => rfl
  | @clause c clauses seen layout _ ih =>
    obtain ⟨⟨hc, hplain⟩, hclauses⟩ := List.forall_mem_cons.mp hclauses
    by_cases hself : k = c.1
    · rw [hself, clause?_clauseLine hc hplain, List.lookup_cons, beq_self_eq_true]
      rfl
    · have hother : ¬k.toList <+: clauseLine c := by
        intro hprefix
        exact hself (keyword_eq_of_isPrefix hk hc hprefix (List.prefix_append _ _))
      rw [clause?_of_not_isPrefix hk (not_mem_clauseLine hc hplain) hother, List.lookup_cons,
        beq_eq_false_iff_ne.mpr hself]
      exact ih hclauses (List.forall_mem_cons.mpr ⟨hc, hseen⟩)
        (List.not_mem_cons_of_ne_of_not_mem hself hnew)
  | idle hline hidle _ ih =>
    rw [clause?_of_not_isPrefix hk hline (hidle.not_isPrefix hk)]
    exact ih hclauses hseen hnew
  | @repeated keyword rest clauses seen layout hline hkeyword _ ih =>
    have hother : ¬k.toList <+: keyword.toList ++ rest := by
      intro hprefix
      have hself := keyword_eq_of_isPrefix hk (hseen keyword hkeyword) hprefix (List.prefix_append _ _)
      exact hnew (hself ▸ hkeyword)
    rw [clause?_of_not_isPrefix hk hline hother]
    exact ih hclauses hseen hnew

theorem nodup_clauses (q : Query) : (q.clauses.map Prod.fst).Nodup := by
  rw [clauses]
  cases q.condition <;> simp

theorem fieldsOf_append (xs ys : List Char) :
    fieldsOf (xs ++ ',' :: ys) = fieldsOf xs ++ fieldsOf ys := by
  rw [fieldsOf, fieldsOf, fieldsOf, splitOn_eq_splitOnP, splitOn_eq_splitOnP, splitOn_eq_splitOnP,
    List.splitOnP_append_cons xs ys rfl, List.map_append, List.filter_append, List.map_append]

theorem fieldsOf_source {f : Field} (h : f.Canonical) : fieldsOf (' ' :: f.source.toList) = [f] := by
  have hpart : ∀ c ∈ ' ' :: f.source.toList, (c == ',') = false :=
    List.forall_mem_cons.mpr ⟨rfl, fun c hc => beq_eq_false_iff_ne.mpr fun heq => h.comma (heq ▸ hc)⟩
  rw [fieldsOf, splitOn_eq_splitOnP, List.splitOnP_eq_singleton hpart, List.map_singleton,
    trim_cons_of_pos (by decide),
    h.plain.trim_eq, List.filter_cons_of_pos (by simpa using h.plain.ne_nil),
      List.filter_nil, List.map_singleton,
    ← Field.ofText, h.ofText_source]

theorem fieldsOf_intercalate {fields : List Field} (hne : fields ≠ []) (h : ∀ f ∈ fields, f.Canonical) :
    fieldsOf (' ' :: ", ".toList.intercalate (fields.map (·.source.toList))) = fields := by
  induction fields with
  | nil => exact absurd rfl hne
  | cons f fields ih =>
    obtain ⟨hf, hfields⟩ := List.forall_mem_cons.mp h
    cases fields with
    | nil => rw [List.map_singleton, List.intercalate_singleton, fieldsOf_source hf]
    | cons g fields =>
      have hcut : ' ' :: ", ".toList.intercalate ((f :: g :: fields).map (·.source.toList)) =
          (' ' :: f.source.toList) ++ ',' :: ' ' :: ", ".toList.intercalate
            ((g :: fields).map (·.source.toList)) := by
        rw [List.map_cons, List.map_cons, List.intercalate_cons_cons, List.append_assoc]
        rfl
      rw [hcut, fieldsOf_append, fieldsOf_source hf, ih (List.cons_ne_nil g fields) hfields]
      rfl

theorem tagOf_hash {tag : List Char} (h : Plain tag) : tagOf (' ' :: '#' :: tag) = tag := by
  rw [tagOf, trim_cons_of_pos (by decide), trim_cons_of_neg (by decide),
    (trim_eq_self_iff.mp h.trim_eq).2]
  exact h.trim_eq

theorem conditionOf_space {c : List Char} (h : Plain c) :
    conditionOf (' ' :: c) = some (String.ofList c) := by
  rw [conditionOf, trim_cons_of_pos (by decide), h.trim_eq]
  split
  · exact absurd rfl h.ne_nil
  · rfl

theorem plain_hash {tag : List Char} (h : Plain tag) : Plain ('#' :: tag) := by
  refine ⟨List.cons_ne_nil _ _, ?_, List.not_mem_cons_of_ne_of_not_mem (by decide) h.not_mem⟩
  rw [trim_cons_of_neg (by decide), (trim_eq_self_iff.mp h.trim_eq).2]

theorem Canonical.forall_mem_clauses {q : Query} (h : q.Canonical) :
    ∀ c ∈ q.clauses, c.1 ∈ keywords ∧ Plain c.2 := by
  rw [clauses]
  refine List.forall_mem_cons.mpr ⟨⟨by simp [keywords], ?_⟩,
    List.forall_mem_cons.mpr ⟨⟨by simp [keywords], plain_hash h.tag⟩, ?_⟩⟩
  · refine plain_intercalate (by decide) (fun hnil => h.fields_ne_nil (List.map_eq_nil_iff.mp hnil)) ?_
    exact List.forall_mem_map.mpr fun f hf => (h.fields f hf).plain
  · intro c hc
    obtain ⟨text, htext, rfl⟩ := Option.map_eq_some_iff.mp (Option.mem_toList.mp hc)
    exact ⟨by simp [keywords], h.condition text htext⟩

theorem Canonical.bind_conditionOf {q : Query} (h : q.Canonical) :
    ((q.clauses.lookup "where").map (' ' :: ·)).bind conditionOf = q.condition := by
  have hlookup : q.clauses.lookup "where" = q.condition.map String.toList := by
    rw [clauses]
    cases q.condition <;> rfl
  rw [hlookup]
  cases hcondition : q.condition with
  | none => rfl
  | some c => rw [Option.map_some, Option.map_some, Option.bind_some,
    conditionOf_space (h.condition c hcondition), String.ofList_toList]

theorem Canonical.ofChars_layout {q : Query} (h : q.Canonical) {order : List (String × List Char)}
    (horder : order.Perm q.clauses) {layout : List (List Char)} (hlaid : Laid order [] layout) :
    ofChars (['\n'].intercalate layout) = .ok q := by
  have hclause : ∀ k ∈ keywords, clause? k (clauseLines (['\n'].intercalate layout)) =
      (q.clauses.lookup k).map (' ' :: ·) := fun k hk => by
    rw [clause?_clauseLines hk, hlaid.clause?_eq_lookup (fun c hc =>
      h.forall_mem_clauses c (horder.mem_iff.mp hc)) (List.forall_mem_nil _) hk List.not_mem_nil,
      lookup_eq_of_perm horder ((horder.map Prod.fst).nodup_iff.mpr q.nodup_clauses)]
  refine ofChars_eq_ok_iff.mpr ⟨_, _, hclause "table" (by decide),
    hclause "from" (by decide), ?_, ?_, ?_⟩
  · rw [fieldsOf_intercalate h.fields_ne_nil h.fields]
    exact h.fields_ne_nil
  · rw [tagOf_hash h.tag]
    exact h.tag.ne_nil
  · rw [fieldsOf_intercalate h.fields_ne_nil h.fields, tagOf_hash h.tag, hclause "where" (by decide),
      h.bind_conditionOf, String.ofList_toList]

theorem trimStart_fenceMark (cs : List Char) : trimStart (fenceMark ++ cs) = fenceMark ++ cs :=
  trimStart_append (by decide) rfl cs

theorem trimEnd_fenceMark {fence : List Char} (h : trim fence = fence) :
    trimEnd (fenceMark ++ fence) = fenceMark ++ fence := by
  have hmark : fenceMark ++ fence = '`' :: '`' :: '`' :: fence := rfl
  rw [hmark, trimEnd, dropEndWhile_cons_of_neg rfl, dropEndWhile_cons_of_neg rfl,
    dropEndWhile_cons_of_neg rfl, ← trimEnd, (trim_eq_self_iff.mp h).2]

theorem opens_fenceMark {fence : List Char} (h : trim fence = fence) :
    Block.opens fence (fenceMark ++ fence) = true := by
  rw [Block.opens, trim, trimStart_fenceMark, trimEnd_fenceMark h, after?_eq_some_iff.mpr rfl]
  exact beq_iff_eq.mpr h

/-- The block of a query is laid out like its text, with a fence before it and one behind it. -/
theorem Canonical.query_layout {q : Query} (h : q.Canonical) {order : List (String × List Char)}
    (horder : order.Perm q.clauses) {layout : List (List Char)} (hlaid : Laid order [] layout)
    {fence : List Char} (htrim : trim fence = fence) (hfence : '\n' ∉ fence) :
    Block.query fence (['\n'].intercalate ((fenceMark ++ fence) :: (layout ++ [fenceMark]))) =
      .ok q := by
  have hmem : '\n' ∉ fenceMark ++ fence := by
    rw [List.mem_append, not_or]
    exact ⟨by decide, hfence⟩
  have hblock : Laid order [] ((fenceMark ++ fence) :: (layout ++ [fenceMark])) := by
    refine .idle hmem (.fence ?_) (hlaid.append_idle (by decide) (.fence (by decide)))
    rw [trimStart_fenceMark]
    exact List.prefix_append _ _
  have hne : layout ++ [fenceMark] ≠ [] := List.append_ne_nil_of_right_ne_nil layout (by decide)
  obtain ⟨next, rest, hrest⟩ := List.exists_cons_of_ne_nil hne
  rw [Block.query, if_pos, h.ofChars_layout horder hblock]
  rw [hrest, List.intercalate_cons_cons, List.append_assoc, List.append_assoc, trimStart_fenceMark,
    ← List.append_assoc,
    List.singleton_append, lines_line hmem, dropLineEnd_line (trimEnd_fenceMark htrim)]
  exact opens_fenceMark htrim

theorem canonical_and_reads_layout {cs : List Char} {q : Query} (h : ofChars cs = .ok q) :
    q.Canonical ∧ ∀ {order : List (String × List Char)} {layout : List (List Char)},
      order.Perm q.clauses → Laid order [] layout →
        ofChars (['\n'].intercalate layout) = .ok q ∧
        ∀ fence, trim fence = fence → '\n' ∉ fence →
          Block.query fence (['\n'].intercalate ((fenceMark ++ fence) :: (layout ++ [fenceMark]))) =
            .ok q := by
  have hcanonical := canonical_of_ofChars h
  refine ⟨hcanonical, fun horder hlaid =>
    ⟨hcanonical.ofChars_layout horder hlaid, fun fence htrim hfence => ?_⟩⟩
  exact hcanonical.query_layout horder hlaid htrim hfence

theorem canonical_and_reads_layout_reordered :
    ofChars "table b [1],a\nfrom ##t\nwhere x".toList =
      .ok ⟨[⟨"b [1]", "b", .element 1⟩, ⟨"a", "a", .whole⟩], "#t", some "x"⟩ ∧
    Block.query "q".toList "```q\nwhere x\n\nnote\ntable b [1], a\n ```\nfrom ##t\ntable c\n```".toList =
      .ok ⟨[⟨"b [1]", "b", .element 1⟩, ⟨"a", "a", .whole⟩], "#t", some "x"⟩ := by
  have hread : ofChars "table b [1],a\nfrom ##t\nwhere x".toList =
      .ok ⟨[⟨"b [1]", "b", .element 1⟩, ⟨"a", "a", .whole⟩], "#t", some "x"⟩ := rfl
  have hlaid : Laid [("where", "x".toList), ("table", "b [1], a".toList), ("from", "##t".toList)] []
      ["where x".toList, [], "note".toList, "table b [1], a".toList, " ```".toList,
        "from ##t".toList, "table c".toList] :=
    .clause <| .idle (by decide) (.blank (List.forall_mem_nil _)) <|
      .idle (by decide) (.other (by decide)) <| .clause <|
      .idle (by decide) (.fence (by decide)) <| .clause <|
      @Laid.repeated "table" " c".toList _ _ _ (by decide) (by decide) .nil
  have horder : [("where", "x".toList), ("table", "b [1], a".toList), ("from", "##t".toList)].Perm
      (clauses ⟨[⟨"b [1]", "b", .element 1⟩, ⟨"a", "a", .whole⟩], "#t", some "x"⟩) :=
    @List.perm_append_comm _ [("where", "x".toList)] [("table", "b [1], a".toList),
      ("from", "##t".toList)]
  exact ⟨hread, ((canonical_and_reads_layout hread).2 horder hlaid).2 "q".toList rfl (by decide)⟩

end Query

end NoteQuery
