import NoteQuery.Proofs.Value.NumberText
import NoteQuery.Value.Json

/-!
# Reading JSON text in one way

The JSON text of a value says where it ends and which value it is: two values whose texts start the
same text are the same value, when what follows is the end of the text, a comma or a closing
bracket. Absent values and numbers that are not finite share the text `null` and are left out.
-/

namespace NoteQuery

set_option autoImplicit false

/-- A value that holds nothing absent, no number that is not finite and no
negative zero, at any depth. -/
inductive Value.Exact : Value → Prop where
  | text (s : String) : Exact (.text s)
  | number {negative : Bool} {m : Magnitude} (hzero : negative = true → m.place ≠ 0) : Exact
    (.number (.finite negative m))
  | bool (b : Bool) : Exact (.bool b)
  | sequence {items : List Value} (hitems : ∀ v ∈ items, Exact v) : Exact (.sequence items)
  | record {fields : List (String × Value)} (hfields : ∀ f ∈ fields, Exact f.2) : Exact (.record fields)

namespace Json

open NoteQuery.Expr (Numeral)

section Strings

def hexValue (c : Char) : Nat := if Decimal.isDigit c then Decimal.digitValue c else c.toNat - 87

theorem hexValue_hexDigit : ∀ n < 16, hexValue (hexDigit n) = n := by
  decide

/-- The character that a letter behind a backslash stands for. -/
def unescape (letter : Char) : Char :=
  if letter = 'n' then '\n'
  else if letter = 't' then '\t'
  else if letter = 'r' then '\r'
  else if letter = 'b' then Char.ofNat 8
  else if letter = 'f' then Char.ofNat 12
  else letter

/-- The first character of the inside of a quoted text, and what is behind it. -/
def first? : List Char → Option (Char × List Char)
  | [] => none
  | c :: rest =>
    if c = '\\' then
      match rest with
      | 'u' :: _ :: _ :: high :: low :: rest =>
        some (Char.ofNat (16 * hexValue high + hexValue low), rest)
      | letter :: rest => some (unescape letter, rest)
      | [] => none
    else some (c, rest)

theorem first?_of_ne {c : Char} (h : c ≠ '\\') (rest : List Char) :
    first? (c :: rest) = some (c, rest) := if_neg h

theorem first?_escaped (c : Char) (rest : List Char) : first? (escaped c ++ rest) = some (c, rest) := by
  unfold escaped
  split_ifs with hquote hbackslash hfeed htab hreturn hback hform hcontrol
  · rw [hquote]; rfl
  · rw [hbackslash]; rfl
  · rw [hfeed]; rfl
  · rw [htab]; rfl
  · rw [hreturn]; rfl
  · rw [← Char.ofNat_toNat c, hback]; rfl
  · rw [← Char.ofNat_toNat c, hform]; rfl
  · have hvalue : 16 * hexValue (hexDigit (c.toNat / 16)) + hexValue (hexDigit (c.toNat % 16)) =
      c.toNat := by
      rw [hexValue_hexDigit _ (by omega), hexValue_hexDigit _ (by omega)]
      omega
    change some (Char.ofNat _, rest) = _
    rw [hvalue, Char.ofNat_toNat]
  · exact first?_of_ne hbackslash rest

theorem exists_escaped_eq_cons (c : Char) : ∃ d r, escaped c = d :: r ∧ d ≠ '"' := by
  unfold escaped
  split_ifs with hquote
  all_goals first | exact ⟨_, _, rfl, by decide⟩ | exact ⟨c, [], rfl, hquote⟩

theorem flatMap_escaped_inj {cs ds xs ys : List Char}
    (h : cs.flatMap escaped ++ '"' :: xs = ds.flatMap escaped ++ '"' :: ys) : cs = ds ∧ xs = ys := by
  induction cs generalizing ds with
  | nil =>
    cases ds with
    | nil => exact ⟨rfl, (List.cons.inj h).2⟩
    | cons d ds =>
      obtain ⟨e, r, hd, hne⟩ := exists_escaped_eq_cons d
      rw [List.flatMap_cons, hd] at h
      exact absurd (List.cons.inj h).1.symm hne
  | cons c cs ih =>
    cases ds with
    | nil =>
      obtain ⟨e, r, hc, hne⟩ := exists_escaped_eq_cons c
      rw [List.flatMap_cons, hc] at h
      exact absurd (List.cons.inj h).1 hne
    | cons d ds =>
      have hfirst := congrArg first? h
      rw [List.flatMap_cons, List.flatMap_cons, List.append_assoc, List.append_assoc,
        first?_escaped, first?_escaped] at hfirst
      obtain ⟨rfl, hrest⟩ := Prod.mk.inj (Option.some.inj hfirst)
      obtain ⟨rfl, rfl⟩ := ih hrest
      exact ⟨rfl, rfl⟩

theorem quoted_append_inj {cs ds xs ys : List Char} (h : quoted cs ++ xs = quoted ds ++ ys) :
    cs = ds ∧ xs = ys := by
  rw [quoted, quoted, List.cons_append, List.cons_append, List.append_assoc, List.append_assoc] at h
  exact flatMap_escaped_inj (List.cons.inj h).2

end Strings

/-- What may stand behind a value: a comma, a closing bracket, or nothing. -/
def Ends (cs : List Char) : Prop := ∀ c ∈ cs.head?, c = ',' ∨ c = ']' ∨ c = '\x7d'

section Numbers

theorem exists_numeral_numberText (negative : Bool) (m : Magnitude) : ∃ n : Numeral,
    numberText (.finite negative m) = (if negative then '-' :: n.chars else n.chars) ∧
      n.decimal.magnitude? = some m := by
  by_cases hplace : m.place = 0
  · have hm : m = Magnitude.zero := Magnitude.eq_of_place_eq hplace
    refine ⟨⟨['0'], ['0'], none, List.cons_ne_nil _ _, List.forall_mem_singleton.mpr rfl,
      List.forall_mem_singleton.mpr rfl⟩, ?_, ?_⟩
    · rw [numberText, if_pos hplace]
      rfl
    · rw [hm]
      exact Decimal.magnitude?_zero _
  · obtain ⟨n, hn, hmagnitude⟩ := Decimal.exists_numeral_shortest numberStyle m
    refine ⟨n, ?_, hmagnitude⟩
    rw [numberText, if_neg hplace, hn]

theorem read?_numberText (negative : Bool) (m : Magnitude) :
    Binary64.read? (numberText (.finite negative m)) = some (.finite negative m) := by
  obtain ⟨n, htext, hmagnitude⟩ := exists_numeral_numberText negative m
  rw [htext]
  cases negative with
  | true => rw [if_pos rfl, Binary64.read?, n.read?_chars, Option.map_some,
    Binary64.toBinary64_of_magnitude? hmagnitude]
  | false =>
    rw [if_neg Bool.false_ne_true, n.binary64_read?_chars, Numeral.value,
      Binary64.toBinary64_of_magnitude? hmagnitude]

def isNumberChar (c : Char) : Bool := c != ',' && c != ']' && c != '\x7d'

theorem isNumberChar_of_mem_chars (n : Numeral) : ∀ c ∈ n.chars, isNumberChar c = true := by
  intro c hc
  rcases n.isDigit_or_of_mem_chars hc with hdigit | hmark
  · rw [Decimal.isDigit_iff] at hdigit
    simp only [isNumberChar, Bool.and_eq_true, bne_iff_ne]
    refine ⟨⟨?_, ?_⟩, ?_⟩
    all_goals
      rintro rfl
      revert hdigit
      decide
  · simp only [List.mem_cons, List.not_mem_nil, or_false] at hmark
    rcases hmark with rfl | rfl | rfl | rfl | rfl <;> rfl

theorem isNumberChar_of_mem_numberText (negative : Bool) (m : Magnitude) :
    ∀ c ∈ numberText (.finite negative m), isNumberChar c = true := by
  obtain ⟨n, htext, -⟩ := exists_numeral_numberText negative m
  rw [htext]
  cases negative with
  | true => exact List.forall_mem_cons.mpr ⟨rfl, isNumberChar_of_mem_chars n⟩
  | false => exact isNumberChar_of_mem_chars n

theorem Ends.not_isNumberChar {cs : List Char} (h : Ends cs) :
    ∀ c ∈ cs.head?, isNumberChar c = false := by
  intro c hc
  rcases h c hc with rfl | rfl | rfl <;> rfl

theorem numberText_append_inj {s t : Bool} {m k : Magnitude} {xs ys : List Char}
    (hxs : Ends xs) (hys : Ends ys)
    (h : numberText (.finite s m) ++ xs = numberText (.finite t k) ++ ys) :
    Binary64.finite s m = .finite t k ∧ xs = ys := by
  have htexts : numberText (.finite s m) = numberText (.finite t k) := by
    have htake := congrArg (List.takeWhile isNumberChar) h
    rwa [Text.takeWhile_append_of_head (isNumberChar_of_mem_numberText s m) hxs.not_isNumberChar,
      Text.takeWhile_append_of_head (isNumberChar_of_mem_numberText t k) hys.not_isNumberChar] at htake
  constructor
  · have hread := congrArg Binary64.read? htexts
    rw [read?_numberText, read?_numberText] at hread
    exact Option.some.inj hread
  · rw [htexts] at h
    exact List.append_cancel_left h

end Numbers

section Lists

variable {α : Type} {encode : α → List Char}

/-- An item whose text tells where it ends and which item it is, among the items that are `Good`. -/
def Readable (encode : α → List Char) (Good : α → Prop) (a : α) : Prop :=
  ∀ b xs ys, Good b → Ends xs → Ends ys → encode a ++ xs = encode b ++ ys → a = b ∧ xs = ys

theorem intercalate_cons_append (a : α) (as : List α) (rest : List Char) :
    [','].intercalate ((a :: as).map encode) ++ rest =
      encode a ++ (as.flatMap (fun b => ',' :: encode b) ++ rest) := by
  induction as generalizing a with
  | nil => simp
  | cons b as ih =>
    rw [List.map_cons, List.map_cons, List.intercalate_cons_cons, ← List.map_cons,
      List.append_assoc, List.append_assoc, ih]
    simp

theorem ends_flatMap_append {close : Char} (hclose : close = ']' ∨ close = '\x7d')
    (as : List α) (xs : List Char) :
    Ends (as.flatMap (fun b => ',' :: encode b) ++ close :: xs) := by
  cases as with
  | nil =>
    intro c hc
    obtain rfl := Option.some.inj hc
    exact .inr hclose
  | cons a as =>
    intro c hc
    obtain rfl := Option.some.inj hc
    exact .inl rfl

variable {Good : α → Prop} {close : Char} {as bs : List α} {xs ys : List Char}

theorem flatMap_append_inj (hclose : close = ']' ∨ close = '\x7d')
    (has : ∀ a ∈ as, Readable encode Good a) (hbs : ∀ b ∈ bs, Good b)
    (h : as.flatMap (fun b => ',' :: encode b) ++ close :: xs =
      bs.flatMap (fun b => ',' :: encode b) ++ close :: ys) :
    as = bs ∧ xs = ys := by
  have hcomma : close ≠ ',' := by
    rcases hclose with rfl | rfl <;> decide
  induction as generalizing bs with
  | nil =>
    cases bs with
    | nil => exact ⟨rfl, (List.cons.inj h).2⟩
    | cons b bs => exact absurd (List.cons.inj h).1 hcomma
  | cons a as ih =>
    cases bs with
    | nil => exact absurd (List.cons.inj h).1.symm hcomma
    | cons b bs =>
      obtain ⟨ha, hrests⟩ := List.forall_mem_cons.mp has
      obtain ⟨hb, hothers⟩ := List.forall_mem_cons.mp hbs
      rw [List.flatMap_cons, List.flatMap_cons, List.append_assoc, List.append_assoc] at h
      obtain ⟨rfl, hrest⟩ :=
        ha b _ _ hb (ends_flatMap_append hclose as xs) (ends_flatMap_append hclose bs ys)
        (List.cons.inj h).2
      obtain ⟨rfl, rfl⟩ := ih hrests hothers hrest
      exact ⟨rfl, rfl⟩

theorem intercalate_append_inj (hclose : close = ']' ∨ close = '\x7d')
    (hhead : ∀ a, Good a → ∃ c r, encode a = c :: r ∧ c ≠ close)
    (has : ∀ a ∈ as, Good a ∧ Readable encode Good a) (hbs : ∀ b ∈ bs, Good b)
    (h : [','].intercalate (as.map encode) ++ close :: xs =
      [','].intercalate (bs.map encode) ++ close :: ys) :
    as = bs ∧ xs = ys := by
  cases as with
  | nil =>
    cases bs with
    | nil => exact ⟨rfl, (List.cons.inj h).2⟩
    | cons b bs =>
      obtain ⟨c, r, hcons, hne⟩ := hhead b (hbs b List.mem_cons_self)
      rw [intercalate_cons_append, hcons] at h
      exact absurd (List.cons.inj h).1.symm hne
  | cons a as =>
    obtain ⟨⟨hgood, ha⟩, hrests⟩ := List.forall_mem_cons.mp has
    cases bs with
    | nil =>
      obtain ⟨c, r, hcons, hne⟩ := hhead a hgood
      rw [intercalate_cons_append, hcons] at h
      exact absurd (List.cons.inj h).1 hne
    | cons b bs =>
      obtain ⟨hb, hothers⟩ := List.forall_mem_cons.mp hbs
      rw [intercalate_cons_append, intercalate_cons_append] at h
      obtain ⟨rfl, hrest⟩ :=
        ha b _ _ hb (ends_flatMap_append hclose as xs) (ends_flatMap_append hclose bs ys) h
      obtain ⟨rfl, rfl⟩ := flatMap_append_inj hclose (fun a ha => (hrests a ha).2) hothers hrest
      exact ⟨rfl, rfl⟩

end Lists

theorem compactItems_eq_map (items : List Value) : compactItems items = items.map compact := by
  induction items with
  | nil => rfl
  | cons v items ih => rw [compactItems, ih, List.map_cons]

def fieldText (f : String × Value) : List Char := quoted f.1.toList ++ ':' :: compact f.2

theorem compactFields_eq_map (fields : List (String × Value)) :
    compactFields fields = fields.map fieldText := by
  induction fields with
  | nil => rfl
  | cons f fields ih => rw [compactFields, ih, List.map_cons, fieldText]

def kindAt? (c : Char) : Option String :=
  if c = '"' then some "string"
  else if c = 't' ∨ c = 'f' then some "boolean"
  else if c = '[' then some "array"
  else if c = '\x7b' then some "object"
  else if c = '-' ∨ Decimal.isDigit c then some "number"
  else none

theorem kindAt?_of_isDigit {c : Char} (h : Decimal.isDigit c = true) : kindAt? c = some "number" := by
  have hne (d : Char) (hd : Decimal.isDigit d = false) : c ≠ d := by
    rintro rfl
    rw [h] at hd
    cases hd
  rw [kindAt?, if_neg (hne _ rfl), if_neg, if_neg (hne _ rfl), if_neg (hne _ rfl), if_pos (.inr h)]
  exact not_or.mpr ⟨hne _ rfl, hne _ rfl⟩

theorem exists_compact_eq_cons {v : Value} (h : v.Exact) :
    ∃ c r, compact v = c :: r ∧ kindAt? c = some v.kind := by
  cases h with
  | text s => exact ⟨_, _, rfl, rfl⟩
  | @number negative m hzero =>
    obtain ⟨n, htext, -⟩ := exists_numeral_numberText negative m
    obtain ⟨c, r, hcons, hdigit⟩ := n.exists_chars_eq_cons
    rw [compact, htext]
    cases negative with
    | true => exact ⟨_, _, rfl, rfl⟩
    | false => exact ⟨c, r, hcons, kindAt?_of_isDigit hdigit⟩
  | bool b => cases b <;> exact ⟨_, _, rfl, rfl⟩
  | sequence hitems => exact ⟨_, _, rfl, rfl⟩
  | record hfields => exact ⟨_, _, rfl, rfl⟩

theorem kind_eq_of_compact_append {v w : Value} (hv : v.Exact) (hw : w.Exact) {xs ys : List Char}
    (h : compact v ++ xs = compact w ++ ys) : v.kind = w.kind := by
  obtain ⟨c, r, hvc, hvk⟩ := exists_compact_eq_cons hv
  obtain ⟨d, s, hwd, hwk⟩ := exists_compact_eq_cons hw
  rw [hvc, hwd] at h
  rw [(List.cons.inj h).1, hwk] at hvk
  exact (Option.some.inj hvk).symm

theorem exists_compact_eq_cons_ne {v : Value} (hv : v.Exact) {close : Char}
    (hclose : kindAt? close = none) :
    ∃ c r, compact v = c :: r ∧ c ≠ close := by
  obtain ⟨c, r, hcons, hkind⟩ := exists_compact_eq_cons hv
  refine ⟨c, r, hcons, ?_⟩
  rintro rfl
  rw [hclose] at hkind
  cases hkind

theorem readable_fieldText {f : String × Value} (h : Readable compact Value.Exact f.2) :
    Readable fieldText (fun g => g.2.Exact) f := by
  intro g xs ys hg hxs hys heq
  rw [fieldText, fieldText, List.append_assoc, List.append_assoc] at heq
  obtain ⟨hkey, hvalue⟩ := quoted_append_inj heq
  obtain ⟨hvalue, hrest⟩ := h g.2 xs ys hg hxs hys (List.cons.inj hvalue).2
  exact ⟨Prod.ext (String.toList_injective hkey) hvalue, hrest⟩

-- On the value, whatever is behind it: each item of a collection is read off in turn.
theorem readable_compact {v : Value} (hv : v.Exact) : Readable compact Value.Exact v := by
  induction hv with
  | text s =>
    intro w xs ys hw _ _ h
    have hkind := kind_eq_of_compact_append (.text s) hw h
    cases hw with
    | text t =>
      obtain ⟨hst, rfl⟩ := quoted_append_inj h
      rw [String.toList_injective hst]
      exact ⟨rfl, rfl⟩
    | _ => simp [Value.kind] at hkind
  | @number negative m hzero =>
    intro w xs ys hw hxs hys h
    have hkind := kind_eq_of_compact_append (.number hzero) hw h
    cases hw with
    | @number t k _ =>
      obtain ⟨hst, rfl⟩ := numberText_append_inj hxs hys h
      rw [hst]
      exact ⟨rfl, rfl⟩
    | _ => simp [Value.kind] at hkind
  | bool b =>
    intro w xs ys hw _ _ h
    have hkind := kind_eq_of_compact_append (.bool b) hw h
    cases hw with
    | bool c =>
      cases b <;> cases c
      · exact ⟨rfl, List.append_cancel_left h⟩
      · cases h
      · cases h
      · exact ⟨rfl, List.append_cancel_left h⟩
    | _ => simp [Value.kind] at hkind
  | @sequence items hitems ih =>
    intro w xs ys hw _ _ h
    have hkind := kind_eq_of_compact_append (.sequence hitems) hw h
    cases hw with
    | @sequence others hothers =>
      rw [compact, compact, compactItems_eq_map, compactItems_eq_map, List.cons_append, List.cons_append,
        List.append_assoc, List.append_assoc] at h
      obtain ⟨rfl, rfl⟩ :=
        intercalate_append_inj (.inl rfl) (fun v hv => exists_compact_eq_cons_ne hv rfl)
        (fun v hv => ⟨hitems v hv, ih v hv⟩) hothers (List.cons.inj h).2
      exact ⟨rfl, rfl⟩
    | _ => simp [Value.kind] at hkind
  | @record fields hfields ih =>
    intro w xs ys hw _ _ h
    have hkind := kind_eq_of_compact_append (.record hfields) hw h
    cases hw with
    | @record others hothers =>
      rw [compact, compact, compactFields_eq_map, compactFields_eq_map,
        List.cons_append, List.cons_append, List.append_assoc, List.append_assoc] at h
      obtain ⟨rfl, rfl⟩ := intercalate_append_inj (.inr rfl) (fun f _ => ⟨'"', _, rfl, by decide⟩)
        (fun f hf => ⟨hfields f hf, readable_fieldText (ih f hf)⟩) hothers (List.cons.inj h).2
      exact ⟨rfl, rfl⟩
    | _ => simp [Value.kind] at hkind

end Json

end NoteQuery
