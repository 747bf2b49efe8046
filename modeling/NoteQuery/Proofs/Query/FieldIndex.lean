import NoteQuery.Proofs.Number.Whole
import NoteQuery.Query.Field

/-!
# Positions in fields

A field shows an element where a position in brackets stands behind its key. What stands behind the
closing bracket is not looked at, and the bracket may be missing. So a field is read in full just
where its position is followed by one closing bracket and nothing else.
-/

namespace NoteQuery

set_option autoImplicit false

open Text

/-- The text of a field up to its position: a key, an opening bracket, and
digits with blanks around them. -/
structure FieldIndex where
  key : List Char
  before : List Char
  digits : String
  position : Nat
  behind : List Char
  openBracket_not_mem_key : '[' ∉ key
  isBlank_of_mem_before : ∀ c ∈ before, isBlank c = true
  writes : Decimal.Writes digits position
  isBlank_of_mem_behind : ∀ c ∈ behind, isBlank c = true

/-- Whether nothing is behind a position, or a closing bracket first. -/
def EndsIndex (tail : List Char) : Prop := ∀ c ∈ tail.head?, c = ']'

namespace FieldIndex

def inner (p : FieldIndex) : List Char := p.before ++ (p.digits.toList ++ p.behind)

def chars (p : FieldIndex) : List Char := p.key ++ '[' :: p.inner

theorem trim_inner (p : FieldIndex) : trim p.inner = p.digits.toList := by
  rw [inner, trim_blank_append p.isBlank_of_mem_before p.isBlank_of_mem_behind,
    trim_of_not_isBlank p.writes.not_isBlank]

theorem ne_closeBracket_of_mem_inner (p : FieldIndex) : ∀ c ∈ p.inner, (c != ']') = true := by
  intro c hc
  rw [bne_iff_ne]
  rintro rfl
  simp only [inner, List.mem_append] at hc
  obtain hc | hc | hc := hc
  · cases p.isBlank_of_mem_before _ hc
  · cases p.writes.isDigit _ hc
  · cases p.isBlank_of_mem_behind _ hc

theorem cutAt?_chars (p : FieldIndex) (tail : List Char) :
    cutAt? '[' (p.chars ++ tail) = some (p.key, p.inner ++ tail) := by
  rw [chars, List.append_assoc, List.cons_append, cutAt?_append p.openBracket_not_mem_key]

variable {tail : List Char}

theorem takeWhile_inner (p : FieldIndex) (h : EndsIndex tail) :
    (p.inner ++ tail).takeWhile (· != ']') = p.inner :=
  takeWhile_append_of_head p.ne_closeBracket_of_mem_inner fun c hc => by simp [h c hc]

theorem dropWhile_inner (p : FieldIndex) (h : EndsIndex tail) :
    (p.inner ++ tail).dropWhile (· != ']') = tail :=
  dropWhile_append_of_head p.ne_closeBracket_of_mem_inner fun c hc => by simp [h c hc]

theorem tail_eq {p q : FieldIndex} {tail' : List Char} (h : EndsIndex tail) (h' : EndsIndex tail')
    (heq : p.chars ++ tail = q.chars ++ tail') : tail = tail' := by
  have hcut := p.cutAt?_chars tail
  rw [heq, q.cutAt?_chars tail'] at hcut
  rw [← p.dropWhile_inner h, ← (Prod.mk.inj (Option.some.inj hcut)).2, q.dropWhile_inner h']

end FieldIndex

namespace Field

variable {cs : List Char} {s : String} {n : Nat}

theorem selectorOf_eq_element_iff {digits : String} :
    selectorOf digits.toList = .element n ↔ Decimal.Writes digits n ∧ n < Nat.pow 2 64 := by
  rw [selectorOf, Decimal.writes_and_lt_iff]
  cases hdigits : digits.toList.isEmpty || !digits.toList.all Decimal.isDigit with
  | true => simp
  | false =>
    by_cases hlimit : Decimal.ofDigits digits.toList < Nat.pow 2 64 <;> simp [hlimit]

theorem selector_of_cutAt? {key rest : List Char} (h : cutAt? '[' (trim s.toList) = some (key, rest)) :
    (ofText s).selector = selectorOf (trim (rest.takeWhile (· != ']'))) := by
  rw [ofText, ofChars, h]

theorem selectorOf_ne_whole : selectorOf cs ≠ .whole := by
  rw [selectorOf]
  repeat' split
  all_goals nofun

theorem selector_eq_whole_iff : (ofText s).selector = .whole ↔ '[' ∉ s.toList := by
  constructor
  · intro h hmem
    obtain ⟨parts, hcut⟩ := exists_cutAt?_of_mem (mem_trim_of_mem (by decide) hmem)
    rw [selector_of_cutAt? hcut] at h
    exact selectorOf_ne_whole h
  · intro h
    rw [ofText, ofChars, cutAt?_of_not_mem (mt mem_of_mem_trim h)]

/-- The text names the element at a position, with something behind the position. -/
def NamesElement (s : String) (n : Nat) (tail : List Char) : Prop :=
  n < Nat.pow 2 64 ∧ ∃ p : FieldIndex, trim s.toList = p.chars ++ tail ∧ p.position = n

theorem selector_eq_element_iff :
    (ofText s).selector = .element n ↔ ∃ tail, EndsIndex tail ∧ NamesElement s n tail := by
  constructor
  · intro h
    have hbracket : '[' ∈ s.toList := by
      by_contra hnone
      rw [selector_eq_whole_iff.mpr hnone] at h
      cases h
    obtain ⟨⟨key, rest⟩, hcut⟩ := exists_cutAt?_of_mem (mem_trim_of_mem (by decide) hbracket)
    obtain ⟨hparts, hkey⟩ := cutAt?_eq_some hcut
    obtain ⟨before, behind, hbefore, hbehind, hinner⟩ := exists_trim_append (rest.takeWhile (· != ']'))
    rw [selector_of_cutAt? hcut, ← String.toList_ofList (l := trim _), selectorOf_eq_element_iff] at h
    refine ⟨rest.dropWhile (· != ']'), ?_, h.2,
      ⟨key, before, _, n, behind, hkey, hbefore, h.1, hbehind⟩, ?_, rfl⟩
    · intro c hc
      have hhead := List.head?_dropWhile_not (· != ']') rest
      rw [Option.mem_def.mp hc] at hhead
      simpa using hhead
    · rw [hparts, FieldIndex.chars, FieldIndex.inner, String.toList_ofList, hinner,
        List.append_assoc, List.cons_append, List.takeWhile_append_dropWhile]
  · rintro ⟨tail, htail, hlimit, p, hp, rfl⟩
    have hcut := p.cutAt?_chars tail
    rw [← hp] at hcut
    rw [selector_of_cutAt? hcut, p.takeWhile_inner htail, p.trim_inner, selectorOf_eq_element_iff]
    exact ⟨p.writes, hlimit⟩

theorem resolve_of_unresolvable {f : Field} (h : f.selector = .unresolvable) (r : Record) :
    resolve r f = "" := by
  rw [resolve, value?, h]
  rfl

/-- The element of a position is shown only if one closing bracket ends the text, the whole value
only without brackets, and nothing otherwise. -/
def ReadInFull (s : String) : Prop :=
  (∀ n, (ofText s).selector = .element n ↔ NamesElement s n [']']) ∧
  ((ofText s).selector = .whole ↔ '[' ∉ s.toList) ∧
  ((∀ n, ¬NamesElement s n [']']) → '[' ∈ s.toList →
    (ofText s).selector = .unresolvable ∧ ∀ r, resolve r (ofText s) = "")

theorem readInFull_of_forall_tail
    (h : ∀ n tail, EndsIndex tail → NamesElement s n tail → tail = [']']) : ReadInFull s := by
  have helement (n : Nat) : (ofText s).selector = .element n ↔ NamesElement s n [']'] := by
    rw [selector_eq_element_iff]
    constructor
    · rintro ⟨tail, htail, hnames⟩
      rwa [← h n tail htail hnames]
    · intro hnames
      exact ⟨[']'], by simp [EndsIndex], hnames⟩
  refine ⟨helement, selector_eq_whole_iff, fun hnone hbracket => ?_⟩
  have hselector : (ofText s).selector = .unresolvable := by
    cases hselector : (ofText s).selector with
    | whole => exact absurd hbracket (selector_eq_whole_iff.mp hselector)
    | element n => exact absurd ((helement n).mp hselector) (hnone n)
    | unresolvable => rfl
  exact ⟨hselector, resolve_of_unresolvable hselector⟩

theorem selector_exact_and_readInFull_iff (s : String) :
    (∀ n, (ofText s).selector = .element n ↔ ∃ tail, EndsIndex tail ∧ NamesElement s n tail) ∧
    ((ofText s).selector = .whole ↔ '[' ∉ s.toList) ∧
    ((ofText s).selector = .unresolvable → ∀ r, resolve r (ofText s) = "") ∧
    (ReadInFull s ↔ ∀ n tail, EndsIndex tail → NamesElement s n tail → tail = [']']) := by
  refine ⟨fun n => selector_eq_element_iff, selector_eq_whole_iff, resolve_of_unresolvable, ?_,
    readInFull_of_forall_tail⟩
  intro h n tail htail hnames
  obtain ⟨-, q, hq, -⟩ := (h.1 n).mp (selector_eq_element_iff.mpr ⟨tail, htail, hnames⟩)
  obtain ⟨-, p, hp, -⟩ := hnames
  exact FieldIndex.tail_eq htail (by simp [EndsIndex]) (hp.symm.trans hq)

/-- Without its closing bracket a position is still read. -/
theorem not_readInFull : ¬∀ s, ReadInFull s := by
  intro h
  obtain ⟨-, p, hp, -⟩ := ((h "tags[0").1 0).mp (by decide)
  have hmem : ']' ∈ trim "tags[0".toList := by
    rw [hp]
    simp
  revert hmem
  decide

end Field

end NoteQuery
