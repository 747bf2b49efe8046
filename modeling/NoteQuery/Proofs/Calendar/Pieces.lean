import NoteQuery.Proofs.Calendar.Refusal

/-!
# Pieces of timestamps

Runs of digits, blanks and short names, each with its text. A reader takes such a piece
from the start of a text, and it takes the same piece whatever stands behind it, as long as
the piece does not go on there.
-/

namespace NoteQuery

set_option autoImplicit false

open Text

theorem Decimal.ofDigits_lt {ds : List Char} (h : ∀ c ∈ ds, isDigit c = true) :
    ofDigits ds < Nat.pow 10 ds.length := by
  induction ds using List.reverseRecOn with
  | nil => decide
  | append_singleton ds c ih =>
    have hds : ofDigits ds < Nat.pow 10 ds.length := ih fun d hd => h d (List.mem_append_left [c] hd)
    have hc : digitValue c ≤ 9 := by
      have hrange := isDigit_iff.mp (h c (List.mem_append_right ds (List.mem_singleton_self c)))
      simp only [digitValue, Char.reduceToNat]
      omega
    have hvalue : ofDigits (ds ++ [c]) = 10 * ofDigits ds + digitValue c := by simp [ofDigits]
    have hpower : Nat.pow 10 (ds ++ [c]).length = 10 * Nat.pow 10 ds.length := by
      rw [List.length_append, List.length_singleton]
      exact Nat.pow_succ'
    omega

namespace Calendar

variable {cs rest : List Char}

theorem bind_of_eq_some {α β : Type} {o : Option α} {a : α} (h : o = some a) (f : α → Option β) :
    o.bind f = f a := by
  rw [h, Option.bind_some]

structure Digits (least : Nat) (most : Option Nat) where
  chars : List Char
  isDigit : ∀ c ∈ chars, Decimal.isDigit c = true
  le_length : least ≤ chars.length
  length_le : ∀ count ∈ most, chars.length ≤ count

namespace Digits

variable {least count n : Nat} {most : Option Nat}

def value (ds : Digits least most) : Nat := Decimal.ofDigits ds.chars

theorem value_lt (ds : Digits least (some count)) : ds.value < Nat.pow 10 count :=
  Nat.lt_of_lt_of_le (Decimal.ofDigits_lt ds.isDigit)
    (Nat.pow_le_pow_right (by decide) (ds.length_le count rfl))

theorem digits?_append (ds : Digits least most)
    (h : some ds.chars.length = most ∨ ∀ c ∈ rest.head?, Decimal.isDigit c = false) :
    digits? least most (ds.chars ++ rest) = some (ds.value, rest) :=
  Calendar.digits?_append ds.isDigit ds.le_length ds.length_le h

theorem length_eq (ds : Digits count (some count)) : ds.chars.length = count :=
  Nat.le_antisymm (ds.length_le count rfl) ds.le_length

theorem fixed?_append (ds : Digits count (some count)) (rest : List Char) :
    fixed? count (ds.chars ++ rest) = some (ds.value, rest) :=
  ds.digits?_append (.inl (congrArg some ds.length_eq))

theorem exists_of_digits? (h : digits? least most cs = some (n, rest)) :
    ∃ ds : Digits least most, cs = ds.chars ++ rest ∧ n = ds.value := by
  obtain ⟨ds, hrun, hlength, hread⟩ := exists_digits?_eq most cs
  rw [hread] at h
  split at h
  · cases h
  · rename_i hleast
    cases h
    refine ⟨⟨ds, ?_, Nat.not_lt.mp hleast, hlength⟩, ?_, rfl⟩
    · exact fun c hc => List.mem_takeWhile_imp (hrun.subset hc)
    · exact (List.prefix_iff_eq_append.mp (hrun.trans (List.takeWhile_prefix _))).symm

theorem exists_of_fixed? (h : fixed? count cs = some (n, rest)) :
    ∃ ds : Digits count (some count), cs = ds.chars ++ rest ∧ n = ds.value :=
  exists_of_digits? h

def widen (ds : Digits least (some count)) {fewer more : Nat} (hfewer : fewer ≤ least)
    (hmore : count ≤ more) :
    Digits fewer (some more) where
  chars := ds.chars
  isDigit := ds.isDigit
  le_length := Nat.le_trans hfewer ds.le_length
  length_le := by simpa using Nat.le_trans (ds.length_le count rfl) hmore

theorem exists_cons (ds : Digits (least + 1) most) :
    ∃ c r, ds.chars = c :: r ∧ Decimal.isDigit c = true := by
  obtain ⟨c, r, hcr⟩ :=
    List.exists_cons_of_length_pos (Nat.lt_of_lt_of_le (Nat.succ_pos least) ds.le_length)
  exact ⟨c, r, hcr, ds.isDigit c (hcr ▸ List.mem_cons_self)⟩

theorem not_isBlank_of_head (ds : Digits (least + 1) most) (rest : List Char) :
    ∀ c ∈ (ds.chars ++ rest).head?, isBlank c = false := by
  obtain ⟨c, r, hcr, hc⟩ := ds.exists_cons
  simpa [hcr] using Decimal.not_isBlank_of_isDigit hc

theorem year?_append (ds : Digits 1 (some 4))
    (h : some ds.chars.length = some 4 ∨ ∀ c ∈ rest.head?, Decimal.isDigit c = false) :
    year? (ds.chars ++ rest) = some ((ds.value : Int), rest) := by
  have hread := ds.digits?_append h
  obtain ⟨c, r, hcr, hc⟩ := ds.exists_cons
  rw [hcr, List.cons_append] at hread ⊢
  rw [year?_of_isDigit hc, hread, Option.map_some]

theorem within?_append (ds : Digits 2 (some 2)) {least greatest : Nat} (hleast : least ≤ ds.value)
    (hgreatest : ds.value ≤ greatest) (rest : List Char) :
    within? least greatest (ds.chars ++ rest) = some (ds.value, rest) := by
  have hread : digits? 1 (some 2) (ds.chars ++ rest) = some (ds.value, rest) :=
    (ds.widen (by decide) (Nat.le_refl 2)).digits?_append (.inl (congrArg some ds.length_eq))
  rw [within?, trimStart_of_head (ds.not_isBlank_of_head rest), hread]
  simp [hleast, hgreatest]

end Digits

structure Blanks where
  chars : List Char
  isBlank_of_mem : ∀ c ∈ chars, isBlank c = true

namespace Blanks

theorem trimStart_append (bs : Blanks) (h : ∀ c ∈ rest.head?, isBlank c = false) :
    trimStart (bs.chars ++ rest) = rest :=
  dropWhile_append_of_head bs.isBlank_of_mem h

theorem exists_of_trimStart (cs : List Char) : ∃ bs : Blanks, cs = bs.chars ++ trimStart cs :=
  ⟨⟨cs.takeWhile isBlank, fun _ => List.mem_takeWhile_imp⟩, List.takeWhile_append_dropWhile.symm⟩

end Blanks

structure Gap extends Blanks where
  ne_nil : chars ≠ []

namespace Gap

theorem blanks?_append (gap : Gap) (h : ∀ c ∈ rest.head?, isBlank c = false) :
    blanks? (gap.chars ++ rest) = some rest := by
  have htrim := gap.toBlanks.trimStart_append h
  obtain ⟨c, r, hcr⟩ := List.exists_cons_of_ne_nil gap.ne_nil
  have hc : isBlank c = true := gap.isBlank_of_mem c (hcr ▸ List.mem_cons_self)
  rw [hcr, List.cons_append, trimStart_cons_of_pos hc] at htrim
  rw [hcr, List.cons_append, blanks?, if_pos hc, htrim]

theorem not_isDigit_of_head (gap : Gap) (rest : List Char) :
    ∀ c ∈ (gap.chars ++ rest).head?, Decimal.isDigit c = false := by
  obtain ⟨c, r, hcr⟩ := List.exists_cons_of_ne_nil gap.ne_nil
  have hc : isBlank c = true := gap.isBlank_of_mem c (hcr ▸ List.mem_cons_self)
  intro _ heq
  rw [hcr] at heq
  cases heq
  rw [Bool.eq_false_iff]
  intro hdigit
  rw [Decimal.not_isBlank_of_isDigit hdigit] at hc
  cases hc

theorem exists_of_blanks? (h : blanks? cs = some rest) : ∃ gap : Gap, cs = gap.chars ++ rest := by
  cases cs with
  | nil => cases h
  | cons c r =>
    rw [blanks?] at h
    split at h
    · rename_i hc
      cases h
      obtain ⟨bs, hbs⟩ := Blanks.exists_of_trimStart r
      refine ⟨⟨⟨c :: bs.chars, List.forall_mem_cons.mpr ⟨hc, bs.isBlank_of_mem⟩⟩, List.cons_ne_nil c _⟩, ?_⟩
      rw [List.cons_append, ← hbs]
    · cases h

end Gap

structure ShortName (names : List String) where
  chars : List Char
  length_eq : chars.length = 3
  place : Nat
  read : shortName? names chars = some (place, [])

namespace ShortName

variable {names : List String}

theorem shortName?_eq (hnames : ∀ name ∈ names, (name.toList.take 3).length = 3) (cs : List Char) :
    shortName? names cs = (shortName? names (cs.take 3)).map fun read => (read.1, cs.drop 3) := by
  have hafter : ∀ name ∈ names, afterName? (String.ofList (name.toList.take 3)) cs =
      (afterName? (String.ofList (name.toList.take 3)) (cs.take 3)).map fun _ => cs.drop 3 := by
    intro name hname
    simp only [afterName?, String.toList_ofList, hnames name hname, List.take_take, Nat.min_self]
    split <;> rfl
  rw [shortName?, shortName?, List.map_findSome?]
  have hmem : ∀ entry ∈ names.zipIdx, entry.1 ∈ names := fun _ => List.fst_mem_of_mem_zipIdx
  generalize names.zipIdx = entries at hmem
  induction entries with
  | nil => rfl
  | cons entry entries ih =>
    obtain ⟨name, i⟩ := entry
    simp only [List.findSome?_cons, ih fun e he => hmem e (List.mem_cons_of_mem _ he),
      hafter name (hmem _ List.mem_cons_self), Option.map_map, Function.comp_def]

theorem shortName?_append (name : ShortName names)
    (hnames : ∀ name ∈ names, (name.toList.take 3).length = 3)
    (rest : List Char) : shortName? names (name.chars ++ rest) = some (name.place, rest) := by
  rw [shortName?_eq hnames, List.take_left' name.length_eq, List.drop_left' name.length_eq,
    name.read, Option.map_some]

theorem letters_of_shortName? (hnames : ∀ name ∈ names, (name.toList.take 3).length = 3) {i : Nat}
    (h : shortName? names cs = some (i, rest)) :
    ∃ name ∈ names, (cs.take 3).map lowerAscii = (name.toList.take 3).map lowerAscii := by
  obtain ⟨⟨name, i'⟩, hmem, hname⟩ := List.exists_of_findSome?_eq_some h
  have hmem : name ∈ names := List.fst_mem_of_mem_zipIdx hmem
  obtain ⟨_, hafter, -⟩ := Option.map_eq_some_iff.mp hname
  simp only [afterName?, String.toList_ofList, hnames name hmem] at hafter
  split at hafter
  · rename_i hletters
    exact ⟨name, hmem, hletters⟩
  · cases hafter

theorem exists_of_shortName? (hnames : ∀ name ∈ names, (name.toList.take 3).length = 3) {i : Nat}
    (h : shortName? names cs = some (i, rest)) :
    ∃ name : ShortName names, cs = name.chars ++ rest ∧ i = name.place := by
  have hlength : (cs.take 3).length = 3 := by
    obtain ⟨name, hmem, hletters⟩ := letters_of_shortName? hnames h
    rw [← List.length_map, hletters, List.length_map, hnames name hmem]
  rw [shortName?_eq hnames] at h
  obtain ⟨⟨i', rest'⟩, hread, heq⟩ := Option.map_eq_some_iff.mp h
  cases heq
  have hrest : rest' = [] := by
    rw [shortName?_eq hnames, List.drop_of_length_le (List.length_take_le 3 cs)] at hread
    obtain ⟨_, -, heq⟩ := Option.map_eq_some_iff.mp hread
    cases heq
    rfl
  rw [hrest] at hread
  exact ⟨⟨cs.take 3, hlength, _, hread⟩, (List.take_append_drop 3 cs).symm, rfl⟩

end ShortName

end Calendar

end NoteQuery
