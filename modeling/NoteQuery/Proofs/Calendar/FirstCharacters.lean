import NoteQuery.Proofs.Calendar.Refusal

/-!
# Layouts told apart by one character

What a layout leaves of a text does not depend on the numbers that it reads. Two layouts with the
same first parts leave the same text behind these parts, and the next character of that text is in
the ranges of one of them only.
-/

namespace NoteQuery.Calendar

set_option autoImplicit false

open Text

/-- Ranges of code points; the end of a text counts as the number behind the last code point. -/
abbrev Ranges := List (Nat × Nat)

def headCode : List Char → Nat
  | [] => 0x110000
  | c :: _ => c.toNat

def theEnd : Ranges := [(0x110000, 0x110000)]

def digitRanges : Ranges := [(48, 57)]

def letterRanges : Ranges := [(97, 122), (65, 90)]

def only (c : Char) : Ranges := [(c.toNat, c.toNat)]

def StartsIn (ranges : Ranges) (cs : List Char) : Prop :=
  ∃ r ∈ ranges, r.1 ≤ headCode cs ∧ headCode cs ≤ r.2

def disjoint (ranges ranges' : Ranges) : Bool :=
  ranges.all fun r => ranges'.all fun r' => r.2 < r'.1 || r'.2 < r.1

variable {ranges ranges' : Ranges} {cs rest : List Char}

theorem not_startsIn_of_disjoint (h : disjoint ranges ranges' = true) (hcs : StartsIn ranges cs) :
    ¬StartsIn ranges' cs := by
  obtain ⟨r, hr, hlow, hhigh⟩ := hcs
  rintro ⟨r', hr', hlow', hhigh'⟩
  have happart : r.2 < r'.1 ∨ r'.2 < r.1 := by
    simpa using List.all_eq_true.mp (List.all_eq_true.mp h r hr) r' hr'
  omega

theorem startsIn_append_left (h : StartsIn ranges cs) : StartsIn (ranges ++ ranges') cs :=
  let ⟨r, hr, hrange⟩ := h
  ⟨r, List.mem_append_left ranges' hr, hrange⟩

theorem startsIn_append_right (h : StartsIn ranges' cs) : StartsIn (ranges ++ ranges') cs :=
  let ⟨r, hr, hrange⟩ := h
  ⟨r, List.mem_append_right ranges hr, hrange⟩

theorem startsIn_blankRanges {c : Char} (h : isBlank c = true) (cs : List Char) :
    StartsIn blankRanges (c :: cs) := by
  simpa [isBlank, StartsIn, headCode] using h

theorem startsIn_digitRanges {c : Char} (h : Decimal.isDigit c = true) (cs : List Char) :
    StartsIn digitRanges (c :: cs) :=
  ⟨_, List.mem_singleton_self _, Decimal.isDigit_iff.mp h⟩

theorem startsIn_letterRanges {c : Char} (h : isLetter c = true) (cs : List Char) :
    StartsIn letterRanges (c :: cs) := by
  simpa [letterRanges, StartsIn, headCode] using isLetter_iff.mp h

theorem startsIn_only (c : Char) (cs : List Char) : StartsIn (only c) (c :: cs) :=
  ⟨_, List.mem_singleton_self _, Nat.le_refl _, Nat.le_refl _⟩

theorem startsIn_of_trimStart (h : StartsIn ranges (trimStart cs)) :
    StartsIn (blankRanges ++ ranges) cs := by
  cases cs with
  | nil => exact startsIn_append_right h
  | cons c cs =>
    cases hc : isBlank c with
    | true => exact startsIn_append_left (startsIn_blankRanges hc cs)
    | false =>
      rw [trimStart_cons_of_neg hc] at h
      exact startsIn_append_right h

theorem startsIn_of_digits? {least n : Nat} {most : Option Nat}
    (h : digits? (least + 1) most cs = some (n, rest)) :
    StartsIn digitRanges cs := by
  cases cs with
  | nil => cases most <;> simp [digits?] at h
  | cons c cs =>
    cases hc : Decimal.isDigit c with
    | true => exact startsIn_digitRanges hc cs
    | false =>
      rw [digits?_eq_none hc] at h
      cases h

theorem startsIn_of_within? {least greatest n : Nat} (h : within? least greatest cs = some (n, rest)) :
    StartsIn (blankRanges ++ digitRanges) cs :=
  startsIn_of_trimStart (startsIn_of_digits? (Option.filter_eq_some_iff.mp h).1)

theorem startsIn_of_year? {y : Int} (h : year? cs = some (y, rest)) :
    StartsIn (blankRanges ++ (digitRanges ++ (only '-' ++ only '+'))) cs := by
  apply startsIn_of_trimStart
  rw [year?] at h
  split at h
  · rename_i hsign
    exact hsign ▸ startsIn_append_right (startsIn_append_left (startsIn_only '-' _))
  · rename_i hsign
    exact hsign ▸ startsIn_append_right (startsIn_append_right (startsIn_only '+' _))
  · obtain ⟨read, hread, -⟩ := Option.map_eq_some_iff.mp h
    exact startsIn_append_left (startsIn_of_digits? hread)

theorem startsIn_of_monthName? {m : Nat} (h : monthName? cs = some (m, rest)) :
    StartsIn letterRanges cs := by
  cases cs with
  | nil => cases h
  | cons c cs =>
    cases hc : isLetter c with
    | true => exact startsIn_letterRanges hc cs
    | false =>
      rw [monthName?_eq_none hc] at h
      cases h

def Part.rest? (p : Part) (cs : List Char) : Option (List Char) :=
  (readPart Reading.start cs p).map (·.2)

theorem Part.map_readPart (p : Part) (r : Reading) (cs : List Char) :
    (readPart r cs p).map (·.2) = p.rest? cs := by
  cases p <;> simp [Part.rest?, readPart, Function.comp_def]

/-- The characters that a part allows first, if certain ones are allowed behind it. -/
def Part.firsts (behind : Ranges) : Part → Ranges
  | .year => blankRanges ++ (digitRanges ++ (only '-' ++ only '+'))
  | .monthName => letterRanges
  | .fraction => only '.' ++ behind
  | .blank => blankRanges ++ behind
  | .literal c => only c
  | .month | .day | .hour | .minute | .second => blankRanges ++ digitRanges

theorem Part.startsIn_firsts {p : Part} {behind : Ranges} (h : p.rest? cs = some rest)
    (hrest : StartsIn behind rest) :
    StartsIn (p.firsts behind) cs := by
  obtain ⟨⟨r, _⟩, hread, rfl⟩ := Option.map_eq_some_iff.mp h
  cases p with
  | year =>
    obtain ⟨⟨y, _⟩, hyear, heq⟩ := Option.map_eq_some_iff.mp hread
    exact startsIn_of_year? hyear
  | monthName =>
    obtain ⟨⟨m, _⟩, hmonth, heq⟩ := Option.map_eq_some_iff.mp hread
    exact startsIn_of_monthName? hmonth
  | month | day | hour | minute | second =>
    obtain ⟨⟨n, _⟩, hnumber, heq⟩ := Option.map_eq_some_iff.mp hread
    exact startsIn_of_within? hnumber
  | blank =>
    cases hread
    exact startsIn_of_trimStart hrest
  | literal c =>
    obtain ⟨_, hafter, heq⟩ := Option.map_eq_some_iff.mp hread
    rw [after?_eq_some_iff.mp hafter]
    exact startsIn_only c _
  | fraction =>
    obtain ⟨_, hfraction, heq⟩ := Option.map_eq_some_iff.mp hread
    cases heq
    unfold fraction? at hfraction
    split at hfraction
    · exact startsIn_append_left (startsIn_only '.' _)
    · cases hfraction
      exact startsIn_append_right hrest

namespace Layout

def rest? : Layout → List Char → Option (List Char)
  | [], cs => some cs
  | p :: ps, cs => (p.rest? cs).bind (rest? ps)

theorem rest?_append (l l' : Layout) (cs : List Char) :
    rest? (l ++ l') cs = (rest? l cs).bind (rest? l') := by
  induction l generalizing cs with
  | nil => rfl
  | cons p ps ih =>
    rw [List.cons_append, rest?, rest?, Option.bind_assoc]
    exact congrArg (p.rest? cs).bind (funext ih)

theorem map_readParts (l : Layout) (r : Reading) (cs : List Char) :
    (readParts r cs l).map (·.2) = rest? l cs := by
  induction l generalizing r cs with
  | nil => rfl
  | cons p ps ih =>
    rw [readParts, rest?, ← p.map_readPart r cs, Option.map_bind, Option.bind_map]
    exact congrArg (readPart r cs p).bind (funext fun read => ih read.1 read.2)

theorem rest?_of_read? {l : Layout} {d : Date} (h : l.read? cs = some d) : l.rest? cs = some [] := by
  rw [read?] at h
  split at h
  · rename_i hparts
    rw [← map_readParts l Reading.start, hparts, Option.map_some]
  · cases h

def firsts (behind : Ranges) (l : Layout) : Ranges := l.foldr (fun p after => p.firsts after) behind

theorem startsIn_firsts {l : Layout} {behind : Ranges} (h : l.rest? cs = some rest)
    (hrest : StartsIn behind rest) :
    StartsIn (l.firsts behind) cs := by
  induction l generalizing cs with
  | nil =>
    cases h
    exact hrest
  | cons p ps ih =>
    obtain ⟨_, hpart, hparts⟩ := Option.bind_eq_some_iff.mp h
    exact Part.startsIn_firsts hpart (ih hparts)

/-- Behind the parts that two layouts have in common, they allow different characters. -/
def differ (behind behind' : Ranges) : Layout → Layout → Bool
  | p :: ps, q :: qs =>
    if p = q then differ behind behind' ps qs
    else disjoint (firsts behind (p :: ps)) (firsts behind' (q :: qs))
  | l, l' => disjoint (firsts behind l) (firsts behind' l')

/-- A text that a layout reads, up to a character of the ranges. -/
def Reads (l : Layout) (behind : Ranges) (cs : List Char) : Prop :=
  ∃ rest, l.rest? cs = some rest ∧ StartsIn behind rest

theorem reads_of_read? {l : Layout} {d : Date} (h : l.read? cs = some d) : l.Reads theEnd cs :=
  ⟨[], rest?_of_read? h, _, List.mem_singleton_self _, Nat.le_refl _, Nat.le_refl _⟩

theorem not_reads_of_differ {l l' : Layout} {behind behind' : Ranges}
    (h : differ behind behind' l l' = true)
    (hreads : l.Reads behind cs) : ¬l'.Reads behind' cs := by
  obtain ⟨rest, hrest, hbehind⟩ := hreads
  rintro ⟨rest', hrest', hbehind'⟩
  have hfirsts (hdisjoint : disjoint (firsts behind l) (firsts behind' l') = true) : False :=
    not_startsIn_of_disjoint hdisjoint (startsIn_firsts hrest hbehind) (startsIn_firsts hrest' hbehind')
  induction l generalizing l' cs with
  | nil => exact hfirsts (by simpa only [differ] using h)
  | cons p ps ih =>
    cases l' with
    | nil => exact hfirsts (by simpa only [differ] using h)
    | cons q qs =>
      rw [differ] at h
      split at h
      · -- An equal part leaves both layouts the same text, on which the rest of them differ.
        rename_i hpq
        cases hpq
        obtain ⟨between, hpart, hparts⟩ := Option.bind_eq_some_iff.mp hrest
        obtain ⟨between', hpart', hparts'⟩ := Option.bind_eq_some_iff.mp hrest'
        obtain rfl : between = between' := Option.some.inj (hpart.symm.trans hpart')
        refine ih h hparts hparts' fun hdisjoint => ?_
        exact not_startsIn_of_disjoint hdisjoint (startsIn_firsts hparts hbehind)
          (startsIn_firsts hparts' hbehind')
      · exact hfirsts h

end Layout

theorem pairwise_differ_layouts :
    layouts.Pairwise fun l l' => l.differ theEnd theEnd l' = true := by decide

end NoteQuery.Calendar
