import NoteQuery.Proofs.Calendar.Readback

/-!
# Texts that are no dates

Every reader of dates meets a blank, a name, or a mark behind a year. A text without all of
these is refused by each of them.
-/

namespace NoteQuery

set_option autoImplicit false

open Text

namespace Calendar

variable {least : Nat} {most : Option Nat} {cs rest : List Char} {n : Nat}

/-- The digits that are read are those at the start of the text, as many as are wanted,
if there are enough of them. -/
theorem exists_digits?_eq (most : Option Nat) (cs : List Char) :
    ∃ ds, ds <+: cs.takeWhile Decimal.isDigit ∧
    (∀ count ∈ most, ds.length ≤ count) ∧
    ∀ least, digits? least most cs = if ds.length < least then none
      else some (Decimal.ofDigits ds, cs.drop ds.length) := by
  cases most with
  | none => exact ⟨_, List.prefix_refl _, nofun, fun _ => rfl⟩
  | some count => exact ⟨_, List.take_prefix count _, by simp, fun _ => rfl⟩

theorem eq_drop_of_digits? (h : digits? least most cs = some (n, rest)) :
    ∃ k, k ≤ (cs.takeWhile Decimal.isDigit).length ∧ rest = cs.drop k := by
  obtain ⟨ds, hprefix, -, hread⟩ := exists_digits?_eq most cs
  rw [hread] at h
  split at h
  · cases h
  · cases h
    exact ⟨ds.length, hprefix.length_le, rfl⟩

theorem digits?_of_le {fewer : Nat} (hle : fewer ≤ least) (h : digits? least most cs = some (n, rest)) :
    digits? fewer most cs = some (n, rest) := by
  obtain ⟨ds, -, -, hread⟩ := exists_digits?_eq most cs
  rw [hread] at h ⊢
  split at h
  · cases h
  · rwa [if_neg (by omega)]

/-- Behind a number that is read stands a further digit, or what is behind all the digits. -/
theorem head?_of_digits? (h : digits? least most cs = some (n, rest)) :
    ∀ c ∈ rest.head?, Decimal.isDigit c = true ∨ c ∈ (cs.dropWhile Decimal.isDigit).head? := by
  obtain ⟨k, hk, rfl⟩ := eq_drop_of_digits? h
  intro c hc
  rw [← List.takeWhile_append_dropWhile (p := Decimal.isDigit) (l := cs),
    List.drop_append_of_le_length hk,
    List.head?_append, Option.mem_def, Option.or_eq_some_iff] at hc
  obtain hc | ⟨-, hc⟩ := hc
  · exact .inl (List.mem_takeWhile_imp (List.mem_of_mem_drop (List.mem_of_head? hc)))
  · exact .inr hc

theorem internetDate?_eq_none_of_year?
    (h : ∀ y rest, year? cs = some (y, rest) → after? ['-'] rest = none) :
    internetDate? cs = none := by
  cases cs with
  | nil => rfl
  | cons c cs =>
    cases hc : Decimal.isDigit c with
    | false => exact internetDate?_eq_none hc cs
    | true =>
      cases hfixed : fixed? 4 (c :: cs) with
      | none => exact internetDate?_eq_none_of_fixed? hfixed
      | some read =>
        obtain ⟨n, rest⟩ := read
        have hread : digits? 1 (some 4) (c :: cs) = some (n, rest) := digits?_of_le (by decide) hfixed
        have hyear : year? (c :: cs) = some ((n : Int), rest) := by rw [year?_of_isDigit hc,
          hread, Option.map_some]
        rw [internetDate?, hfixed]
        change (after? ['-'] rest).bind _ = none
        rw [h _ _ hyear, Option.bind_none]

theorem headerDate?_eq_none_of_not_isBlank (hblank : ∀ c ∈ cs, isBlank c = false)
    (hweekday : shortName? dayNames cs = none) : headerDate? cs = none := by
  have hstart : trimStart cs = cs := trimStart_of_not_isBlank hblank
  apply headerDate?_eq_none
  · rwa [hstart]
  · intro n rest hday
    rw [hstart] at hday
    obtain ⟨k, -, rfl⟩ := eq_drop_of_digits? hday
    cases hdrop : cs.drop k with
    | nil => rfl
    | cons c r =>
      have hc : isBlank c = false := hblank c (List.mem_of_mem_drop (hdrop ▸ List.mem_cons_self))
      simp [blanks?, hc]

theorem shortName?_monthNames_eq_none {c : Char} (hc : isLetter c = false) (cs : List Char) :
    shortName? monthNames (c :: cs) = none := by
  refine shortName?_eq_none ?_ hc cs
  intro name hname
  simp only [monthNames, List.mem_cons, List.not_mem_nil, or_false] at hname
  obtain rfl | rfl | rfl | rfl | rfl | rfl | rfl | rfl | rfl | rfl | rfl | rfl :=
    hname <;> exact ⟨_, _, rfl, rfl⟩

theorem monthName?_eq_none {c : Char} (hc : isLetter c = false) (cs : List Char) :
    monthName? (c :: cs) = none := by
  rw [monthName?, shortName?_monthNames_eq_none hc]

theorem read?_isoDay_append_eq_none {mark : Char}
    (h : ∀ y rest, year? cs = some (y, rest) → after? [mark] rest = none) (more : Layout) :
    Layout.read? (isoDay mark ++ more) cs = none := by
  have hparts : readParts Reading.start cs (isoDay mark ++ more) = none := by
    simp only [isoDay, List.cons_append, readParts, readPart]
    cases hyear : year? cs with
    | none => rfl
    | some read => simp [h read.1 read.2 hyear]
  rw [Layout.read?, hparts]

end Calendar

namespace Date

open Calendar

theorem ofChars?_eq_none {cs : List Char} (hblank : cs.any isBlank = false)
    (hweekday : shortName? dayNames cs = none) (hmonth : monthName? cs = none)
    (hyear : ∀ mark, mark = '-' ∨ mark = '/' → ∀ y rest, year? cs = some (y, rest) →
      after? [mark] rest = none) :
    ofChars? cs = none := by
  have hblank' : ∀ c ∈ cs, isBlank c = false := by simpa using hblank
  have hinternet : internetDate? cs = none := internetDate?_eq_none_of_year? (hyear '-' (.inl rfl))
  have hheader : headerDate? cs = none := headerDate?_eq_none_of_not_isBlank hblank' hweekday
  have hlong : longDay.read? cs = none := by simp [Layout.read?, longDay, readParts, readPart, hmonth]
  have hhyphen : ∀ more, Layout.read? (isoDay '-' ++ more) cs = none :=
    read?_isoDay_append_eq_none (hyear '-' (.inl rfl))
  have hslash : ∀ more, Layout.read? (isoDay '/' ++ more) cs = none :=
    read?_isoDay_append_eq_none (hyear '/' (.inr rfl))
  have hlayouts : layouts.findSome? (·.read? cs) = none := by
    have hday := hhyphen []
    have hday' := hslash []
    rw [List.append_nil] at hday hday'
    simp only [layouts, List.findSome?_cons, List.findSome?_nil, hday, hday', hlong, hhyphen]
  simp only [ofChars?, trim_of_not_isBlank hblank', hinternet, hheader, hlayouts]

theorem ofChars?_eq_none_of_isLetter {c : Char} {cs : List Char} (hc : isLetter c = true)
    (hblank : (c :: cs).any isBlank = false) (hweekday : shortName? dayNames (c :: cs) = none)
    (hmonth : monthName? (c :: cs) = none) : ofChars? (c :: cs) = none := by
  apply ofChars?_eq_none hblank hweekday hmonth
  intro mark _ y rest hyear
  rw [year?_eq_none hc] at hyear
  cases hyear

theorem ofChars?_eq_none_of_not_isLetter {c : Char} {cs : List Char} (hc : isLetter c = false)
    (hblank : (c :: cs).any isBlank = false)
    (hyear : ∀ mark, mark = '-' ∨ mark = '/' → ∀ y rest, year? (c :: cs) = some (y, rest) →
      after? [mark] rest = none) :
    ofChars? (c :: cs) = none :=
  ofChars?_eq_none hblank (shortName?_dayNames_eq_none hc cs) (monthName?_eq_none hc cs) hyear

end Date

end NoteQuery
