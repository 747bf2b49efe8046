import Mathlib.Tactic.IntervalCases
import NoteQuery.Proofs.Calendar.Digits
import NoteQuery.Query.Field

/-!
# Written dates are read back

A date in words and a date in numbers are read as the date that was written. The readers that are
tried before the right one refuse the text, each at its first characters. So a cell that shows a
date shows it again when it is read as metadata.
-/

namespace NoteQuery

set_option autoImplicit false

open Text

namespace Calendar

theorem isLetter_iff {c : Char} :
    isLetter c = true ↔ (97 ≤ c.toNat ∧ c.toNat ≤ 122) ∨ (65 ≤ c.toNat ∧ c.toNat ≤ 90) := by
  simp only [isLetter, Bool.or_eq_true, Bool.and_eq_true, decide_eq_true_eq]
  exact Iff.rfl

theorem not_isLetter_of_isDigit {c : Char} (h : Decimal.isDigit c = true) : isLetter c = false := by
  rw [Decimal.isDigit_iff] at h
  rw [Bool.eq_false_iff, Ne, isLetter_iff]
  omega

theorem not_isDigit_of_isLetter {c : Char} (h : isLetter c = true) : Decimal.isDigit c = false := by
  rw [Bool.eq_false_iff]
  intro hdigit
  rw [not_isLetter_of_isDigit hdigit] at h
  cases h

theorem not_isBlank_of_isLetter {c : Char} (h : isLetter c = true) : isBlank c = false := by
  rw [isLetter_iff] at h
  exact not_isBlank_of_visible (by omega) (by omega)

theorem lowerAscii_of_not_isLetter {c : Char} (h : isLetter c = false) : lowerAscii c = c := by
  rw [lowerAscii, if_neg]
  rintro ⟨hlow, hhigh⟩
  simp [isLetter, hlow, hhigh] at h

/-- No name starts with a character that is no letter. -/
theorem shortName?_eq_none {names : List String}
    (hnames : ∀ name ∈ names, ∃ c r, (name.toList.take 3).map lowerAscii = c :: r ∧
      isLetter c = true) {c : Char}
    (hc : isLetter c = false) (cs : List Char) : shortName? names (c :: cs) = none := by
  rw [shortName?, List.findSome?_eq_none_iff]
  rintro ⟨name, i⟩ hmem
  obtain ⟨c', r, hname, hc'⟩ := hnames name (List.fst_mem_of_mem_zipIdx hmem)
  obtain ⟨k, hk⟩ : ∃ k, (name.toList.take 3).length = k + 1 := by
    refine ⟨r.length, ?_⟩
    rw [← List.length_map (f := lowerAscii), hname, List.length_cons]
  have hafter : afterName? (String.ofList (name.toList.take 3)) (c :: cs) = none := by
    simp only [afterName?, String.toList_ofList, hk, List.take_succ_cons, List.map_cons, hname]
    rw [if_neg]
    intro heq
    rw [← (List.cons.inj heq).1, lowerAscii_of_not_isLetter hc, hc] at hc'
    cases hc'
  simp only [hafter, Option.map_none]

theorem shortName?_dayNames_eq_none {c : Char} (hc : isLetter c = false) (cs : List Char) :
    shortName? dayNames (c :: cs) = none := by
  refine shortName?_eq_none ?_ hc cs
  intro name hname
  simp only [dayNames, List.mem_cons, List.not_mem_nil, or_false] at hname
  rcases hname with rfl | rfl | rfl | rfl | rfl | rfl | rfl <;> exact ⟨_, _, rfl, rfl⟩

theorem internetDate?_eq_none_of_fixed? {cs : List Char} (h : fixed? 4 cs = none) :
    internetDate? cs = none := by
  rw [internetDate?, h]
  rfl

theorem internetDate?_eq_none {c : Char} (hc : Decimal.isDigit c = false) (cs : List Char) :
    internetDate? (c :: cs) = none :=
  internetDate?_eq_none_of_fixed? (digits?_eq_none hc cs)

/-- Without a weekday, a date of a message header starts with a day and a blank. -/
theorem headerDate?_eq_none {cs : List Char} (hname : shortName? dayNames (trimStart cs) = none)
    (hday : ∀ n rest, digits? 1 (some 2) (trimStart cs) = some (n, rest) → blanks? rest = none) :
    headerDate? cs = none := by
  have hbind : ∃ f : Nat × List Char → List Char → Option Date,
      headerDate? cs = (digits? 1 (some 2) (trimStart cs)).bind fun read =>
        (blanks? read.2).bind (f read) := by
    simp only [headerDate?, hname]
    exact ⟨_, rfl⟩
  obtain ⟨f, hf⟩ := hbind
  rw [hf]
  cases hread : digits? 1 (some 2) (trimStart cs) with
  | none => rfl
  | some read => rw [Option.bind_some, hday read.1 read.2 hread, Option.bind_none]

theorem headerDate?_eq_none_of_head {c : Char} (hblank : isBlank c = false)
    (hdigit : Decimal.isDigit c = false)
    {cs : List Char} (hname : shortName? dayNames (c :: cs) = none) : headerDate? (c :: cs) = none := by
  apply headerDate?_eq_none
  · rwa [trimStart_cons_of_neg hblank]
  · intro n rest hread
    rw [trimStart_cons_of_neg hblank, digits?_eq_none hdigit] at hread
    cases hread

/-- A third digit stands where the blank behind the day would be. -/
theorem headerDate?_eq_none_of_digits {a b c : Char} (ha : Decimal.isDigit a = true)
    (hb : Decimal.isDigit b = true)
    (hc : Decimal.isDigit c = true) (cs : List Char) : headerDate? (a :: b :: c :: cs) = none := by
  have hstart : trimStart (a :: b :: c :: cs) = a :: b :: c :: cs :=
    trimStart_cons_of_neg (Decimal.not_isBlank_of_isDigit ha) _
  have htwo : ∀ d ∈ [a, b], Decimal.isDigit d = true := by simp [ha, hb]
  have hwrites := Decimal.writes_ofList (List.cons_ne_nil a [b]) htwo
  have hlength : (String.ofList [a, b]).toList.length = 2 := by simp
  have hread := digits?_of_length hwrites hlength (by decide : 1 ≤ 2) (c :: cs)
  rw [String.toList_ofList] at hread
  apply headerDate?_eq_none
  · rw [hstart]
    exact shortName?_dayNames_eq_none (not_isLetter_of_isDigit ha) _
  · intro n rest hday
    rw [hstart, show a :: b :: c :: cs = [a, b] ++ c :: cs from rfl, hread] at hday
    cases hday
    simp [blanks?, Decimal.not_isBlank_of_isDigit hc]

theorem year?_eq_none {c : Char} (hc : isLetter c = true) (cs : List Char) : year? (c :: cs) = none := by
  rw [year?, trimStart_cons_of_neg (not_isBlank_of_isLetter hc)]
  split
  · rename_i heq
    rw [(List.cons.inj heq).1] at hc
    cases hc
  · rename_i heq
    rw [(List.cons.inj heq).1] at hc
    cases hc
  · rw [digits?_eq_none (not_isDigit_of_isLetter hc), Option.map_none]

theorem read?_isoDay_eq_none {c : Char} (hc : isLetter c = true) (cs : List Char) (mark : Char) :
    (isoDay mark).read? (c :: cs) = none := by
  simp [Layout.read?, isoDay, readParts, readPart, year?_eq_none hc]

end Calendar

namespace Date

open Calendar

theorem monthName?_monthName (d : Date) (rest : List Char) :
    monthName? (d.monthName.toList ++ ' ' :: rest) = some (d.month, ' ' :: rest) := by
  have hleast := d.isDay.one_le_month
  have hgreatest := d.isDay.month_le
  rw [monthName]
  generalize d.month = m at *
  interval_cases m <;> rfl

theorem shortName?_dayNames_monthName (d : Date) (rest : List Char) :
    shortName? dayNames (d.monthName.toList ++ rest) = none := by
  have hleast := d.isDay.one_le_month
  have hgreatest := d.isDay.month_le
  rw [monthName]
  generalize d.month = m at *
  interval_cases m <;> rfl

theorem exists_monthName_eq_cons (d : Date) :
    ∃ c r, d.monthName.toList = c :: r ∧ isLetter c = true := by
  have hleast := d.isDay.one_le_month
  have hgreatest := d.isDay.month_le
  rw [monthName]
  generalize d.month = m at *
  interval_cases m <;> exact ⟨_, _, rfl, rfl⟩

theorem day_lt (d : Date) : d.day < Nat.pow 10 2 :=
  Nat.lt_of_le_of_lt (Nat.le_trans d.isDay.day_le (daysInMonth_le d.year d.month)) (by decide)

theorem within?_day (d : Date) (rest : List Char) :
    within? 1 31 ((padded 2 d.day).toList ++ rest) = some (d.day, rest) := by
  have hday : d.day ≤ 31 := Nat.le_trans d.isDay.day_le (daysInMonth_le d.year d.month)
  exact within?_padded d.isDay.one_le_day hday (by omega) rest

theorem within?_month (d : Date) (rest : List Char) :
    within? 1 12 ((padded 2 d.month).toList ++ rest) = some (d.month, rest) := by
  have hmonth := d.isDay.month_le
  exact within?_padded d.isDay.one_le_month hmonth (by omega) rest

theorem toList_longText (d : Date) : d.longText.toList =
    d.monthName.toList ++ ' ' ::
      ((padded 2 d.day).toList ++ ',' :: ' ' :: (yearText d.year).toList) := by
  simp [longText, String.toList_append]

theorem toList_isoText (d : Date) : d.isoText.toList =
    (yearText d.year).toList ++ '-' ::
      ((padded 2 d.month).toList ++ '-' :: (padded 2 d.day).toList) := by
  simp [isoText, String.toList_append]

theorem trim_longText (d : Date) : trim d.longText.toList = d.longText.toList := by
  obtain ⟨c, r, hname, hc⟩ := d.exists_monthName_eq_cons
  have hyear := trimEnd_of_not_isBlank (not_isBlank_of_mem_yearText (y := d.year))
  have hne : (yearText d.year).toList ≠ [] := yearText_ne_nil d.year
  rw [toList_longText]
  refine trim_eq_self_iff.mpr ⟨?_, ?_⟩
  · rw [hname, List.cons_append, trimStart_cons_of_neg (not_isBlank_of_isLetter hc)]
  · simpa using trimEnd_append hne hyear
      (d.monthName.toList ++ ' ' :: ((padded 2 d.day).toList ++ [',', ' ']))

theorem trim_isoText (d : Date) : trim d.isoText.toList = d.isoText.toList := by
  have hmonth := (writes_padded 2 d.month).not_isBlank
  have hday := (writes_padded 2 d.day).not_isBlank
  rw [toList_isoText]
  apply trim_of_not_isBlank
  intro c hc
  simp only [List.mem_append, List.mem_cons] at hc
  rcases hc with hc | rfl | hc | rfl | hc
  · exact not_isBlank_of_mem_yearText c hc
  · decide
  · exact hmonth c hc
  · decide
  · exact hday c hc

theorem read?_longText (d : Date) : longDay.read? d.longText.toList = some d := by
  have hday : ∀ rest, trimStart (' ' :: ((padded 2 d.day).toList ++ rest)) =
    (padded 2 d.day).toList ++ rest := by
    intro rest
    rw [trimStart_cons_of_pos (by decide), trimStart_digits_append (writes_padded 2 d.day)]
  have hyear : trimStart (' ' :: (yearText d.year).toList) = (yearText d.year).toList := by
    rw [trimStart_cons_of_pos (by decide), trimStart_of_not_isBlank not_isBlank_of_mem_yearText]
  have hyear' : year? (yearText d.year).toList = some (d.year, []) := by
    simpa using year?_yearText d.year [] (by simp)
  rw [toList_longText]
  simp [Layout.read?, longDay, readParts, readPart, monthName?_monthName, hday, within?_day, after?,
    hyear, hyear', of?_self]

theorem read?_isoText (d : Date) : (isoDay '-').read? d.isoText.toList = some d := by
  have hyear := fun rest => year?_yearText d.year ('-' :: rest) (by simp [Decimal.isDigit])
  have hday : within? 1 31 (padded 2 d.day).toList = some (d.day, []) := by simpa using d.within?_day []
  rw [toList_isoText]
  simp [Layout.read?, isoDay, readParts, readPart, hyear, within?_month, hday, after?, of?_self]

theorem ofText?_longText (d : Date) : ofText? d.longText = some d := by
  obtain ⟨c, r, hname, hc⟩ := d.exists_monthName_eq_cons
  obtain ⟨cs, hcs⟩ : ∃ cs, d.longText.toList = c :: cs :=
    ⟨_, by rw [toList_longText, hname, List.cons_append]⟩
  have hinternet : internetDate? d.longText.toList = none := by
    rw [hcs]
    exact internetDate?_eq_none (not_isDigit_of_isLetter hc) cs
  have hheader : headerDate? d.longText.toList = none := by
    have hweekday := d.shortName?_dayNames_monthName
      (' ' :: ((padded 2 d.day).toList ++ ',' :: ' ' :: (yearText d.year).toList))
    rw [← toList_longText, hcs] at hweekday
    rw [hcs]
    exact headerDate?_eq_none_of_head (not_isBlank_of_isLetter hc) (not_isDigit_of_isLetter hc) hweekday
  have hlayouts : layouts.findSome? (·.read? d.longText.toList) = some d := by
    have hiso : ∀ mark, (isoDay mark).read? d.longText.toList = none := hcs ▸ read?_isoDay_eq_none hc cs
    simp only [layouts, List.findSome?_cons, hiso, read?_longText]
  simp only [ofText?, ofChars?, trim_longText, hinternet, hheader, hlayouts]

/-- A date in numbers starts with a sign, or with four digits and a hyphen. -/
theorem toList_isoText_cases (d : Date) :
    (∃ c r, d.isoText.toList = c :: r ∧ Decimal.isDigit c = false ∧ isBlank c = false ∧
      isLetter c = false) ∨
    d.year.natAbs < Nat.pow 10 4 ∧ d.isoText.toList =
      (padded 4 d.year.natAbs).toList ++ '-' ::
        ((padded 2 d.month).toList ++ '-' :: (padded 2 d.day).toList) := by
  rw [toList_isoText]
  rcases toList_yearText d.year with ⟨-, htext⟩ | ⟨-, htext⟩ | ⟨-, hfour, htext⟩
  · rw [htext, List.cons_append]
    exact .inl ⟨_, _, rfl, by decide, by decide, by decide⟩
  · rw [htext, List.cons_append]
    exact .inl ⟨_, _, rfl, by decide, by decide, by decide⟩
  · rw [htext]
    exact .inr ⟨hfour, rfl⟩

theorem internetDate?_isoText (d : Date) : internetDate? d.isoText.toList = none := by
  rcases d.toList_isoText_cases with ⟨c, r, htext, hdigit, -, -⟩ | ⟨hfour, htext⟩
  · rw [htext]
    exact internetDate?_eq_none hdigit r
  · -- The text ends where a time would start.
    have hmonth : d.month < Nat.pow 10 2 := Nat.lt_of_le_of_lt d.isDay.month_le (by decide)
    have hday : fixed? 2 (padded 2 d.day).toList = some (d.day, []) := by
      simpa using fixed?_padded 2 (by decide) d.day_lt []
    rw [htext]
    simp [internetDate?, fixed?_padded 4 (by decide) hfour,
      fixed?_padded 2 (by decide) hmonth, hday, after?]

theorem headerDate?_isoText (d : Date) : headerDate? d.isoText.toList = none := by
  rcases d.toList_isoText_cases with ⟨c, r, htext, hdigit, hblank, hletter⟩ | ⟨hfour, htext⟩
  · rw [htext]
    exact headerDate?_eq_none_of_head hblank hdigit (shortName?_dayNames_eq_none hletter r)
  · obtain ⟨a, b, c, e, habce⟩ := List.length_eq_four.mp (length_padded (by decide) hfour)
    have hdigits := (writes_padded 4 d.year.natAbs).isDigit
    rw [habce] at hdigits
    rw [htext, habce]
    exact headerDate?_eq_none_of_digits (hdigits a (by simp)) (hdigits b (by simp))
      (hdigits c (by simp)) _

theorem ofText?_isoText (d : Date) : ofText? d.isoText = some d := by
  have hlayouts : layouts.findSome? (·.read? d.isoText.toList) = some d := by
    simp only [layouts, List.findSome?_cons, read?_isoText]
  simp only [ofText?, ofChars?, trim_isoText, internetDate?_isoText, headerDate?_isoText, hlayouts]

end Date

namespace Field

theorem cell_text (s : String) : cell (.text s) = ((Date.ofText? s).map Date.longText).getD s := rfl

theorem longText_fixed_point : (∀ d : Date, Date.ofText? d.longText = some d) ∧
    ∀ s : String, cell (.text (cell (.text s))) = cell (.text s) := by
  refine ⟨Date.ofText?_longText, fun s => ?_⟩
  cases hs : Date.ofText? s with
  | none =>
    have hcell : cell (.text s) = s := by rw [cell_text, hs, Option.map_none, Option.getD_none]
    rw [hcell, hcell]
  | some d =>
    have hcell : cell (.text s) = d.longText := by rw [cell_text, hs, Option.map_some, Option.getD_some]
    rw [hcell, cell_text, Date.ofText?_longText, Option.map_some, Option.getD_some]

end Field

end NoteQuery
