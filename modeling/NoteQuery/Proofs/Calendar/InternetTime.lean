import NoteQuery.Proofs.Calendar.FirstCharacters
import NoteQuery.Proofs.Calendar.Zones

/-!
# Internet timestamps as texts

The text of an internet timestamp is its date and time, piece by piece, and its zone. Without the
zone it would be a text of a layout, but a layout allows nothing behind it.
-/

namespace NoteQuery.Calendar

set_option autoImplicit false

open Text

structure InternetTime where
  year : Digits 4 (some 4)
  month : Digits 2 (some 2)
  day : Digits 2 (some 2)
  mark : Char
  isMark : mark = 'T' ∨ mark = 't' ∨ mark = ' '
  hour : Digits 2 (some 2)
  minute : Digits 2 (some 2)
  second : Digits 2 (some 2)
  fraction : Option (Digits 1 none)

def fractionChars : Option (Digits 1 none) → List Char
  | none => []
  | some ds => '.' :: ds.chars

variable {cs rest z : List Char} {zone : Zone} {d : Date}

theorem fraction?_append (fraction : Option (Digits 1 none))
    (h : ∀ c ∈ rest.head?, Decimal.isDigit c = false ∧ c ≠ '.') :
    fraction? (fractionChars fraction ++ rest) = some rest := by
  cases fraction with
  | none =>
    rw [fractionChars, List.nil_append]
    unfold fraction?
    split
    · exact absurd rfl (h '.' rfl).2
    · rfl
  | some ds =>
    rw [fractionChars, List.cons_append, fraction?, ds.digits?_append (.inr fun c hc => (h c hc).1),
      Option.map_some]

theorem exists_of_fraction? (h : fraction? cs = some rest) :
    ∃ fraction, cs = fractionChars fraction ++ rest := by
  unfold fraction? at h
  split at h
  · obtain ⟨read, hread, rfl⟩ := Option.map_eq_some_iff.mp h
    obtain ⟨ds, rfl, -⟩ := Digits.exists_of_digits? hread
    exact ⟨some ds, rfl⟩
  · cases h
    exact ⟨none, rfl⟩

namespace InternetTime

def chars (p : InternetTime) : List Char :=
  p.year.chars ++ '-' :: (p.month.chars ++ '-' :: (p.day.chars ++
  p.mark :: (p.hour.chars ++ ':' :: (p.minute.chars ++ ':' :: (p.second.chars ++
  fractionChars p.fraction)))))

def reading (p : InternetTime) : Reading :=
  ⟨p.year.value, p.month.value, p.day.value, p.hour.value, p.minute.value, p.second.value⟩

theorem chars_append (p : InternetTime) (rest : List Char) : p.chars ++ rest =
    p.year.chars ++ '-' :: (p.month.chars ++ '-' :: (p.day.chars ++
    p.mark :: (p.hour.chars ++ ':' :: (p.minute.chars ++ ':' :: (p.second.chars ++
    (fractionChars p.fraction ++ rest)))))) := by
  simp only [chars, List.append_assoc, List.cons_append]

theorem internetDate?_append (p : InternetTime)
    (h : ∀ c ∈ rest.head?, Decimal.isDigit c = false ∧ c ≠ '.') :
    internetDate? (p.chars ++ rest) = (internetZone? rest).bind (dateOf? p.reading) := by
  rw [p.chars_append, internetDate?]
  refine (bind_of_eq_some (p.year.fixed?_append _) _).trans ?_
  refine (bind_of_eq_some (after?_eq_some_iff.mpr rfl) _).trans ?_
  refine (bind_of_eq_some (p.month.fixed?_append _) _).trans ?_
  refine (bind_of_eq_some (after?_eq_some_iff.mpr rfl) _).trans ?_
  refine (bind_of_eq_some (p.day.fixed?_append _) _).trans ?_
  dsimp only
  rw [if_pos p.isMark]
  refine (bind_of_eq_some (p.hour.fixed?_append _) _).trans ?_
  refine (bind_of_eq_some (after?_eq_some_iff.mpr rfl) _).trans ?_
  refine (bind_of_eq_some (p.minute.fixed?_append _) _).trans ?_
  refine (bind_of_eq_some (after?_eq_some_iff.mpr rfl) _).trans ?_
  refine (bind_of_eq_some (p.second.fixed?_append _) _).trans ?_
  exact bind_of_eq_some (fraction?_append p.fraction h) _

theorem exists_of_internetDate? (h : internetDate? cs = some d) :
    ∃ (p : InternetTime) (z : List Char) (zone : Zone),
      cs = p.chars ++ z ∧ internetZone? z = some zone ∧ dateOf? p.reading zone = some d := by
  obtain ⟨⟨year, r₁⟩, hyear, h₁⟩ := Option.bind_eq_some_iff.mp h
  obtain ⟨r₂, hhyphen, h₂⟩ := Option.bind_eq_some_iff.mp h₁
  obtain ⟨⟨month, r₃⟩, hmonth, h₃⟩ := Option.bind_eq_some_iff.mp h₂
  obtain ⟨r₄, hhyphen', h₄⟩ := Option.bind_eq_some_iff.mp h₃
  obtain ⟨⟨day, r₅⟩, hday, h₅⟩ := Option.bind_eq_some_iff.mp h₄
  dsimp only at h₅
  split at h₅
  · rename_i mark r₆
    split at h₅
    · rename_i hmark
      obtain ⟨_, ⟨⟩, h₆⟩ := Option.bind_eq_some_iff.mp h₅
      obtain ⟨⟨hour, r₇⟩, hhour, h₇⟩ := Option.bind_eq_some_iff.mp h₆
      obtain ⟨r₈, hcolon, h₈⟩ := Option.bind_eq_some_iff.mp h₇
      obtain ⟨⟨minute, r₉⟩, hminute, h₉⟩ := Option.bind_eq_some_iff.mp h₈
      obtain ⟨r₁₀, hcolon', h₁₀⟩ := Option.bind_eq_some_iff.mp h₉
      obtain ⟨⟨second, r₁₁⟩, hsecond, h₁₁⟩ := Option.bind_eq_some_iff.mp h₁₀
      obtain ⟨z, hfraction, h₁₂⟩ := Option.bind_eq_some_iff.mp h₁₁
      obtain ⟨zone, hzone, hdate⟩ := Option.bind_eq_some_iff.mp h₁₂
      obtain ⟨year, rfl, rfl⟩ := Digits.exists_of_fixed? hyear
      obtain rfl := after?_eq_some_iff.mp hhyphen
      obtain ⟨month, rfl, rfl⟩ := Digits.exists_of_fixed? hmonth
      obtain rfl := after?_eq_some_iff.mp hhyphen'
      obtain ⟨day, rfl, rfl⟩ := Digits.exists_of_fixed? hday
      obtain ⟨hour, rfl, rfl⟩ := Digits.exists_of_fixed? hhour
      obtain rfl := after?_eq_some_iff.mp hcolon
      obtain ⟨minute, rfl, rfl⟩ := Digits.exists_of_fixed? hminute
      obtain rfl := after?_eq_some_iff.mp hcolon'
      obtain ⟨second, rfl, rfl⟩ := Digits.exists_of_fixed? hsecond
      obtain ⟨fraction, rfl⟩ := exists_of_fraction? hfraction
      refine ⟨⟨year, month, day, mark, hmark, hour, minute, second, fraction⟩, z, zone, ?_, hzone, hdate⟩
      rw [chars_append]
      rfl
    · cases h₅
  · cases h₅

end InternetTime

/-- The parts that may stand between the day and the time. -/
def timeMarks : List Part := [.literal 'T', .literal 't', .blank]

def zoneRanges : Ranges := zoneMarks.flatMap only

theorem not_isDigit_of_internetZone? (h : internetZone? z = some zone) :
    ∀ c ∈ z.head?, Decimal.isDigit c = false ∧ c ≠ '.' := by
  obtain ⟨c, r, rfl, hc⟩ := internetZone?_head h
  intro _ heq
  cases heq
  exact of_mem_zoneMarks hc

theorem startsIn_zoneRanges (h : internetZone? z = some zone) : StartsIn zoneRanges z := by
  obtain ⟨c, r, rfl, hc⟩ := internetZone?_head h
  exact ⟨_, List.mem_flatMap.mpr ⟨c, hc, List.mem_singleton_self _⟩, Nat.le_refl _, Nat.le_refl _⟩

theorem exists_timeMark {mark : Char} (h : mark = 'T' ∨ mark = 't' ∨ mark = ' ')
    (hour : Digits 2 (some 2)) (rest : List Char) :
    ∃ part ∈ timeMarks, part.rest? (mark :: (hour.chars ++ rest)) = some (hour.chars ++ rest) := by
  obtain rfl | rfl | rfl := h
  · exact ⟨.literal 'T', by decide, rfl⟩
  · exact ⟨.literal 't', by decide, rfl⟩
  · have htrim : trimStart (hour.chars ++ rest) = hour.chars ++ rest :=
      trimStart_of_head (hour.not_isBlank_of_head rest)
    refine ⟨.blank, by decide, ?_⟩
    simp only [Part.rest?, readPart, Option.map_some,
      trimStart_cons_of_pos (by decide : isBlank ' ' = true), htrim]

theorem reads_of_internetDate? (h : internetDate? cs = some d) :
    ∃ mark ∈ timeMarks, (isoDay '-' ++ mark :: clockWithSeconds).Reads zoneRanges cs := by
  obtain ⟨p, z, zone, rfl, hzone, hdate⟩ := InternetTime.exists_of_internetDate? h
  obtain ⟨⟨hhour, hminute, hsecond⟩, hexists⟩ := of_dateOf? hdate
  obtain ⟨-, hmonth, hday⟩ : d.year = p.year.value ∧ d.month = p.month.value ∧ d.day = p.day.value :=
    Date.fields_of_of? hexists
  have hmonthLeast : 1 ≤ p.month.value := hmonth ▸ d.isDay.one_le_month
  have hmonthGreatest : p.month.value ≤ 12 := hmonth ▸ d.isDay.month_le
  have hdayLeast : 1 ≤ p.day.value := hday ▸ d.isDay.one_le_day
  have hdayGreatest : p.day.value ≤ 31 := hday ▸ Nat.le_trans d.isDay.day_le (daysInMonth_le _ _)
  have hyear (rest : List Char) : year? (p.year.chars ++ rest) = some ((p.year.value : Int), rest) :=
    (p.year.widen (by decide) (Nat.le_refl 4)).year?_append (.inl (congrArg some p.year.length_eq))
  have hfront (rest : List Char) :
      (isoDay '-').rest? (p.year.chars ++ '-' :: (p.month.chars ++ '-' :: (p.day.chars ++ rest))) =
        some rest := by
    simp [Layout.rest?, isoDay, Part.rest?, readPart, hyear, after?,
      p.month.within?_append hmonthLeast hmonthGreatest,
      p.day.within?_append hdayLeast hdayGreatest]
  have hclock : clockWithSeconds.rest? (p.hour.chars ++ ':' :: (p.minute.chars ++
      ':' :: (p.second.chars ++ (fractionChars p.fraction ++ z)))) = some z := by
    simp [Layout.rest?, clockWithSeconds, clock, Part.rest?, readPart, after?,
      p.hour.within?_append (Nat.zero_le _) hhour,
      p.minute.within?_append (Nat.zero_le _) hminute, p.second.within?_append (Nat.zero_le _) hsecond,
      fraction?_append p.fraction (not_isDigit_of_internetZone? hzone)]
  obtain ⟨mark, hmem, hmark⟩ :=
    exists_timeMark p.isMark p.hour
      (':' :: (p.minute.chars ++ ':' :: (p.second.chars ++ (fractionChars p.fraction ++ z))))
  refine ⟨mark, hmem, z, ?_, startsIn_zoneRanges hzone⟩
  rw [p.chars_append, Layout.rest?_append, hfront, Option.bind_some, Layout.rest?, hmark,
    Option.bind_some, hclock]

end NoteQuery.Calendar
