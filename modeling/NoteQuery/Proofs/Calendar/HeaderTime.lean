import NoteQuery.Proofs.Calendar.Zones

/-!
# Dates of message headers as texts

The text of a header date is a weekday, which may be missing, the date, the time, a zone, and
comments. Between two of its pieces stand blanks.
-/

namespace NoteQuery.Calendar

set_option autoImplicit false

open Text

variable {cs rest z tail : List Char} {zone : Zone} {d : Date} {n : Nat}

theorem length_take_dayNames : ∀ name ∈ dayNames, (name.toList.take 3).length = 3 := by decide

theorem length_take_monthNames : ∀ name ∈ monthNames, (name.toList.take 3).length = 3 := by decide

section Weekday

def headerWeekday? (cs : List Char) : Option (Option Nat × List Char) :=
  match shortName? dayNames (trimStart cs) with
  | some (i, ',' :: r) => some (some i, r)
  | some _ => none
  | none => some (none, cs)

def weekdayChars : Option (ShortName dayNames × Blanks) → List Char
  | none => []
  | some (name, bs) => name.chars ++ ',' :: bs.chars

theorem isLetter_of_shortName? {names : List String} {i : Nat}
    (hnames : ∀ {c}, isLetter c = false → ∀ cs, shortName? names (c :: cs) = none)
    (h : shortName? names cs = some (i, rest)) :
    ∀ c ∈ cs.head?, isLetter c = true := by
  cases cs with
  | nil => nofun
  | cons c cs =>
    intro _ heq
    cases heq
    by_contra hc
    rw [hnames (Bool.eq_false_iff.mpr hc) cs] at h
    cases h

theorem ShortName.not_isBlank_of_head {names : List String}
    (hnames : ∀ {c}, isLetter c = false → ∀ cs, shortName? names (c :: cs) = none)
    (name : ShortName names) (rest : List Char) :
    ∀ c ∈ (name.chars ++ rest).head?, isBlank c = false := by
  obtain ⟨c, r, hcr⟩ :=
    List.exists_cons_of_length_pos (Nat.lt_of_lt_of_eq (by decide : 0 < 3) name.length_eq.symm)
  intro _ heq
  rw [hcr] at heq
  cases heq
  exact not_isBlank_of_isLetter (isLetter_of_shortName? hnames name.read c (by rw [hcr]; rfl))

theorem headerWeekday?_append (before : Blanks) (weekday : Option (ShortName dayNames × Blanks))
    (hrest : ∀ c ∈ rest.head?, Decimal.isDigit c = true) (hne : rest ≠ []) :
    ∃ r, headerWeekday? (before.chars ++ (weekdayChars weekday ++ rest)) =
      some (weekday.map (·.1.place), r) ∧
      trimStart r = rest := by
  obtain ⟨c, r, rfl⟩ := List.exists_cons_of_ne_nil hne
  have hc : Decimal.isDigit c = true := hrest c rfl
  have hblank : ∀ c' ∈ (c :: r).head?, isBlank c' = false :=
    fun c' hc' => Decimal.not_isBlank_of_isDigit (hrest c' hc')
  cases weekday with
  | none =>
    have htrim := before.trimStart_append hblank
    have hname : shortName? dayNames (c :: r) = none :=
      shortName?_dayNames_eq_none (not_isLetter_of_isDigit hc) r
    refine ⟨_, ?_, htrim⟩
    rw [weekdayChars, List.nil_append, headerWeekday?, htrim, hname]
    rfl
  | some weekday =>
    obtain ⟨name, bs⟩ := weekday
    have htrim := before.trimStart_append
      (name.not_isBlank_of_head shortName?_dayNames_eq_none (',' :: (bs.chars ++ c :: r)))
    have hname := name.shortName?_append length_take_dayNames (',' :: (bs.chars ++ c :: r))
    refine ⟨_, ?_, bs.trimStart_append hblank⟩
    rw [weekdayChars, List.append_assoc, List.cons_append, headerWeekday?, htrim, hname]
    rfl

theorem exists_of_headerWeekday? {place : Option Nat} (h : headerWeekday? cs = some (place, rest)) :
    ∃ (before : Blanks) (weekday : Option (ShortName dayNames × Blanks)),
      cs = before.chars ++ (weekdayChars weekday ++ trimStart rest) ∧
        place = weekday.map (·.1.place) := by
  obtain ⟨before, hbefore⟩ := Blanks.exists_of_trimStart cs
  refine ⟨before, ?_⟩
  rw [headerWeekday?] at h
  split at h
  · rename_i hname
    cases h
    obtain ⟨name, hchars, rfl⟩ := ShortName.exists_of_shortName? length_take_dayNames hname
    obtain ⟨bs, hbs⟩ := Blanks.exists_of_trimStart rest
    refine ⟨some (name, bs), ?_, rfl⟩
    rw [hbefore, hchars, weekdayChars, List.append_assoc, List.cons_append, ← hbs]
  · cases h
  · cases h
    exact ⟨none, hbefore, rfl⟩

end Weekday

section Seconds

theorem not_isBlank_of_colon (rest : List Char) : ∀ c ∈ (':' :: rest).head?, isBlank c = false := by
  simp [isBlank, blankRanges]

def headerSecond? (cs : List Char) : Option (Nat × List Char) :=
  match trimStart cs with
  | ':' :: r => fixed? 2 r
  | _ => some (0, cs)

def secondChars : Option (Blanks × Digits 2 (some 2)) → List Char
  | none => []
  | some (bs, ds) => bs.chars ++ ':' :: ds.chars

def secondValue : Option (Blanks × Digits 2 (some 2)) → Nat
  | none => 0
  | some (_, ds) => ds.value

theorem headerSecond?_append (second : Option (Blanks × Digits 2 (some 2)))
    (hrest : ∀ c ∈ (trimStart rest).head?, c ≠ ':') :
    headerSecond? (secondChars second ++ rest) = some (secondValue second, rest) := by
  cases second with
  | none =>
    rw [secondChars, List.nil_append, headerSecond?]
    split
    · rename_i r hcolon
      exact absurd rfl (hrest ':' (hcolon ▸ rfl))
    · rfl
  | some second =>
    obtain ⟨bs, ds⟩ := second
    have htrim := bs.trimStart_append (not_isBlank_of_colon (ds.chars ++ rest))
    rw [secondChars, List.append_assoc, List.cons_append, headerSecond?, htrim]
    exact ds.fixed?_append rest

theorem exists_of_headerSecond? (h : headerSecond? cs = some (n, rest)) :
    ∃ second, cs = secondChars second ++ rest ∧ n = secondValue second := by
  rw [headerSecond?] at h
  split at h
  · rename_i r hcolon
    obtain ⟨bs, hbs⟩ := Blanks.exists_of_trimStart cs
    obtain ⟨ds, rfl, rfl⟩ := Digits.exists_of_fixed? h
    refine ⟨some (bs, ds), ?_, rfl⟩
    rw [hbs, hcolon, secondChars, List.append_assoc, List.cons_append]
  · cases h
    exact ⟨none, rfl, rfl⟩

end Seconds

def Digits.headerYear (ds : Digits 2 none) : Nat :=
  if ds.chars.length = 2 then (if ds.value < 50 then ds.value + 2000 else ds.value + 1900)
  else if ds.chars.length = 3 then ds.value + 1900
  else ds.value

theorem headerYear?_append (ds : Digits 2 none) (hrest : ∀ c ∈ rest.head?, Decimal.isDigit c = false) :
    headerYear? (ds.chars ++ rest) = some (ds.headerYear, rest) := by
  rw [headerYear?, ds.digits?_append (.inr hrest), Option.map_some]
  simp only [List.length_append, Nat.add_sub_cancel, Digits.headerYear]

theorem exists_of_headerYear? (h : headerYear? cs = some (n, rest)) :
    ∃ ds : Digits 2 none, cs = ds.chars ++ rest ∧ n = ds.headerYear := by
  obtain ⟨⟨value, r⟩, hread, heq⟩ := Option.map_eq_some_iff.mp h
  obtain ⟨ds, rfl, rfl⟩ := Digits.exists_of_digits? hread
  cases heq
  refine ⟨ds, rfl, ?_⟩
  simp only [List.length_append, Nat.add_sub_cancel, Digits.headerYear]

theorem headerWeekday?_bind {α : Type} (cs : List Char) (f : Option Nat × List Char → Option α) :
    (headerWeekday? cs).bind f =
      match shortName? dayNames (trimStart cs) with
      | some (i, ',' :: r) => (some (some i, r)).bind f
      | some _ => none.bind f
      | none => (some (none, cs)).bind f := by
  rw [headerWeekday?]
  split <;> rfl

theorem headerSecond?_bind {α : Type} (cs : List Char) (f : Nat × List Char → Option α) :
    (headerSecond? cs).bind f =
      match trimStart cs with
      | ':' :: r => (fixed? 2 r).bind f
      | _ => (some (0, cs)).bind f := by
  rw [headerSecond?]
  split <;> rfl

/-- A header date behind its weekday. -/
def headerDay? (weekday : Option Nat) (cs : List Char) : Option Date :=
  (digits? 1 (some 2) (trimStart cs)).bind fun (day, r) => (blanks? r).bind fun r =>
  (shortName? monthNames r).bind fun (month, r) => (blanks? r).bind fun r =>
  (headerYear? r).bind fun (year, r) => (blanks? r).bind fun r =>
  (fixed? 2 r).bind fun (hour, r) => (after? [':'] (trimStart r)).bind fun r =>
  (fixed? 2 (trimStart r)).bind fun (minute, r) => (headerSecond? r).bind fun (second, r) =>
  (blanks? r).bind fun r => (headerZone? r).bind fun (zone, r) =>
    if onlyComments r.length r then
      (dateOf? ⟨year, month + 1, day, hour, minute, second⟩ zone).filter fun d =>
        weekday.all (· == d.weekday)
    else none

theorem headerDate?_eq (cs : List Char) :
    headerDate? cs = (headerWeekday? cs).bind fun (weekday, r) => headerDay? weekday r := by
  rw [headerDate?]
  refine (headerWeekday?_bind cs _).symm.trans (Option.bind_congr ?_)
  rintro ⟨weekday, r⟩ -
  -- Up to the seconds both chains are the same.
  apply Option.bind_congr
  rintro ⟨day, r⟩ -
  apply Option.bind_congr
  rintro r -
  apply Option.bind_congr
  rintro ⟨month, r⟩ -
  apply Option.bind_congr
  rintro r -
  apply Option.bind_congr
  rintro ⟨year, r⟩ -
  apply Option.bind_congr
  rintro r -
  apply Option.bind_congr
  rintro ⟨hour, r⟩ -
  apply Option.bind_congr
  rintro r -
  apply Option.bind_congr
  rintro ⟨minute, r⟩ -
  exact (headerSecond?_bind r _).symm

theorem headerDay?_trimStart (weekday : Option Nat) (cs : List Char) :
    headerDay? weekday (trimStart cs) = headerDay? weekday cs := by
  rw [headerDay?, headerDay?, trimStart_trimStart]

theorem headerDate?_trimStart (cs : List Char) : headerDate? (trimStart cs) = headerDate? cs := by
  rw [headerDate?_eq, headerDate?_eq, headerWeekday?, headerWeekday?, trimStart_trimStart]
  split
  · rfl
  · rfl
  · exact headerDay?_trimStart none cs

structure HeaderTime where
  before : Blanks
  weekday : Option (ShortName dayNames × Blanks)
  day : Digits 1 (some 2)
  beforeMonth : Gap
  month : ShortName monthNames
  beforeYear : Gap
  year : Digits 2 none
  beforeHour : Gap
  hour : Digits 2 (some 2)
  beforeColon : Blanks
  behindColon : Blanks
  minute : Digits 2 (some 2)
  second : Option (Blanks × Digits 2 (some 2))
  beforeZone : Gap

namespace HeaderTime

def dayChars (p : HeaderTime) : List Char :=
  p.day.chars ++ (p.beforeMonth.chars ++ (p.month.chars ++ (p.beforeYear.chars ++
  (p.year.chars ++ (p.beforeHour.chars ++
  (p.hour.chars ++ (p.beforeColon.chars ++ ':' :: (p.behindColon.chars ++
  (p.minute.chars ++ (secondChars p.second ++ p.beforeZone.chars))))))))))

def chars (p : HeaderTime) : List Char := p.before.chars ++ (weekdayChars p.weekday ++ p.dayChars)

theorem dayChars_append (p : HeaderTime) (rest : List Char) : p.dayChars ++ rest =
    p.day.chars ++ (p.beforeMonth.chars ++ (p.month.chars ++ (p.beforeYear.chars ++
    (p.year.chars ++ (p.beforeHour.chars ++
    (p.hour.chars ++ (p.beforeColon.chars ++ ':' :: (p.behindColon.chars ++
    (p.minute.chars ++ (secondChars p.second ++ (p.beforeZone.chars ++ rest))))))))))) := by
  simp only [dayChars, List.append_assoc, List.cons_append]

theorem chars_append (p : HeaderTime) (rest : List Char) :
    p.chars ++ rest = p.before.chars ++ (weekdayChars p.weekday ++ (p.dayChars ++ rest)) := by
  simp only [chars, List.append_assoc]

def reading (p : HeaderTime) : Reading :=
  ⟨p.year.headerYear, p.month.place + 1, p.day.value, p.hour.value, p.minute.value, secondValue p.second⟩

def weekdayPlace (p : HeaderTime) : Option Nat := p.weekday.map (·.1.place)

theorem headerDay?_append (p : HeaderTime) (weekday : Option Nat)
    (htrim : trimStart cs = p.dayChars ++ rest)
    (hzone : headerZone? rest = some (zone, tail)) (htail : onlyComments tail.length tail = true) :
    headerDay? weekday cs = (dateOf? p.reading zone).filter fun d => weekday.all (· == d.weekday) := by
  obtain ⟨c, r, hcr, hblank, hcolon⟩ := headerZone?_head hzone
  have hrest : ∀ c ∈ rest.head?, isBlank c = false := by simpa [hcr] using hblank
  have hday (r : List Char) := p.day.digits?_append (.inr (p.beforeMonth.not_isDigit_of_head r))
  have hmonthGap (r : List Char) := p.beforeMonth.blanks?_append
    (p.month.not_isBlank_of_head shortName?_monthNames_eq_none r)
  have hmonth := p.month.shortName?_append length_take_monthNames
  have hyearGap (r : List Char) := p.beforeYear.blanks?_append (p.year.not_isBlank_of_head r)
  have hyear (r : List Char) := headerYear?_append p.year (p.beforeHour.not_isDigit_of_head r)
  have hhourGap (r : List Char) := p.beforeHour.blanks?_append (p.hour.not_isBlank_of_head r)
  have hcolonGap (r : List Char) := p.beforeColon.trimStart_append (not_isBlank_of_colon r)
  have hminuteGap (r : List Char) := p.behindColon.trimStart_append (p.minute.not_isBlank_of_head r)
  have hzoneGap := p.beforeZone.blanks?_append hrest
  have hsecond : headerSecond? (secondChars p.second ++ (p.beforeZone.chars ++ rest)) =
      some (secondValue p.second, p.beforeZone.chars ++ rest) := by
    apply headerSecond?_append
    rw [p.beforeZone.trimStart_append hrest, hcr]
    simpa using hcolon
  rw [headerDay?, htrim, dayChars_append]
  refine (bind_of_eq_some (hday _) _).trans ?_
  refine (bind_of_eq_some (hmonthGap _) _).trans ?_
  refine (bind_of_eq_some (hmonth _) _).trans ?_
  refine (bind_of_eq_some (hyearGap _) _).trans ?_
  refine (bind_of_eq_some (hyear _) _).trans ?_
  refine (bind_of_eq_some (hhourGap _) _).trans ?_
  refine (bind_of_eq_some (p.hour.fixed?_append _) _).trans ?_
  refine (bind_of_eq_some (after?_eq_some_iff.mpr (hcolonGap _)) _).trans ?_
  refine (bind_of_eq_some ((congrArg (fixed? 2) (hminuteGap _)).trans (p.minute.fixed?_append _)) _).trans ?_
  refine (bind_of_eq_some hsecond _).trans ?_
  refine (bind_of_eq_some hzoneGap _).trans ?_
  exact (bind_of_eq_some hzone _).trans (if_pos htail)

theorem headerDate?_append (p : HeaderTime) (hzone : headerZone? rest = some (zone, tail))
    (htail : onlyComments tail.length tail = true) :
    headerDate? (p.chars ++ rest) = (dateOf? p.reading zone).filter fun d =>
      p.weekdayPlace.all (· == d.weekday) := by
  obtain ⟨c, r, hday, hc⟩ := p.day.exists_cons
  have hdigit : ∀ c ∈ (p.dayChars ++ rest).head?, Decimal.isDigit c = true := by
    rw [dayChars, hday]
    simpa using hc
  have hne : p.dayChars ++ rest ≠ [] := by
    rw [dayChars, hday]
    nofun
  obtain ⟨r', hweekday, htrim⟩ := headerWeekday?_append p.before p.weekday hdigit hne
  rw [p.chars_append, headerDate?_eq, hweekday, Option.bind_some]
  exact p.headerDay?_append _ htrim hzone htail

theorem exists_of_headerDate? (h : headerDate? cs = some d) :
    ∃ (p : HeaderTime) (rest tail : List Char) (zone : Zone),
    cs = p.chars ++ rest ∧ headerZone? rest = some (zone, tail) ∧ onlyComments tail.length tail = true ∧
      dateOf? p.reading zone = some d ∧ p.weekdayPlace.all (· == d.weekday) = true := by
  rw [headerDate?_eq] at h
  obtain ⟨⟨weekday, r₁⟩, hweekday, h₁⟩ := Option.bind_eq_some_iff.mp h
  obtain ⟨⟨day, r₂⟩, hday, h₂⟩ := Option.bind_eq_some_iff.mp h₁
  obtain ⟨r₃, hmonthGap, h₃⟩ := Option.bind_eq_some_iff.mp h₂
  obtain ⟨⟨month, r₄⟩, hmonth, h₄⟩ := Option.bind_eq_some_iff.mp h₃
  obtain ⟨r₅, hyearGap, h₅⟩ := Option.bind_eq_some_iff.mp h₄
  obtain ⟨⟨year, r₆⟩, hyear, h₆⟩ := Option.bind_eq_some_iff.mp h₅
  obtain ⟨r₇, hhourGap, h₇⟩ := Option.bind_eq_some_iff.mp h₆
  obtain ⟨⟨hour, r₈⟩, hhour, h₈⟩ := Option.bind_eq_some_iff.mp h₇
  obtain ⟨r₉, hcolon, h₉⟩ := Option.bind_eq_some_iff.mp h₈
  obtain ⟨⟨minute, r₁₀⟩, hminute, h₁₀⟩ := Option.bind_eq_some_iff.mp h₉
  obtain ⟨⟨second, r₁₁⟩, hsecond, h₁₁⟩ := Option.bind_eq_some_iff.mp h₁₀
  obtain ⟨rest, hzoneGap, h₁₂⟩ := Option.bind_eq_some_iff.mp h₁₁
  obtain ⟨⟨zone, tail⟩, hzone, hdate⟩ := Option.bind_eq_some_iff.mp h₁₂
  dsimp only at hdate
  split at hdate
  · rename_i htail
    obtain ⟨before, weekday, rfl, rfl⟩ := exists_of_headerWeekday? hweekday
    obtain ⟨day, hdayChars, rfl⟩ := Digits.exists_of_digits? hday
    obtain ⟨beforeMonth, rfl⟩ := Gap.exists_of_blanks? hmonthGap
    obtain ⟨month, rfl, rfl⟩ := ShortName.exists_of_shortName? length_take_monthNames hmonth
    obtain ⟨beforeYear, rfl⟩ := Gap.exists_of_blanks? hyearGap
    obtain ⟨year, rfl, rfl⟩ := exists_of_headerYear? hyear
    obtain ⟨beforeHour, rfl⟩ := Gap.exists_of_blanks? hhourGap
    obtain ⟨hour, rfl, rfl⟩ := Digits.exists_of_fixed? hhour
    obtain ⟨beforeColon, hbeforeColon⟩ := Blanks.exists_of_trimStart r₈
    obtain ⟨behindColon, hbehindColon⟩ := Blanks.exists_of_trimStart r₉
    obtain ⟨minute, hminuteChars, rfl⟩ := Digits.exists_of_fixed? hminute
    obtain ⟨second, rfl, rfl⟩ := exists_of_headerSecond? hsecond
    obtain ⟨beforeZone, rfl⟩ := Gap.exists_of_blanks? hzoneGap
    obtain ⟨hdate, hagrees⟩ := Option.filter_eq_some_iff.mp hdate
    refine ⟨⟨before, weekday, day, beforeMonth, month, beforeYear, year, beforeHour, hour,
      beforeColon, behindColon, minute,
      second, beforeZone⟩, rest, tail, zone, ?_, hzone, htail, hdate, hagrees⟩
    rw [chars_append, dayChars_append, ← hminuteChars, ← hbehindColon, hdayChars, hbeforeColon,
      after?_eq_some_iff.mp hcolon]
    rfl
  · cases hdate

end HeaderTime

end NoteQuery.Calendar
