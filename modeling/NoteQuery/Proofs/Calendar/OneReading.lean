import Mathlib.Data.List.Pairwise
import NoteQuery.Proofs.Calendar.HeaderTime
import NoteQuery.Proofs.Calendar.InternetTime

/-!
# A text is a date in one way

No text is accepted by two of the readers of dates, so the order in which they are tried does not
matter. In a timestamp another zone in the place of the zone leaves the date as it is.
-/

namespace NoteQuery

set_option autoImplicit false

open Text

namespace Calendar

variable {cs z tail : List Char} {d : Date} {zone : Zone}

/-- No text is a date for both readers. -/
def Apart (f g : List Char → Option Date) : Prop := ∀ cs, f cs = none ∨ g cs = none

instance : Std.Symm Apart where
  symm _ _ h cs := (h cs).symm

theorem apart_of_forall {f g : List Char → Option Date}
    (h : ∀ cs d e, f cs = some d → g cs = some e → False) :
    Apart f g := by
  intro cs
  cases hf : f cs with
  | none => exact .inl rfl
  | some d =>
    cases hg : g cs with
    | none => exact .inr rfl
    | some e => exact (h cs d e hf hg).elim

theorem pairwise_apart_layouts : layouts.Pairwise fun l l' => Apart l.read? l'.read? :=
  pairwise_differ_layouts.imp fun hdiffer => apart_of_forall fun _ _ _ h h' =>
    Layout.not_reads_of_differ hdiffer (Layout.reads_of_read? h) (Layout.reads_of_read? h')

theorem apart_internetDate?_layout : ∀ l ∈ layouts, Apart internetDate? l.read? := by
  have hdiffer : ∀ mark ∈ timeMarks, ∀ l ∈ layouts,
      Layout.differ zoneRanges theEnd (isoDay '-' ++ mark :: clockWithSeconds) l = true := by decide
  intro l hl
  apply apart_of_forall
  intro cs d e h h'
  obtain ⟨mark, hmark, hreads⟩ := reads_of_internetDate? h
  exact Layout.not_reads_of_differ (hdiffer mark hmark l hl) hreads (Layout.reads_of_read? h')

theorem year?_trimStart (cs : List Char) : year? (trimStart cs) = year? cs := by
  rw [year?, year?, trimStart_trimStart]

/-- A header date without a weekday starts as a year would, but with a blank behind it. -/
theorem reads_of_headerDate? (h : headerDate? cs = some d)
    (hname : shortName? dayNames (trimStart cs) = none) :
    Layout.Reads [.year] blankRanges cs := by
  by_contra hnot
  have hnone : headerDate? cs = none := by
    refine headerDate?_eq_none hname fun n rest hread => ?_
    by_contra hsome
    obtain ⟨r, hblanks⟩ := Option.ne_none_iff_exists'.mp hsome
    obtain ⟨ds, hds, rfl⟩ := Digits.exists_of_digits? hread
    obtain ⟨gap, rfl⟩ := Gap.exists_of_blanks? hblanks
    obtain ⟨b, bs, hgap⟩ := List.exists_cons_of_ne_nil gap.ne_nil
    have hyear : year? cs = some ((ds.value : Int), gap.chars ++ r) := by
      rw [← year?_trimStart, hds]
      exact (ds.widen (Nat.le_refl 1) (by decide)).year?_append (.inr (gap.not_isDigit_of_head r))
    refine hnot ⟨gap.chars ++ r, ?_, ?_⟩
    · simp [Layout.rest?, Part.rest?, readPart, hyear]
    · rw [hgap]
      exact startsIn_blankRanges (gap.isBlank_of_mem b (hgap ▸ List.mem_cons_self)) _
  rw [hnone] at h
  cases h

theorem shortName?_monthNames_of_dayNames {i : Nat} {r : List Char}
    (h : shortName? dayNames cs = some (i, r)) :
    shortName? monthNames cs = none := by
  have hdiffer : ∀ name ∈ dayNames, ∀ name' ∈ monthNames,
      (name.toList.take 3).map lowerAscii ≠ (name'.toList.take 3).map lowerAscii := by decide
  cases hmonth : shortName? monthNames cs with
  | none => rfl
  | some read =>
    obtain ⟨name, hmem, hletters⟩ := ShortName.letters_of_shortName? length_take_dayNames h
    obtain ⟨name', hmem', hletters'⟩ := ShortName.letters_of_shortName? length_take_monthNames hmonth
    exact absurd (hletters.symm.trans hletters') (hdiffer name hmem name' hmem')

theorem not_reads_of_weekday {i : Nat} {r : List Char}
    (h : shortName? dayNames (trimStart cs) = some (i, r)) {l : Layout}
    (hl : l.head? = some .year ∨ l.head? = some .monthName) (behind : Ranges) : ¬l.Reads behind cs := by
  -- A year skips blanks as the weekday does; a month does not, but then the text starts with a letter.
  rintro ⟨rest, hrest, -⟩
  obtain hl | hl := hl
  · obtain ⟨ps, rfl⟩ := List.head?_eq_some_iff.mp hl
    have hyear : year? cs = none := by
      rw [← year?_trimStart]
      cases hcs : trimStart cs with
      | nil => rfl
      | cons c cs' =>
        rw [hcs] at h
        exact year?_eq_none (isLetter_of_shortName? shortName?_dayNames_eq_none h c rfl) cs'
    simp [Layout.rest?, Part.rest?, readPart, hyear] at hrest
  · obtain ⟨ps, rfl⟩ := List.head?_eq_some_iff.mp hl
    cases hmonth : shortName? monthNames cs with
    | none => simp [Layout.rest?, Part.rest?, readPart, monthName?, hmonth] at hrest
    | some read =>
      have hletter := isLetter_of_shortName? shortName?_monthNames_eq_none hmonth
      rw [trimStart_of_head fun c hc => not_isBlank_of_isLetter (hletter c hc)] at h
      rw [shortName?_monthNames_of_dayNames h] at hmonth
      cases hmonth

theorem not_reads_of_headerDate? (h : headerDate? cs = some d) {l : Layout} {behind : Ranges}
    (hl : l.head? = some .year ∨ l.head? = some .monthName)
    (hdiffer : Layout.differ blankRanges behind [.year] l = true) :
    ¬l.Reads behind cs := by
  cases hname : shortName? dayNames (trimStart cs) with
  | none => exact Layout.not_reads_of_differ hdiffer (reads_of_headerDate? h hname)
  | some read => exact not_reads_of_weekday hname hl behind

theorem apart_headerDate?_layout : ∀ l ∈ layouts, Apart headerDate? l.read? := by
  have hdiffer : ∀ l ∈ layouts, (l.head? = some .year ∨ l.head? = some .monthName) ∧
      Layout.differ blankRanges theEnd [.year] l = true := by decide
  intro l hl
  apply apart_of_forall
  intro cs d e h h'
  exact not_reads_of_headerDate? h (hdiffer l hl).1 (hdiffer l hl).2 (Layout.reads_of_read? h')

theorem apart_internetDate?_headerDate? : Apart internetDate? headerDate? := by
  have hdiffer : ∀ mark ∈ timeMarks,
      Layout.differ blankRanges zoneRanges [.year] (isoDay '-' ++ mark :: clockWithSeconds) =
        true := by decide
  apply apart_of_forall
  intro cs d e h h'
  obtain ⟨mark, hmark, hreads⟩ := reads_of_internetDate? h
  exact not_reads_of_headerDate? h' (.inl rfl) (hdiffer mark hmark) hreads

/-- The readers of dates, in the order in which they are tried. -/
def readers : List (List Char → Option Date) := internetDate? :: headerDate? :: layouts.map Layout.read?

theorem pairwise_apart_readers : readers.Pairwise Apart := by
  refine List.pairwise_cons.mpr ⟨?_,
    List.pairwise_cons.mpr ⟨?_, List.pairwise_map.mpr pairwise_apart_layouts⟩⟩
  · exact List.forall_mem_cons.mpr ⟨apart_internetDate?_headerDate?,
      List.forall_mem_map.mpr apart_internetDate?_layout⟩
  · exact List.forall_mem_map.mpr apart_headerDate?_layout

theorem eq_of_mem_readers {f g : List Char → Option Date} (hf : f ∈ readers)
    (hg : g ∈ readers) {e : Date} (hd : f cs = some d) (he : g cs = some e) : d = e := by
  by_cases hfg : f = g
  · rw [hfg, he] at hd
    exact (Option.some.inj hd).symm
  · obtain hnone | hnone := pairwise_apart_readers.forall hf hg hfg cs
    · rw [hnone] at hd
      cases hd
    · rw [hnone] at he
      cases he

/-- Whatever the order of the readers, a text has the date that one of them gives it. -/
theorem findSome?_eq_some_iff {rs : List (List Char → Option Date)} (hrs : ∀ f ∈ rs, f ∈ readers) :
    rs.findSome? (fun read => read cs) = some d ↔ ∃ f ∈ rs, f cs = some d := by
  constructor
  · exact List.exists_of_findSome?_eq_some
  · rintro ⟨f, hf, hd⟩
    have hisSome : (rs.findSome? fun read => read cs).isSome = true :=
      List.findSome?_isSome_iff.mpr ⟨f, hf, by rw [hd]; rfl⟩
    obtain ⟨e, he⟩ := Option.isSome_iff_exists.mp hisSome
    obtain ⟨g, hg, hge⟩ := List.exists_of_findSome?_eq_some he
    rw [he, eq_of_mem_readers (hrs f hf) (hrs g hg) hd hge]

end Calendar

namespace Date

open Calendar

variable {cs z tail : List Char} {d : Date}

theorem ofChars?_eq_findSome? (cs : List Char) :
    ofChars? cs = readers.findSome? fun read => read (trim cs) := by
  simp only [ofChars?, readers, List.findSome?_cons, List.findSome?_map, Function.comp_def]
  cases internetDate? (trim cs) with
  | some d => rfl
  | none => cases headerDate? (trim cs) <;> rfl

theorem ofChars?_eq_some_iff : ofChars? cs = some d ↔ ∃ f ∈ readers, f (trim cs) = some d := by
  rw [ofChars?_eq_findSome?]
  exact findSome?_eq_some_iff fun _ hf => hf

theorem findSome?_eq_ofChars? {rs : List (List Char → Option Date)}
    (hrs : ∀ f, f ∈ rs ↔ f ∈ readers) (cs : List Char) :
    (rs.findSome? fun read => read (trim cs)) = ofChars? cs := by
  ext d
  rw [findSome?_eq_some_iff fun f hf => (hrs f).mp hf, ofChars?_eq_some_iff]
  simp only [hrs]

structure IsGregorian (d : Date) : Prop where
  month_mem : 1 ≤ d.month ∧ d.month ≤ 12
  day_mem : 1 ≤ d.day ∧ d.day ≤ 31
  thirty_days : d.month = 4 ∨ d.month = 6 ∨ d.month = 9 ∨ d.month = 11 → d.day ≤ 30
  february : d.month = 2 → d.day ≤ 28 ∨ d.day = 29 ∧ 4 ∣ d.year ∧ (100 ∣ d.year → 400 ∣ d.year)

theorem isGregorian (d : Date) : IsGregorian d := by
  obtain ⟨-, -, hmonth, hmonth', hday, hday'⟩ := d.isDay
  refine ⟨⟨hmonth, hmonth'⟩, ⟨hday, Nat.le_trans hday' (daysInMonth_le _ _)⟩,
    fun hthirty => ?_, fun hfebruary => ?_⟩
  · rw [daysInMonth, if_neg (by omega), if_pos hthirty] at hday'
    exact hday'
  · rw [daysInMonth, if_pos hfebruary] at hday'
    split at hday'
    · rename_i hleap
      have hrule := (isLeapYear_iff d.year).mp hleap
      omega
    · exact .inl hday'

def internetZones : Set (List Char) := { z | (internetZone? z).isSome }

def headerZones : Set (List Char) := { z | ∃ zone, headerZone? z = some (zone, []) }

theorem ofChars?_internet {p : InternetTime} (hz : z ∈ internetZones)
    (h : internetDate? (p.chars ++ z) = some d)
    {z' : List Char} (hz' : z' ∈ internetZones) : ofChars? (p.chars ++ z') = some d := by
  obtain ⟨zone, hzone⟩ := Option.isSome_iff_exists.mp hz
  obtain ⟨zone', hzone'⟩ := Option.isSome_iff_exists.mp hz'
  have hyear : p.reading.year ≤ 9999 := by
    have hlt : p.year.value < 10000 := p.year.value_lt
    simp only [InternetTime.reading]
    omega
  have htrim : trim (p.chars ++ z') = p.chars ++ z' := by
    obtain ⟨c, r, rfl, -⟩ := internetZone?_head hzone'
    refine trim_eq_self_iff.mpr ⟨?_, ?_⟩
    · rw [p.chars_append]
      exact trimStart_of_head (p.year.not_isBlank_of_head _)
    · exact trimEnd_append (List.cons_ne_nil c r)
        (trimEnd_of_not_isBlank (not_isBlank_of_internetZone? hzone')) _
  rw [p.internetDate?_append (not_isDigit_of_internetZone? hzone), hzone, Option.bind_some] at h
  refine ofChars?_eq_some_iff.mpr ⟨internetDate?, List.mem_cons_self, ?_⟩
  rw [htrim, p.internetDate?_append (not_isDigit_of_internetZone? hzone'), hzone', Option.bind_some]
  exact dateOf?_of_year_le h (Int.natCast_nonneg _) hyear zone'

theorem headerYear_le {ds : Digits 2 none} (h : ds.chars.length ≤ 4) : ds.headerYear ≤ 9999 := by
  have hvalue : ds.value < Nat.pow 10 ds.chars.length := Decimal.ofDigits_lt ds.isDigit
  have hleast := ds.le_length
  rw [Digits.headerYear]
  split
  · rename_i htwo
    rw [htwo] at hvalue
    have hlt : ds.value < 100 := hvalue
    split <;> omega
  · split
    · rename_i hthree
      rw [hthree] at hvalue
      have hlt : ds.value < 1000 := hvalue
      omega
    · have hfour : ds.chars.length = 4 := by omega
      rw [hfour] at hvalue
      exact Nat.le_of_lt_succ hvalue

theorem ofChars?_header {p : HeaderTime} (hz : z ∈ headerZones)
    (htail : onlyComments tail.length tail = true)
    (hend : trimEnd tail = tail) (hyear : p.year.chars.length ≤ 4)
    (h : headerDate? (p.chars ++ (z ++ tail)) = some d) {z' : List Char} (hz' : z' ∈ headerZones) :
    ofChars? (p.chars ++ (z' ++ tail)) = some d := by
  obtain ⟨zone, hzone⟩ := hz
  obtain ⟨zone', hzone'⟩ := hz'
  have hletter := not_isLetter_of_onlyComments htail
  obtain ⟨hne, hchars⟩ := not_isBlank_of_headerZone? hzone'
  have htrimEnd : trimEnd (z' ++ tail) = z' ++ tail := by
    cases tail with
    | nil => rw [List.append_nil, trimEnd_of_not_isBlank hchars]
    | cons c r => exact trimEnd_append (List.cons_ne_nil c r) hend z'
  have htrim : trim (p.chars ++ (z' ++ tail)) = trimStart (p.chars ++ (z' ++ tail)) := by
    obtain ⟨bs, hbs⟩ := Blanks.exists_of_trimStart (p.chars ++ (z' ++ tail))
    have hwhole : trimEnd (p.chars ++ (z' ++ tail)) = p.chars ++ (z' ++ tail) :=
      trimEnd_append (List.append_ne_nil_of_left_ne_nil hne tail) htrimEnd _
    rw [hbs] at hwhole
    exact trimEnd_of_append hwhole
  rw [p.headerDate?_append (headerZone?_append hzone hletter) htail] at h
  obtain ⟨hdate, hagrees⟩ := Option.filter_eq_some_iff.mp h
  refine ofChars?_eq_some_iff.mpr ⟨headerDate?, List.mem_cons_of_mem _ List.mem_cons_self, ?_⟩
  rw [htrim, headerDate?_trimStart, p.headerDate?_append (headerZone?_append hzone' hletter) htail]
  have hdate' := dateOf?_of_year_le hdate (Int.natCast_nonneg _)
    (by simpa [HeaderTime.reading] using headerYear_le hyear) zone'
  exact Option.filter_eq_some_iff.mpr ⟨hdate', hagrees⟩

theorem unambiguous_and_zone_independent :
    readers.Pairwise Apart ∧
    (∀ rs : List (List Char → Option Date), (∀ f, f ∈ rs ↔ f ∈ readers) →
      ∀ cs, (rs.findSome? fun read => read (trim cs)) = ofChars? cs) ∧
    (∀ cs d, ofChars? cs = some d → d.IsGregorian) ∧
    (∀ cs d, internetDate? (trim cs) = some d → ∃ p : InternetTime, ∃ z ∈ internetZones,
      trim cs = p.chars ++ z ∧
      ∀ z' ∈ internetZones, ofChars? (p.chars ++ z') = some d) ∧
    (∀ cs d, headerDate? (trim cs) = some d → ∃ p : HeaderTime, ∃ z ∈ headerZones, ∃ comments,
      onlyComments comments.length comments = true ∧ trim cs = p.chars ++ (z ++ comments) ∧
      (p.year.chars.length ≤ 4 → ∀ z' ∈ headerZones,
        ofChars? (p.chars ++ (z' ++ comments)) = some d)) := by
  refine ⟨pairwise_apart_readers, fun rs hrs => findSome?_eq_ofChars? hrs,
    fun cs d _ => d.isGregorian, ?_, ?_⟩
  · intro cs d h
    obtain ⟨p, z, zone, hcs, hzone, -⟩ := InternetTime.exists_of_internetDate? h
    have hz : z ∈ internetZones := Option.isSome_iff_exists.mpr ⟨zone, hzone⟩
    rw [hcs] at h
    exact ⟨p, z, hz, hcs, fun z' hz' => ofChars?_internet hz h hz'⟩
  · intro cs d h
    obtain ⟨p, rest, comments, zone, hcs, hread, hcomments, -, -⟩ := HeaderTime.exists_of_headerDate? h
    obtain ⟨z, rfl, -, hzone⟩ := exists_of_headerZone? hread
    -- The whole text ends without a blank, and so do its comments.
    have hz : z ∈ headerZones := ⟨zone, by simpa using hzone [] nofun⟩
    have hend : trimEnd comments = comments := by
      have htrimmed : trimEnd (trim cs) = trim cs := (trim_eq_self_iff.mp (trim_trim cs)).2
      rw [hcs] at htrimmed
      exact trimEnd_of_append (trimEnd_of_append htrimmed)
    rw [hcs] at h
    exact ⟨p, z, hz, comments, hcomments, hcs,
      fun hyear z' hz' => ofChars?_header hz hcomments hend hyear h hz'⟩

theorem unambiguous_and_zone_independent_evening :
    (readers.reverse.findSome? fun read => read (trim " 2024-11-09T23:30:00-05:00".toList)) =
      some ⟨2024, 11, 9, by decide⟩ := by
  rw [unambiguous_and_zone_independent.2.1 readers.reverse fun f => List.mem_reverse]
  decide

end Date

end NoteQuery
