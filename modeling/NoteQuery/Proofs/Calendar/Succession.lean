import Mathlib.Data.Prod.Lex
import Mathlib.Order.Cover
import NoteQuery.Calendar.Date

/-!
# The order of dates

Dates are ordered by year, month and day. The next day and the day before are the neighbours of a
date in this order, and the count of days goes on by one between neighbours. Only the first and the
last supported day lack a neighbour.
-/

namespace NoteQuery

set_option autoImplicit false

namespace Calendar

theorem daysInMonth_twelve (year : Int) : daysInMonth year 12 = 31 := rfl

/-- The days of the first months of a year. -/
def daysThrough (year : Int) : Nat → Nat
  | 0 => 0
  | count + 1 => daysThrough year count + daysInMonth year (count + 1)

theorem foldl_daysInMonth (year : Int) (day count : Nat) :
    (List.range count).foldl (fun n i => n + daysInMonth year (i + 1)) day =
      daysThrough year count + day := by
  induction count with
  | zero => exact (Nat.zero_add day).symm
  | succ count ih =>
    rw [List.range_succ, List.foldl_append, ih, List.foldl_cons, List.foldl_nil, daysThrough]
    omega

def leapDays (year : Int) : Nat := if isLeapYear year then 1 else 0

theorem daysThrough_eleven (year : Int) : daysThrough year 11 = 334 + leapDays year := by
  cases hleap : isLeapYear year <;> simp [daysThrough, daysInMonth, leapDays, hleap]

theorem isLeapYear_iff (year : Int) :
    isLeapYear year = true ↔ year % 4 = 0 ∧ (year % 100 ≠ 0 ∨ year % 400 = 0) := by
  simp [isLeapYear]

theorem leapYears_step (year : Int) :
    year / 4 - year / 100 + year / 400 =
      (year - 1) / 4 - (year - 1) / 100 + (year - 1) / 400 + leapDays year := by
  have hrule := isLeapYear_iff year
  rw [leapDays]
  split
  next hleap =>
    have hleap := hrule.mp hleap
    omega
  next hcommon =>
    have hcommon := mt hrule.mpr hcommon
    omega

end Calendar

namespace Date

open Calendar

def first : Date := ⟨-262143, 1, 1, by decide⟩

def last : Date := ⟨262142, 12, 31, by decide⟩

def key (d : Date) : Int ×ₗ Nat ×ₗ Nat := toLex (d.year, toLex (d.month, d.day))

theorem key_injective : Function.Injective key := by
  rintro ⟨year, month, day, _⟩ ⟨year', month', day', _⟩ h
  cases h
  rfl

instance : LinearOrder Date := LinearOrder.lift' key key_injective

variable {d e : Date}

theorem lt_iff : d < e ↔ d.year < e.year ∨ d.year = e.year ∧
    (d.month < e.month ∨ d.month = e.month ∧ d.day < e.day) :=
  Prod.Lex.toLex_lt_toLex.trans (or_congr_right (and_congr_right fun _ => Prod.Lex.toLex_lt_toLex))

theorem eq_of_fields (hyear : d.year = e.year) (hmonth : d.month = e.month)
    (hday : d.day = e.day) : d = e :=
  key_injective (by rw [key, key, hyear, hmonth, hday])

theorem dayOfYear_eq (d : Date) : d.dayOfYear = daysThrough d.year (d.month - 1) + d.day :=
  foldl_daysInMonth d.year d.day (d.month - 1)

inductive FollowedBy (d e : Date) : Prop
  | sameMonth (hyear : e.year = d.year) (hmonth : e.month = d.month) (hday : e.day = d.day + 1)
  | nextMonth (hlast : d.day = daysInMonth d.year d.month) (hyear : e.year = d.year)
    (hmonth : e.month = d.month + 1)
      (hday : e.day = 1)
  | nextYear (hlastMonth : d.month = 12) (hlastDay : d.day = 31) (hyear : e.year = d.year + 1)
    (hmonth : e.month = 1)
      (hday : e.day = 1)

theorem next?_cases (d : Date) : d = last ∧ d.next? = none ∨ ∃ e, d.next? = some e ∧ FollowedBy d e := by
  obtain ⟨hleast, hgreatest, hmonth, hmonth', hday, hday'⟩ := d.isDay
  rw [next?]
  split
  · have hisDay : IsDay d.year d.month (d.day + 1) :=
      ⟨hleast, hgreatest, hmonth, hmonth', by omega, by omega⟩
    exact .inr ⟨_, of?_of_isDay hisDay, .sameMonth rfl rfl rfl⟩
  · have hlast : d.day = daysInMonth d.year d.month := by omega
    split
    · have hisDay : IsDay d.year (d.month + 1) 1 :=
        ⟨hleast, hgreatest, by omega, by omega, Nat.le_refl 1, one_le_daysInMonth _ _⟩
      exact .inr ⟨_, of?_of_isDay hisDay, .nextMonth hlast rfl rfl rfl⟩
    · have hdecember : d.month = 12 := by omega
      rw [hdecember, daysInMonth_twelve] at hlast
      by_cases hyear : d.year < greatestYear
      · have hisDay : IsDay (d.year + 1) 1 1 :=
          ⟨by omega, by omega, by decide, by decide, by decide, one_le_daysInMonth _ _⟩
        exact .inr ⟨_, of?_of_isDay hisDay, .nextYear hdecember hlast rfl rfl rfl⟩
      · have hnone : ¬IsDay (d.year + 1) 1 1 :=
          fun hisDay => hyear (Int.lt_of_add_one_le hisDay.le_greatestYear)
        have hlastYear : d.year = greatestYear := by omega
        exact .inl ⟨eq_of_fields hlastYear hdecember hlast, dif_neg hnone⟩

theorem previous?_cases (d : Date) :
    d = first ∧ d.previous? = none ∨ ∃ e, d.previous? = some e ∧ FollowedBy e d := by
  obtain ⟨hleast, hgreatest, hmonth, hmonth', hday, hday'⟩ := d.isDay
  rw [previous?]
  split
  · have hisDay : IsDay d.year d.month (d.day - 1) :=
      ⟨hleast, hgreatest, hmonth, hmonth', by omega, by omega⟩
    exact .inr ⟨_, of?_of_isDay hisDay, .sameMonth rfl rfl (Nat.sub_add_cancel hday).symm⟩
  · have hfirst : d.day = 1 := by omega
    split
    · have hisDay : IsDay d.year (d.month - 1) (daysInMonth d.year (d.month - 1)) :=
        ⟨hleast, hgreatest, by omega, by omega, one_le_daysInMonth _ _, Nat.le_refl _⟩
      exact .inr ⟨_, of?_of_isDay hisDay, .nextMonth rfl rfl (Nat.sub_add_cancel hmonth).symm hfirst⟩
    · have hjanuary : d.month = 1 := by omega
      by_cases hyear : leastYear < d.year
      · have hisDay : IsDay (d.year - 1) 12 31 :=
          ⟨by omega, by omega, by decide, by decide, by decide, Nat.le_of_eq (daysInMonth_twelve _).symm⟩
        exact .inr ⟨_, of?_of_isDay hisDay,
          .nextYear rfl rfl (Int.sub_add_cancel d.year 1).symm hjanuary hfirst⟩
      · have hnone : ¬IsDay (d.year - 1) 12 31 :=
          fun hisDay => hyear (Int.lt_of_le_sub_one hisDay.leastYear_le)
        have hfirstYear : d.year = leastYear := by omega
        exact .inl ⟨eq_of_fields hfirstYear hjanuary hfirst, dif_neg hnone⟩

namespace FollowedBy

theorem covBy (h : FollowedBy d e) : d ⋖ e := by
  constructor
  · rw [lt_iff]
    cases h <;> omega
  · intro f hdf hfe
    rw [lt_iff] at hdf hfe
    have hday := f.isDay.one_le_day
    have hmonth := f.isDay.one_le_month
    have hmonth' := f.isDay.month_le
    have hday' := f.isDay.day_le
    cases h with
    | sameMonth => omega
    | nextMonth hlast hyear hmonth hday =>
      -- Within the month of the earlier day there is no later one.
      have hsame : f.year = d.year → f.month = d.month → f.day ≤ d.day := by
        intro hfy hfm
        rwa [hlast, ← hfy, ← hfm]
      omega
    | nextYear =>
      have hle := daysInMonth_le f.year f.month
      omega

theorem dayNumber_eq (h : FollowedBy d e) : e.dayNumber = d.dayNumber + 1 := by
  have hmonth := d.isDay.one_le_month
  rw [dayNumber, dayNumber, dayOfYear_eq, dayOfYear_eq]
  cases h with
  | sameMonth hyear hmonth hday =>
    rw [hyear, hmonth, hday]
    omega
  | nextMonth hlast hyear hnext hday =>
    have hthrough : daysThrough d.year d.month = daysThrough d.year (d.month - 1) + d.day := by
      obtain ⟨count, hcount⟩ := Nat.exists_eq_add_of_le' hmonth
      rw [hlast, hcount]
      rfl
    rw [hyear, hnext, hday, Nat.add_sub_cancel, hthrough]
    omega
  | nextYear hlastMonth hlastDay hyear hfirstMonth hday =>
    have hleap := leapYears_step d.year
    have hthrough : daysThrough d.year (d.month - 1) = 334 + leapDays d.year := by
      rw [hlastMonth]
      exact daysThrough_eleven d.year
    have hnone : daysThrough e.year (e.month - 1) = 0 := by
      rw [hfirstMonth]
      rfl
    rw [hthrough, hnone, hlastDay, hyear, hday, Int.add_sub_cancel]
    omega

end FollowedBy

theorem not_last_lt (d : Date) : ¬last < d := by
  have hyear := d.isDay.le_greatestYear
  have hmonth := d.isDay.month_le
  have hday := Nat.le_trans d.isDay.day_le (daysInMonth_le d.year d.month)
  rw [lt_iff]
  simp only [last, greatestYear] at hyear ⊢
  omega

theorem not_lt_first (d : Date) : ¬d < first := by
  have hyear := d.isDay.leastYear_le
  have hmonth := d.isDay.one_le_month
  have hday := d.isDay.one_le_day
  rw [lt_iff]
  simp only [first, leastYear] at hyear ⊢
  omega

theorem next?_eq_some_iff : d.next? = some e ↔ d ⋖ e := by
  rcases next?_cases d with ⟨rfl, hnone⟩ | ⟨f, hsome, hfollowed⟩
  · rw [hnone]
    exact ⟨(nomatch ·), fun h => absurd h.lt (not_last_lt e)⟩
  · rw [hsome, Option.some_inj]
    exact ⟨fun h => h ▸ hfollowed.covBy, hfollowed.covBy.unique_right⟩

example : next? ⟨1900, 2, 28, by decide⟩ = some ⟨1900, 3, 1, by decide⟩ := by decide

theorem previous?_eq_some_iff : d.previous? = some e ↔ e ⋖ d := by
  rcases previous?_cases d with ⟨rfl, hnone⟩ | ⟨f, hsome, hfollowed⟩
  · rw [hnone]
    exact ⟨(nomatch ·), fun h => absurd h.lt (not_lt_first e)⟩
  · rw [hsome, Option.some_inj]
    exact ⟨fun h => h ▸ hfollowed.covBy, hfollowed.covBy.unique_left⟩

theorem next?_eq_none_iff : d.next? = none ↔ d = last := by
  rcases next?_cases d with ⟨rfl, hnone⟩ | ⟨e, hsome, hfollowed⟩
  · exact ⟨fun _ => rfl, fun _ => hnone⟩
  · rw [hsome]
    exact ⟨(nomatch ·), fun h => absurd hfollowed.covBy.lt (h ▸ not_last_lt e)⟩

theorem previous?_eq_none_iff : d.previous? = none ↔ d = first := by
  rcases previous?_cases d with ⟨rfl, hnone⟩ | ⟨e, hsome, hfollowed⟩
  · exact ⟨fun _ => rfl, fun _ => hnone⟩
  · rw [hsome]
    exact ⟨(nomatch ·), fun h => absurd hfollowed.covBy.lt (h ▸ not_lt_first e)⟩

/-- Between neighbours the count of days, by which weekdays are told, goes on by one. -/
theorem dayNumber_of_covBy (h : d ⋖ e) : e.dayNumber = d.dayNumber + 1 := by
  rcases next?_cases d with ⟨rfl, -⟩ | ⟨f, -, hfollowed⟩
  · exact absurd h.lt (not_last_lt e)
  · rw [h.unique_right hfollowed.covBy]
    exact hfollowed.dayNumber_eq

end Date

end NoteQuery
