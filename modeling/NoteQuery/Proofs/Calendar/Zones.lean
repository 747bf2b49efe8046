import NoteQuery.Proofs.Calendar.Pieces
import NoteQuery.Proofs.Calendar.Succession

/-!
# Zones

The texts of zones, and the date of a moment in a zone. A zone moves no day. Only on the first and
on the last supported day does it decide whether the moment has a date at all.
-/

namespace NoteQuery

set_option autoImplicit false

open Text

theorem Date.fields_of_of? {year : Int} {month day : Nat} {d : Date} (h : of? year month day = some d) :
    d.year = year ∧ d.month = month ∧ d.day = day := by
  rw [of?] at h
  split at h
  · cases h
    exact ⟨rfl, rfl, rfl⟩
  · cases h

namespace Calendar

section DateOf

variable {r : Reading} {zone : Zone} {d : Date}

theorem of_dateOf? (h : dateOf? r zone = some d) :
    (r.hour ≤ 23 ∧ r.minute ≤ 59 ∧ r.second ≤ 60) ∧ Date.of? r.year r.month r.day = some d := by
  rw [dateOf?] at h
  split at h
  · cases h
  · exact ⟨by omega, (Option.filter_eq_some_iff.mp h).1⟩

theorem dateOf?_of_ne (h : dateOf? r zone = some d) (hfirst : d ≠ Date.first)
    (hlast : d ≠ Date.last) (zone' : Zone) :
    dateOf? r zone' = some d := by
  obtain ⟨htime, hdate⟩ := of_dateOf? h
  have hprevious : d.previous?.isSome = true :=
    Option.isSome_iff_ne_none.mpr (mt Date.previous?_eq_none_iff.mp hfirst)
  have hnext : d.next?.isSome = true :=
    Option.isSome_iff_ne_none.mpr (mt Date.next?_eq_none_iff.mp hlast)
  rw [dateOf?, if_neg (by omega), hdate]
  simp [hprevious, hnext]

theorem dateOf?_of_year_le (h : dateOf? r zone = some d) (hleast : 0 ≤ r.year)
    (hgreatest : r.year ≤ 9999) (zone' : Zone) : dateOf? r zone' = some d := by
  have hyear : d.year = r.year := (Date.fields_of_of? (of_dateOf? h).2).1
  refine dateOf?_of_ne h ?_ ?_ zone'
  · rintro rfl
    simp only [Date.first] at hyear
    omega
  · rintro rfl
    simp only [Date.last] at hyear
    omega

end DateOf

variable {cs z rest : List Char} {zone : Zone}

def zoneSigns : List Char := ['+', '-', '−']

/-- The first characters of a zone in an internet timestamp. -/
def zoneMarks : List Char := 'Z' :: 'z' :: zoneSigns

theorem of_mem_zoneSigns {c : Char} (h : c ∈ zoneSigns) :
    isLetter c = false ∧ isBlank c = false ∧ c ≠ ':' := by
  simp only [zoneSigns, List.mem_cons, List.not_mem_nil, or_false] at h
  obtain rfl | rfl | rfl := h <;> decide

theorem of_mem_zoneMarks {c : Char} (h : c ∈ zoneMarks) : Decimal.isDigit c = false ∧ c ≠ '.' := by
  simp only [zoneMarks, zoneSigns, List.mem_cons, List.not_mem_nil, or_false] at h
  obtain rfl | rfl | rfl | rfl | rfl := h <;> decide

theorem exists_of_zoneSign? {alsoMinusSign negative : Bool}
    (h : zoneSign? alsoMinusSign cs = some (negative, rest)) :
    ∃ sign, sign ∈ zoneSigns ∧ cs = sign :: rest ∧
      ∀ rest', zoneSign? alsoMinusSign (sign :: rest') = some (negative, rest') := by
  unfold zoneSign? at h
  split at h
  · cases h
    exact ⟨'+', by decide, rfl, fun _ => rfl⟩
  · cases h
    exact ⟨'-', by decide, rfl, fun _ => rfl⟩
  · cases alsoMinusSign with
    | false => cases h
    | true =>
      cases h
      exact ⟨'−', by decide, rfl, fun _ => rfl⟩
  · cases h

theorem internetZone?_cases (h : internetZone? z = some zone) : z = ['Z'] ∨ z = ['z'] ∨
    ∃ sign, sign ∈ zoneSigns ∧
      ∃ hours minutes : Digits 2 (some 2), z = sign :: (hours.chars ++ ':' :: minutes.chars) := by
  unfold internetZone? at h
  split at h
  · exact .inl rfl
  · exact .inr (.inl rfl)
  · simp only [Option.bind_eq_bind, Option.bind_eq_some_iff, Prod.exists] at h
    obtain ⟨negative, r, hsign, hours, r', hhours, r'', hcolon, minutes, r''', hminutes, h⟩ := h
    obtain ⟨sign, hmem, rfl, -⟩ := exists_of_zoneSign? hsign
    obtain ⟨hs, rfl, -⟩ := Digits.exists_of_fixed? hhours
    obtain rfl := after?_eq_some_iff.mp hcolon
    obtain ⟨ms, rfl, -⟩ := Digits.exists_of_fixed? hminutes
    split at h
    · rename_i hempty
      rw [List.isEmpty_iff.mp hempty, List.append_nil]
      exact .inr (.inr ⟨sign, hmem, hs, ms, rfl⟩)
    · cases h

theorem internetZone?_head (h : internetZone? z = some zone) : ∃ c r, z = c :: r ∧ c ∈ zoneMarks := by
  obtain rfl | rfl | ⟨sign, hsign, hours, minutes, rfl⟩ := internetZone?_cases h
  · exact ⟨_, _, rfl, by decide⟩
  · exact ⟨_, _, rfl, by decide⟩
  · exact ⟨_, _, rfl, List.mem_cons_of_mem _ (List.mem_cons_of_mem _ hsign)⟩

theorem not_isBlank_of_internetZone? (h : internetZone? z = some zone) : ∀ c ∈ z, isBlank c = false := by
  obtain rfl | rfl | ⟨sign, hsign, hours, minutes, rfl⟩ := internetZone?_cases h
  · exact List.forall_mem_singleton.mpr rfl
  · exact List.forall_mem_singleton.mpr rfl
  · intro c hc
    simp only [List.mem_cons, List.mem_append] at hc
    obtain rfl | hc | rfl | hc := hc
    · exact (of_mem_zoneSigns hsign).2.1
    · exact Decimal.not_isBlank_of_isDigit (hours.isDigit c hc)
    · rfl
    · exact Decimal.not_isBlank_of_isDigit (minutes.isDigit c hc)

theorem headerZone?_letters_append (hne : z ≠ []) (hz : ∀ c ∈ z, isLetter c = true)
    (hrest : ∀ c ∈ rest.head?, isLetter c = false) :
    headerZone? (z ++ rest) = (headerZone? z).map fun read => (read.1, rest) := by
  have hself : z.takeWhile isLetter = z := List.takeWhile_eq_self_iff.mpr hz
  have hname : (z.map lowerAscii).isEmpty = false := by simpa using hne
  simp only [headerZone?, takeWhile_append_of_head hz hrest, hself, hname,
    List.length_map, List.drop_left, List.drop_length, Bool.false_eq_true, if_false]
  split
  · rfl
  · split <;> rfl

/-- A zone in letters is read up to the first other character, a zone in digits up to its last digit. -/
theorem exists_of_headerZone? (h : headerZone? cs = some (zone, rest)) : ∃ z, cs = z ++ rest ∧
    (z ≠ [] ∧ ∀ c ∈ z, isBlank c = false ∧ c ≠ ':') ∧
    ∀ rest', (∀ c ∈ rest'.head?, isLetter c = false) →
      headerZone? (z ++ rest') = some (zone, rest') := by
  cases hletters : cs.takeWhile isLetter with
  | cons c r =>
    have hne : cs.takeWhile isLetter ≠ [] := hletters ▸ List.cons_ne_nil c r
    have hmem : ∀ c ∈ cs.takeWhile isLetter, isLetter c = true := fun _ => List.mem_takeWhile_imp
    have hothers : ∀ c ∈ (cs.dropWhile isLetter).head?, isLetter c = false := by
      intro c hc
      have hhead := List.head?_dropWhile_not isLetter cs
      rwa [Option.mem_def.mp hc] at hhead
    rw [← List.takeWhile_append_dropWhile (p := isLetter) (l := cs),
      headerZone?_letters_append hne hmem hothers] at h
    obtain ⟨⟨zone', rest'⟩, hread, heq⟩ := Option.map_eq_some_iff.mp h
    cases heq
    refine ⟨cs.takeWhile isLetter, List.takeWhile_append_dropWhile.symm, ⟨hne, fun c hc => ?_⟩,
      fun rest' hrest' => ?_⟩
    · refine ⟨not_isBlank_of_isLetter (hmem c hc), ?_⟩
      rintro rfl
      cases hmem _ hc
    · rw [headerZone?_letters_append hne hmem hrest', hread, Option.map_some]
  | nil =>
    simp only [headerZone?, hletters, List.map_nil, List.isEmpty_nil, if_true, Option.bind_eq_bind,
      Option.bind_eq_some_iff, Prod.exists] at h
    obtain ⟨negative, r, hsign, hours, r', hhours, minutes, r'', hminutes, zone', hzone, h⟩ := h
    cases h
    obtain ⟨sign, hmem, rfl, hread⟩ := exists_of_zoneSign? hsign
    obtain ⟨hs, rfl, rfl⟩ := Digits.exists_of_fixed? hhours
    obtain ⟨ms, rfl, rfl⟩ := Digits.exists_of_fixed? hminutes
    refine ⟨sign :: (hs.chars ++ ms.chars),
      by simp, ⟨List.cons_ne_nil _ _, fun c hc => ?_⟩, fun rest' _ => ?_⟩
    · obtain rfl | hc := List.mem_cons.mp hc
      · exact (of_mem_zoneSigns hmem).2
      · have hdigit : Decimal.isDigit c = true :=
          (List.mem_append.mp hc).elim (hs.isDigit c) (ms.isDigit c)
        refine ⟨Decimal.not_isBlank_of_isDigit hdigit, ?_⟩
        rintro rfl
        cases hdigit
    · simp [headerZone?, (of_mem_zoneSigns hmem).1, hread, hs.fixed?_append, ms.fixed?_append, hzone]

theorem headerZone?_append (h : headerZone? z = some (zone, []))
    (hrest : ∀ c ∈ rest.head?, isLetter c = false) :
    headerZone? (z ++ rest) = some (zone, rest) := by
  obtain ⟨z', hz, -, hread⟩ := exists_of_headerZone? h
  rw [List.append_nil] at hz
  exact hz ▸ hread rest hrest

theorem not_isBlank_of_headerZone? (h : headerZone? z = some (zone, [])) :
    z ≠ [] ∧ ∀ c ∈ z, isBlank c = false := by
  obtain ⟨z', hz, ⟨hne, hchars⟩, -⟩ := exists_of_headerZone? h
  rw [List.append_nil] at hz
  exact hz ▸ ⟨hne, fun c hc => (hchars c hc).1⟩

theorem headerZone?_head (h : headerZone? cs = some (zone, rest)) :
    ∃ c r, cs = c :: r ∧ isBlank c = false ∧ c ≠ ':' := by
  obtain ⟨z, rfl, ⟨hne, hchars⟩, -⟩ := exists_of_headerZone? h
  obtain ⟨c, r, rfl⟩ := List.exists_cons_of_ne_nil hne
  exact ⟨c, r ++ rest, rfl, hchars c List.mem_cons_self⟩

theorem not_isLetter_of_onlyComments {limit : Nat} (h : onlyComments limit cs = true) :
    ∀ c ∈ cs.head?, isLetter c = false := by
  cases cs with
  | nil => nofun
  | cons c r =>
    intro _ heq
    cases heq
    rw [Bool.eq_false_iff]
    intro hc
    cases limit with
    | zero => cases h
    | succ limit =>
      simp only [onlyComments, trimStart_cons_of_neg (not_isBlank_of_isLetter hc)] at h
      split at h
      · rename_i hopen
        rw [(List.cons.inj hopen).1] at hc
        cases hc
      · cases h

end Calendar

end NoteQuery
