import Mathlib.Data.List.Infix

/-!
# First occurrences of marks

A text is clear of a mark when the mark does not begin in it, read together with what follows. What
stands before the first occurrence of a mark is clear of it.
-/

namespace NoteQuery.Text

set_option autoImplicit false

/-- No occurrence of the mark begins in the text when the text is followed by what is behind it. -/
def Clear (mark cs behind : List Char) : Prop :=
  ∀ u v, cs ++ behind = u ++ mark ++ v → cs.length ≤ u.length

variable {mark cs behind : List Char}

theorem clear_nil (mark behind : List Char) : Clear mark [] behind := by
  intro u v _
  exact Nat.zero_le u.length

theorem clear_cons_iff {c : Char} :
    Clear mark (c :: cs) behind ↔ ¬mark <+: c :: (cs ++ behind) ∧ Clear mark cs behind := by
  constructor
  · intro h
    constructor
    · rintro ⟨v, hv⟩
      cases h [] v hv.symm
    · intro u v huv
      exact Nat.le_of_succ_le_succ (h (c :: u) v (congrArg (c :: ·) huv))
  · rintro ⟨hstart, hrest⟩ u v huv
    cases u with
    | nil => exact absurd ⟨v, huv.symm⟩ hstart
    | cons d u => exact Nat.succ_le_succ (hrest u v (List.cons.inj huv).2)

theorem Clear.of_append {more : List Char} (h : Clear mark cs (behind ++ more)) :
    Clear mark cs behind := by
  intro u v huv
  apply h u (v ++ more)
  rw [← List.append_assoc, huv, List.append_assoc]

/-- What is further behind does not count when the mark would end before it. -/
theorem Clear.append (h : Clear mark cs behind) (hlength : mark.length ≤ behind.length + 1)
    (more : List Char) :
    Clear mark cs (behind ++ more) := by
  intro u v huv
  apply Nat.le_of_not_lt
  intro hlt
  have hmark : u ++ mark <+: cs ++ (behind ++ more) := ⟨v, huv.symm⟩
  have hbehind : cs ++ behind <+: cs ++ (behind ++ more) := ⟨more, List.append_assoc cs behind more⟩
  have hle : (u ++ mark).length ≤ (cs ++ behind).length := by
    rw [List.length_append, List.length_append]
    omega
  obtain ⟨w, hw⟩ := List.prefix_of_prefix_length_le hmark hbehind hle
  exact absurd (h u w hw.symm) (Nat.not_le_of_lt hlt)

theorem clear_or_exists_first (mark cs : List Char) :
    Clear mark cs [] ∨ ∃ before after, cs = before ++ (mark ++ after) ∧
      Clear mark before (mark ++ after) := by
  induction cs with
  | nil => exact .inl (clear_nil mark [])
  | cons c cs ih =>
    by_cases hstart : mark <+: c :: cs
    · obtain ⟨after, hafter⟩ := hstart
      exact .inr ⟨[], after, hafter.symm, clear_nil mark _⟩
    · rcases ih with hclear | ⟨before, after, rfl, hclear⟩
      · rw [← List.append_nil cs] at hstart
        exact .inl (clear_cons_iff.mpr ⟨hstart, hclear⟩)
      · exact .inr ⟨c :: before, after, rfl, clear_cons_iff.mpr ⟨hstart, hclear⟩⟩

/-- A mark of two characters begins in a text where it stands in it, or else across its end. -/
theorem clear_of_not_infix {x y : Char} (h : ¬[x, y] <:+: cs)
    (hend : ¬(cs.getLast? = some x ∧ behind.head? = some y)) : Clear [x, y] cs behind := by
  induction cs with
  | nil => exact clear_nil _ behind
  | cons c cs ih =>
    have hrest : ¬[x, y] <:+: cs := fun hoccurs => h (List.infix_cons hoccurs)
    rw [clear_cons_iff]
    cases cs with
    | nil =>
      refine ⟨?_, clear_nil _ behind⟩
      rintro ⟨v, hv⟩
      obtain ⟨rfl, htail⟩ := List.cons.inj hv
      apply hend
      rw [List.nil_append] at htail
      rw [← htail]
      exact ⟨rfl, rfl⟩
    | cons d cs =>
      refine ⟨?_, ih hrest (by rwa [List.getLast?_cons_cons] at hend)⟩
      rintro ⟨v, hv⟩
      obtain ⟨rfl, htail⟩ := List.cons.inj hv
      obtain ⟨rfl, -⟩ := List.cons.inj htail
      exact h ⟨[], cs, rfl⟩

end NoteQuery.Text
