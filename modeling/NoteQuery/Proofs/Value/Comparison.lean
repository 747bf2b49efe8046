import NoteQuery.Expr.Eval

/-!
# How the comparisons of values agree

Both equalities are symmetric, the order turns around with its operands, and strict equality implies
loose equality. Loose equality is equality in the order, except that two absent values have no order
and two collections are ordered by their texts.
-/

namespace NoteQuery

set_option autoImplicit false

namespace Binary64

theorem compare?_swap (x y : Binary64) : x.compare? y = (y.compare? x).map Ordering.swap := by
  rw [compare?, compare?, Bool.or_comm]
  split
  · rfl
  · rw [Option.map_some, Int.compare_swap]

theorem numEq_iff {x y : Binary64} : x.numEq y = true ↔ x.compare? y = some .eq := by
  rw [numEq, beq_iff_eq]

theorem numEq_comm (x y : Binary64) : x.numEq y = y.numEq x := by
  rw [Bool.eq_iff_iff, numEq_iff, numEq_iff, compare?_swap]
  simp

theorem numEq_self {x : Binary64} (h : x.isNaN = false) : x.numEq x = true := by
  simp [numEq_iff, compare?, h]

theorem isNaN_ofNat (n : Nat) : (ofNat n).isNaN = false := by
  rw [ofNat, ofUnits]
  cases Magnitude.nearest? (n * Magnitude.one) 1 <;> rfl

end Binary64

namespace Value

def isCollection : Value → Bool
  | sequence _ => true
  | record _ => true
  | _ => false

mutual

theorem strictEq_comm (v w : Value) : strictEq v w = strictEq w v := by
  cases v with
  | text s =>
    cases w with
    | text t => exact Bool.beq_comm
    | _ => rfl
  | number m =>
    cases w with
    | number n => exact m.numEq_comm n
    | _ => rfl
  | bool a =>
    cases w with
    | bool b => exact Bool.beq_comm
    | _ => rfl
  | sequence xs =>
    cases w with
    | sequence ys => exact itemsEq_comm xs ys
    | _ => rfl
  | record fs =>
    cases w with
    | record gs => exact fieldsEq_comm fs gs
    | _ => rfl
  | absent => cases w <;> rfl
termination_by structural v

theorem itemsEq_comm (xs ys : List Value) : itemsEq xs ys = itemsEq ys xs := by
  cases xs with
  | nil => cases ys <;> rfl
  | cons x xs =>
    cases ys with
    | nil => rfl
    | cons y ys => rw [itemsEq, itemsEq, strictEq_comm x y, itemsEq_comm xs ys]
termination_by structural xs

theorem fieldsEq_comm (fs gs : List (String × Value)) : fieldsEq fs gs = fieldsEq gs fs := by
  cases fs with
  | nil => cases gs <;> rfl
  | cons f fs =>
    cases gs with
    | nil => rfl
    | cons g gs =>
      obtain ⟨k, x⟩ := f
      obtain ⟨l, y⟩ := g
      have hkey : (k == l) = (l == k) := Bool.beq_comm
      rw [fieldsEq, fieldsEq, hkey, strictEq_comm x y, fieldsEq_comm fs gs]
termination_by structural fs

end

theorem toNumber_primitive (v : Value) : v.primitive.toNumber = v.toNumber := by
  cases v with
  | sequence items => exact congrArg Binary64.ofChars String.toList_ofList
  | record fields => exact congrArg Binary64.ofChars String.toList_ofList
  | _ => rfl

/-- The order of two values of which one does not stand for a text is that of their numbers. -/
theorem compare?_eq_numbers {v w : Value} (h : v.primitive.isText = false ∨ w.primitive.isText = false) :
    compare? v w = v.toNumber.compare? w.toNumber := by
  rw [compare?]
  split
  · rename_i s t hs ht
    rw [hs, ht] at h
    simp [isText] at h
  · rw [toNumber_primitive, toNumber_primitive]

theorem compare?_eq_texts {v w : Value} {s t : String} (hv : v.primitive = text s)
    (hw : w.primitive = text t) :
    compare? v w = some (compare s t) := by
  rw [compare?, hv, hw]

theorem exists_primitive_eq_text {v : Value} (h : v.primitive.isText = true) :
    ∃ s, v.primitive = text s := by
  cases hv : v.primitive with
  | text s => exact ⟨s, rfl⟩
  | _ =>
    rw [hv] at h
    cases h

theorem compare?_swap (v w : Value) : compare? v w = (compare? w v).map Ordering.swap := by
  by_cases htexts : v.primitive.isText = true ∧ w.primitive.isText = true
  · obtain ⟨s, hs⟩ := exists_primitive_eq_text htexts.1
    obtain ⟨t, ht⟩ := exists_primitive_eq_text htexts.2
    rw [compare?_eq_texts hs ht, compare?_eq_texts ht hs, Option.map_some, ← Std.OrientedOrd.eq_swap]
  · have hnumber : v.primitive.isText = false ∨ w.primitive.isText = false := by
      rwa [Decidable.not_and_iff_or_not, Bool.not_eq_true, Bool.not_eq_true] at htexts
    rw [compare?_eq_numbers hnumber, compare?_eq_numbers hnumber.symm, Binary64.compare?_swap]

/-- A collection is loosely equal to what its text is loosely equal to,
unless that is a collection, too. -/
theorem looseEq_collection {v w : Value} (hv : v.isCollection = true) (hw : w.isCollection = false) :
    looseEq v w = looseEq v.primitive w ∧ looseEq w v = looseEq w v.primitive := by
  have hnumber := toNumber_primitive v
  cases v <;> cases hv
  all_goals
    cases w with
    | number n => exact ⟨congrArg (·.numEq n) hnumber.symm, congrArg n.numEq hnumber.symm⟩
    | bool b => exact ⟨congrArg (·.numEq (ofBool b)) hnumber.symm,
      congrArg (ofBool b).numEq hnumber.symm⟩
    | sequence items => cases hw
    | record fields => cases hw
    | _ => exact ⟨rfl, rfl⟩

theorem primitive_of_not_isCollection {v : Value} (h : v.isCollection = false) : v.primitive = v := by
  cases v <;> first | rfl | cases h

theorem isCollection_primitive (v : Value) : v.primitive.isCollection = false := by
  cases v <;> rfl

theorem looseEq_primitive {v w : Value} (h : ¬(v.isCollection = true ∧ w.isCollection = true)) :
    looseEq v.primitive w.primitive = looseEq v w := by
  rw [Decidable.not_and_iff_or_not, Bool.not_eq_true, Bool.not_eq_true] at h
  cases hv : v.isCollection with
  | true =>
    have hw := h.resolve_left (by simp [hv])
    rw [primitive_of_not_isCollection hw, (looseEq_collection hv hw).1]
  | false =>
    rw [primitive_of_not_isCollection hv]
    cases hw : w.isCollection with
    | true => rw [(looseEq_collection hw hv).2]
    | false => rw [primitive_of_not_isCollection hw]

/-- Without collections, loose equality is by number as soon as one side is not a text,
and an absent value has none. -/
theorem looseEq_eq_numEq {v w : Value} (hv : v.isCollection = false) (hw : w.isCollection = false)
    (htext : v.isText = false ∨ w.isText = false) (habsent : ¬(v.isAbsent = true ∧ w.isAbsent = true)) :
    looseEq v w = v.toNumber.numEq w.toNumber := by
  have hnan (x : Binary64) : false = x.numEq .nan := by rw [Binary64.numEq_comm]; rfl
  cases v with
  | text s =>
    cases w with
    | text t => simp [isText] at htext
    | absent => exact hnan _
    | number n => rfl
    | bool b => rfl
    | _ => cases hw
  | number m =>
    cases w with
    | absent => exact hnan m
    | _ => rfl
  | bool a =>
    cases w with
    | absent => exact hnan _
    | _ => rfl
  | absent =>
    cases w with
    | absent => exact absurd ⟨rfl, rfl⟩ habsent
    | _ => rfl
  | _ => cases hv

theorem isAbsent_primitive (v : Value) : v.primitive.isAbsent = v.isAbsent := by
  cases v <;> rfl

/-- Loose equality is equality in the order, two absent values and two collections aside. -/
theorem looseEq_iff_compare? {v w : Value} (habsent : ¬(v.isAbsent = true ∧ w.isAbsent = true))
    (hcollection : ¬(v.isCollection = true ∧ w.isCollection = true)) :
    looseEq v w = true ↔ compare? v w = some .eq := by
  rw [← looseEq_primitive hcollection]
  by_cases htexts : v.primitive.isText = true ∧ w.primitive.isText = true
  · obtain ⟨s, hs⟩ := exists_primitive_eq_text htexts.1
    obtain ⟨t, ht⟩ := exists_primitive_eq_text htexts.2
    rw [compare?_eq_texts hs ht, hs, ht, Option.some_inj, Std.compare_eq_iff_eq]
    exact beq_iff_eq
  · rw [Decidable.not_and_iff_or_not, Bool.not_eq_true, Bool.not_eq_true] at htexts
    have hnumber := looseEq_eq_numEq v.isCollection_primitive w.isCollection_primitive htexts
      (by rwa [isAbsent_primitive, isAbsent_primitive])
    rw [hnumber, toNumber_primitive, toNumber_primitive, compare?_eq_numbers htexts, Binary64.numEq_iff]

theorem looseEq_eq_strictEq {v w : Value} (h : v.isCollection = true ∧ w.isCollection = true) :
    looseEq v w = strictEq v w := by
  obtain ⟨hv, hw⟩ := h
  cases v <;> cases hv
  all_goals
    cases w <;> cases hw
    all_goals rfl

theorem looseEq_comm (v w : Value) : looseEq v w = looseEq w v := by
  by_cases habsent : v.isAbsent = true ∧ w.isAbsent = true
  · cases v <;> cases habsent.1
    cases w <;> cases habsent.2
    rfl
  · by_cases hcollection : v.isCollection = true ∧ w.isCollection = true
    · rw [looseEq_eq_strictEq hcollection, looseEq_eq_strictEq hcollection.symm, strictEq_comm]
    · rw [Bool.eq_iff_iff, looseEq_iff_compare? habsent hcollection,
        looseEq_iff_compare? (fun h => habsent h.symm) (fun h => hcollection h.symm), compare?_swap]
      simp

theorem looseEq_of_strictEq {v w : Value} (h : strictEq v w = true) : looseEq v w = true := by
  cases v with
  | text s =>
    cases w with
    | text t => exact h
    | _ => cases h
  | number m =>
    cases w with
    | number n => exact h
    | _ => cases h
  | bool a =>
    cases w with
    | bool b =>
      obtain rfl := beq_iff_eq.mp h
      exact Binary64.numEq_self (Binary64.isNaN_ofNat _)
    | _ => cases h
  | sequence xs =>
    cases w with
    | sequence ys => exact h
    | _ => cases h
  | record fs =>
    cases w with
    | record gs => exact h
    | _ => cases h
  | absent =>
    cases w with
    | absent => rfl
    | _ => cases h

/-- The operators for at most and at least hold both exactly for values that are equal in the order. -/
theorem binary_le_and_ge_iff {v w : Value} :
    v.binary .le w = bool true ∧ v.binary .ge w = bool true ↔ compare? v w = some .eq := by
  simp only [binary, bool.injEq]
  rcases compare? v w with _ | _ | _ | _ <;> decide

theorem comparisons_coherent (v w : Value) :
    looseEq v w = looseEq w v ∧ (strictEq v w = true → looseEq v w = true) ∧
    compare? v w = (compare? w v).map Ordering.swap ∧
    (¬(v.isAbsent = true ∧ w.isAbsent = true) → ¬(v.isCollection = true ∧ w.isCollection = true) →
      (looseEq v w = true ↔ compare? v w = some .eq) ∧
      (v.binary .eq w = bool true ↔ v.binary .le w = bool true ∧ v.binary .ge w = bool true)) := by
  refine ⟨looseEq_comm v w, looseEq_of_strictEq, compare?_swap v w, fun habsent hcollection => ?_⟩
  have hiff := looseEq_iff_compare? habsent hcollection
  refine ⟨hiff, ?_⟩
  rw [binary_le_and_ge_iff, ← hiff]
  simp [binary]

/-- A sequence of one text meets a number as that text. -/
theorem comparisons_coherent_sequence_number :
    looseEq (number (Binary64.ofNat 7)) (sequence [text " 7 "]) = true ∧
    compare? (sequence [text " 7 "]) (number (Binary64.ofNat 7)) = some .eq := by
  have hloose : looseEq (sequence [text " 7 "]) (number (Binary64.ofNat 7)) = true := by decide +kernel
  obtain ⟨hcomm, -, -, hagrees⟩ :=
    comparisons_coherent (sequence [text " 7 "]) (number (Binary64.ofNat 7))
  exact ⟨hcomm ▸ hloose, (hagrees (by decide) (by decide)).1.mp hloose⟩

end Value

end NoteQuery
