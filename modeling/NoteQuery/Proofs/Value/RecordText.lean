import NoteQuery.Proofs.Value.Comparison
import NoteQuery.Proofs.Value.JsonReading

/-!
# Records and their texts

Records without absent values, numbers that are not finite and negative zeros have the same text
only when they are the same. As collections are ordered by their texts, two such records are at most
and at least each other only when they are equal.
-/

namespace NoteQuery

set_option autoImplicit false

theorem Binary64.numEq_finite_iff {s t : Bool} {m k : Magnitude} (hm : s = true → m.place ≠ 0)
    (hk : t = true → k.place ≠ 0) :
    (finite s m).numEq (finite t k) = true ↔ finite s m = finite t k := by
  have hrank : (finite s m).rank = (finite t k).rank ↔ s = t ∧ m.place = k.place := by
    cases s with
    | false =>
      cases t with
      | false =>
        simp only [rank, Bool.false_eq_true, if_false, true_and]
        omega
      | true =>
        have hpos := hk rfl
        simp [rank]
        omega
    | true =>
      have hpos := hm rfl
      cases t with
      | false =>
        simp [rank]
        omega
      | true =>
        simp only [rank, if_true, true_and]
        omega
  rw [numEq_iff, compare?, if_neg (by simp [isNaN]), Option.some_inj, Std.compare_eq_iff_eq, hrank]
  constructor
  · rintro ⟨rfl, hplace⟩
    rw [Magnitude.eq_of_place_eq hplace]
  · intro h
    cases h
    exact ⟨rfl, rfl⟩

namespace Value

theorem itemsEq_iff {items others : List Value}
    (h : ∀ v ∈ items, ∀ w, w.Exact → (strictEq v w = true ↔ v = w)) (hothers : ∀ w ∈ others, w.Exact) :
    itemsEq items others = true ↔ items = others := by
  induction items generalizing others with
  | nil => cases others <;> simp [itemsEq]
  | cons v items ih =>
    cases others with
    | nil => simp [itemsEq]
    | cons w others =>
      obtain ⟨hv, hitems⟩ := List.forall_mem_cons.mp h
      obtain ⟨hw, hrest⟩ := List.forall_mem_cons.mp hothers
      rw [itemsEq, Bool.and_eq_true, hv w hw, ih hitems hrest, List.cons.injEq]

theorem fieldsEq_iff {fields others : List (String × Value)}
    (h : ∀ f ∈ fields, ∀ w, w.Exact → (strictEq f.2 w = true ↔ f.2 = w))
    (hothers : ∀ g ∈ others, g.2.Exact) :
    fieldsEq fields others = true ↔ fields = others := by
  induction fields generalizing others with
  | nil => cases others <;> simp [fieldsEq]
  | cons f fields ih =>
    cases others with
    | nil => simp [fieldsEq]
    | cons g others =>
      obtain ⟨hf, hfields⟩ := List.forall_mem_cons.mp h
      obtain ⟨hg, hrest⟩ := List.forall_mem_cons.mp hothers
      rw [fieldsEq, Bool.and_eq_true, Bool.and_eq_true, hf g.2 hg, ih hfields hrest, beq_iff_eq,
        List.cons.injEq, Prod.ext_iff]

theorem strictEq_iff_eq {v w : Value} (hv : v.Exact) (hw : w.Exact) : strictEq v w = true ↔ v = w := by
  induction hv generalizing w with
  | text s =>
    cases hw with
    | text t => simp [strictEq]
    | _ => simp [strictEq]
  | @number negative m hzero =>
    cases hw with
    | number hother => rw [strictEq, Binary64.numEq_finite_iff hzero hother, number.injEq]
    | _ => simp [strictEq]
  | bool b =>
    cases hw with
    | bool c => simp [strictEq]
    | _ => simp [strictEq]
  | sequence _ ih =>
    cases hw with
    | sequence hothers =>
      rw [strictEq, itemsEq_iff (fun v hv w hw => ih v hv hw) hothers, sequence.injEq]
    | _ => simp [strictEq]
  | record _ ih =>
    cases hw with
    | record hothers => rw [strictEq, fieldsEq_iff (fun f hf w hw => ih f hf hw) hothers, record.injEq]
    | _ => simp [strictEq]

theorem toText_record_eq_iff {r r' : Record} (hr : (record r).Exact) (hr' : (record r').Exact) :
    (record r).toText = (record r').toText ↔ r = r' := by
  constructor
  · intro htext
    have hcompact : Json.compact (record r) ++ [] = Json.compact (record r') ++ [] := by
      rw [List.append_nil, List.append_nil]
      exact String.ofList_injective htext
    obtain ⟨hsame, -⟩ := Json.readable_compact hr _ [] [] hr' nofun nofun hcompact
    exact record.inj hsame
  · rintro rfl
    rfl

/-- Records are told apart by their texts, and so by the order of values. -/
theorem record_text_faithful {r r' : Record} (hr : (record r).Exact) (hr' : (record r').Exact) :
    ((record r).toText = (record r').toText ↔ r = r') ∧
    ((record r).binary .strictEq (record r') = bool true ↔ r = r') ∧
    ((record r).binary .le (record r') = bool true ∧ (record r).binary .ge (record r') = bool true ↔
      (record r).binary .strictEq (record r') = bool true) := by
  have htext := toText_record_eq_iff hr hr'
  have hstrict : (record r).binary .strictEq (record r') = bool true ↔ r = r' := by
    rw [binary, bool.injEq, strictEq_iff_eq hr hr', record.injEq]
  refine ⟨htext, hstrict, ?_⟩
  rw [binary_le_and_ge_iff, compare?_eq_texts rfl rfl, Option.some_inj,
    Std.compare_eq_iff_eq, htext, hstrict]

/-- A comma and quotes within a text are told apart from those between texts. -/
theorem record_text_faithful_quotes :
    (record [("a", sequence [text "1\",\"2"])]).toText ≠
      (record [("a", sequence [text "1", text "2"])]).toText ∧
    ¬((record [("a", sequence [text "1\",\"2"])]).binary .le
      (record [("a", sequence [text "1", text "2"])]) = bool true ∧
      (record [("a", sequence [text "1\",\"2"])]).binary .ge
        (record [("a", sequence [text "1", text "2"])]) = bool true) := by
  have hexact (items : List Value) (h : ∀ v ∈ items, v.Exact) : (record [("a", sequence items)]).Exact :=
    .record (List.forall_mem_singleton.mpr (.sequence h))
  obtain ⟨htext, hstrict, horder⟩ := record_text_faithful
    (hexact [text "1\",\"2"] (List.forall_mem_singleton.mpr (.text _)))
    (hexact [text "1", text "2"] (List.forall_mem_cons.mpr ⟨.text _, List.forall_mem_singleton.mpr (.text _)⟩))
  have hne : ([("a", sequence [text "1\",\"2"])] : Record) ≠
    [("a", sequence [text "1", text "2"])] := by simp
  exact ⟨fun h => hne (htext.mp h), fun h => hne (hstrict.mp (horder.mp h))⟩

end Value

end NoteQuery
