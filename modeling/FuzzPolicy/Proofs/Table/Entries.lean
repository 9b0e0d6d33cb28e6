import FuzzPolicy.Proofs.Table.WellFormed

/-!
# Which entries make a table

`Table.ofEntries` makes four checks one after the other and names the first that fails. Here the
outcome is said without the order of the checks: `Drawable` lists what must hold of entries that are
accepted, and `Faulty` relates entries to the fault that they are refused with. The two exclude each
other and cover every list, by `ofEntries_eq_ok_iff_drawable` and `ofEntries_eq_error_iff`.
-/

namespace FuzzPolicy.Table

open Binary64

variable {α : Type} {es : List (Entry α)}

/-- A weight that an entry may have. -/
def ValidWeight (w : Float) : Prop :=
  w.isFinite = true ∧ ¬ w < 0

instance (w : Float) : Decidable (ValidWeight w) :=
  inferInstanceAs (Decidable (_ ∧ _))

/-- Entries that can be drawn from. -/
structure Drawable (es : List (Entry α)) : Prop where
  ne_nil : es ≠ []
  validWeight : ∀ e ∈ es, ValidWeight e.weight
  total_pos : 0 < totalOf es
  isFinite_total : (totalOf es).isFinite = true

/-- What is wrong with entries. Of several invalid weights it is the first. -/
inductive Faulty (es : List (Entry α)) : TableFault → Prop
  | empty (h : es = []) : Faulty es .empty
  | invalidWeight {i : Nat} {e : Entry α} (h : es[i]? = some e) (hbad : ¬ ValidWeight e.weight)
      (hfirst : ∀ j < i, ∀ e', es[j]? = some e' → ValidWeight e'.weight) :
      Faulty es (.invalidWeight i e.weight)
  | nonPositiveTotal (hne : es ≠ []) (hvalid : ∀ e ∈ es, ValidWeight e.weight)
      (h : ¬ 0 < totalOf es) : Faulty es .nonPositiveTotal
  | infiniteTotal (hne : es ≠ []) (hvalid : ∀ e ∈ es, ValidWeight e.weight)
      (hpos : 0 < totalOf es) (h : (totalOf es).isFinite = false) : Faulty es .infiniteTotal

/-! ### Weights -/

theorem validWeight_iff {w : Float} :
    ValidWeight w ↔ (!w.isFinite || decide (w < 0)) = false := by
  simp [ValidWeight]

theorem ValidWeight.nonneg {w : Float} (h : ValidWeight w) : 0 ≤ w :=
  nonneg_of_isFinite h.1 h.2

theorem totalOf_nonneg (h : ∀ e ∈ es, ValidWeight e.weight) : 0 ≤ totalOf es :=
  sumFloats_nonneg (List.forall_mem_map.mpr fun e he => (h e he).nonneg)

/-- The check of the total asks whether it is at most zero; a total of valid weights is a number, so
it is positive if not. -/
theorem totalOf_pos_iff (h : ∀ e ∈ es, ValidWeight e.weight) :
    0 < totalOf es ↔ ¬ totalOf es ≤ 0 := by
  rw [pos_iff (totalOf_nonneg h), le_zero_iff (totalOf_nonneg h), Nat.pos_iff_ne_zero]

theorem firstInvalid_eq_some_iff {i : Nat} {w : Float} :
    firstInvalid es = some (i, w) ↔
      ∃ e, es[i]? = some e ∧ e.weight = w ∧ ¬ ValidWeight e.weight ∧
        ∀ j < i, ∀ e', es[j]? = some e' → ValidWeight e'.weight := by
  unfold firstInvalid
  simp only [Option.map_eq_some_iff, List.find?_eq_some_iff_getElem, Prod.mk.injEq,
    List.getElem_zipIdx, List.length_zipIdx, Nat.zero_add]
  constructor
  · rintro ⟨⟨e, k⟩, ⟨hbad, k', hk, hek, hfirst⟩, rfl, rfl⟩
    obtain ⟨rfl, rfl⟩ := Prod.mk.inj hek
    refine ⟨es[k'], List.getElem?_eq_getElem hk, rfl, ?_, ?_⟩
    · rw [validWeight_iff, hbad]
      decide
    · intro j hj e' he'
      obtain ⟨hlt, rfl⟩ := List.getElem?_eq_some_iff.mp he'
      have hgood := hfirst j hj
      rwa [Bool.not_eq_true', ← validWeight_iff] at hgood
  · rintro ⟨e, he, rfl, hbad, hfirst⟩
    obtain ⟨hlt, rfl⟩ := List.getElem?_eq_some_iff.mp he
    rw [validWeight_iff, Bool.not_eq_false] at hbad
    refine ⟨(es[i], i), ⟨hbad, i, hlt, rfl, ?_⟩, rfl, rfl⟩
    intro j hj
    rw [Bool.not_eq_true', ← validWeight_iff]
    exact hfirst j hj _ (List.getElem?_eq_getElem (Nat.lt_trans hj hlt))

/-! ### The outcome -/

theorem Drawable.ofEntries (h : Drawable es) : Table.ofEntries es = .ok ⟨es, h.ne_nil⟩ := by
  have hnone : firstInvalid es = none := firstInvalid_eq_none_iff.mpr h.validWeight
  have hpos : ¬ totalOf es ≤ 0 := (totalOf_pos_iff h.validWeight).mp h.total_pos
  simp [Table.ofEntries, h.ne_nil, hnone, hpos, h.isFinite_total]

theorem Faulty.ofEntries {fault : TableFault} (h : Faulty es fault) :
    Table.ofEntries es = .error fault := by
  cases h with
  | empty h => exact dif_pos h
  | @invalidWeight i e he hbad hfirst =>
      have hne : es ≠ [] := List.ne_nil_of_mem (List.mem_of_getElem? he)
      have hsome : firstInvalid es = some (i, e.weight) :=
        firstInvalid_eq_some_iff.mpr ⟨e, he, rfl, hbad, hfirst⟩
      simp [Table.ofEntries, hne, hsome]
  | nonPositiveTotal hne hvalid h =>
      have hnone : firstInvalid es = none := firstInvalid_eq_none_iff.mpr hvalid
      rw [totalOf_pos_iff hvalid, not_not] at h
      simp [Table.ofEntries, hne, hnone, h]
  | infiniteTotal hne hvalid hpos h =>
      have hnone : firstInvalid es = none := firstInvalid_eq_none_iff.mpr hvalid
      rw [totalOf_pos_iff hvalid] at hpos
      simp [Table.ofEntries, hne, hnone, hpos, h]

/-- Every list of entries can be drawn from or has something wrong with it. -/
theorem drawable_or_faulty (es : List (Entry α)) : Drawable es ∨ ∃ fault, Faulty es fault := by
  by_cases hne : es = []
  · exact .inr ⟨_, .empty hne⟩
  cases hfirst : firstInvalid es with
  | some bad =>
      obtain ⟨e, he, -, hbad, hmin⟩ := firstInvalid_eq_some_iff.mp hfirst
      exact .inr ⟨_, .invalidWeight he hbad hmin⟩
  | none =>
      have hvalid : ∀ e ∈ es, ValidWeight e.weight := firstInvalid_eq_none_iff.mp hfirst
      by_cases hpos : 0 < totalOf es
      · cases hfin : (totalOf es).isFinite with
        | true => exact .inl ⟨hne, hvalid, hpos, hfin⟩
        | false => exact .inr ⟨_, .infiniteTotal hne hvalid hpos hfin⟩
      · exact .inr ⟨_, .nonPositiveTotal hne hvalid hpos⟩

/-- **Entries are accepted exactly if they can be drawn from**, and they are kept as they are. -/
theorem ofEntries_eq_ok_iff_drawable {t : Table α} :
    Table.ofEntries es = .ok t ↔ t.entries = es ∧ Drawable es := by
  constructor
  · intro h
    rcases drawable_or_faulty es with hd | ⟨fault, hf⟩
    · rw [hd.ofEntries] at h
      cases h
      exact ⟨rfl, hd⟩
    · rw [hf.ofEntries] at h
      cases h
  · rintro ⟨rfl, hd⟩
    exact hd.ofEntries

/-- **Entries are refused with what is wrong with them.** -/
theorem ofEntries_eq_error_iff {fault : TableFault} :
    Table.ofEntries es = .error fault ↔ Faulty es fault := by
  refine ⟨fun h => ?_, Faulty.ofEntries⟩
  rcases drawable_or_faulty es with hd | ⟨fault', hf⟩
  · rw [hd.ofEntries] at h
    cases h
  · rw [hf.ofEntries] at h
    cases h
    exact hf

theorem WellFormed.validWeight {t : Table α} (ht : t.WellFormed) {e : Entry α}
    (he : e ∈ t.entries) : ValidWeight e.weight :=
  ⟨ht.isFinite_weight e he, ht.weight_not_neg e he⟩

theorem wellFormed_iff_drawable {t : Table α} : t.WellFormed ↔ Drawable t.entries := by
  constructor
  · intro h
    have hok : Table.ofEntries t.entries = .ok t := ofEntries_eq_ok_iff.mpr ⟨rfl, h⟩
    exact (ofEntries_eq_ok_iff_drawable.mp hok).2
  · intro h
    exact (ofEntries_eq_ok_iff.mp h.ofEntries).2

end FuzzPolicy.Table
