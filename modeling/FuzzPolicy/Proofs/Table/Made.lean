import FuzzPolicy.Proofs.Checks
import FuzzPolicy.Proofs.Table.Entries
import FuzzPolicy.Table.Range

/-!
# Tables that can be made

Three ways of making a table leave out the checks of `Table.ofEntries`: a table of one value, of two,
and of the counts of a range. They give every value the weight one, and a float counts ones exactly far
beyond the greatest length of a range, so the checks would find nothing: `drawable_ones`.

`Made` lists all ways there are. What is made in any of them, or from what was, is well-formed, and a
well-formed table can be made: `made_iff_wellFormed`.
-/

namespace FuzzPolicy

open Binary64 Checks

namespace Table

variable {α : Type}

/-! ### Entries of weight one -/

theorem validWeight_one : ValidWeight 1.0 := by decide +kernel

theorem units_total_ones {vs : List α} (hlen : vs.length < 2 ^ 53) :
    Binary64.units (totalOf (vs.map fun v => ⟨v, 1.0⟩)) = vs.length * oneUnits := by
  have hweights : (vs.map fun v => (⟨v, 1.0⟩ : Entry α)).map Entry.weight =
      List.replicate vs.length 1.0 := by
    simp [Function.comp_def, List.map_const']
  rw [totalOf, hweights, units_sumFloats_ones hlen]

/-- **Values of weight one make a table**, unless there are none or more than a float can count. -/
theorem drawable_ones {vs : List α} (hne : vs ≠ []) (hlen : vs.length < 2 ^ 53) :
    Drawable (vs.map fun v => (⟨v, 1.0⟩ : Entry α)) := by
  have hvalid : ∀ e ∈ vs.map fun v => (⟨v, 1.0⟩ : Entry α), ValidWeight e.weight := by
    simp [validWeight_one]
  have hunits := units_total_ones hlen
  refine ⟨by simpa using hne, hvalid, ?_, ?_⟩
  · rw [pos_iff (totalOf_nonneg hvalid), hunits]
    exact Nat.mul_pos (List.length_pos_iff.mpr hne) oneUnits_pos
  · rw [isFinite_iff (totalOf_nonneg hvalid), hunits]
    exact mul_oneUnits_lt_overflow hlen

/-- There is no fault that equal weights can have. -/
theorem uniform_eq_ok {vs : List α} (hne : vs ≠ []) (hlen : vs.length < 2 ^ 53) :
    ∃ t, Table.uniform vs = .ok t ∧ t.entries = vs.map fun v => ⟨v, 1.0⟩ := by
  have hdrawable := drawable_ones hne hlen
  refine ⟨⟨_, hdrawable.ne_nil⟩, ?_, rfl⟩
  rw [Table.uniform, Table.ofPairs, List.map_map]
  exact hdrawable.ofEntries

theorem entries_of_uniform {vs : List α} {t : Table α} (h : Table.uniform vs = .ok t) :
    t.entries = vs.map fun v => ⟨v, 1.0⟩ := by
  rw [Table.uniform, Table.ofPairs, List.map_map] at h
  exact (ofEntries_eq_ok_iff.mp h).1

theorem single_wellFormed (v : α) : (single v).WellFormed := by
  have hne : [v] ≠ [] := by simp
  exact wellFormed_iff_drawable.mpr (drawable_ones hne (by simp))

theorem even_wellFormed (v w : α) : (even v w).WellFormed := by
  have hne : [v, w] ≠ [] := by simp
  exact wellFormed_iff_drawable.mpr (drawable_ones hne (by simp))

end Table

/-! ### Ranges -/

namespace CountRange

variable {r : CountRange} {t : Table Nat}

theorem checkOrder_eq_ok_iff : r.checkOrder = .ok () ↔ r.min ≤ r.max :=
  fail_if_eq_ok_iff.trans Nat.not_lt

theorem checkWidth_eq_ok_iff : r.checkWidth = .ok () ↔ r.width < maxRangeLength :=
  fail_if_eq_ok_iff.trans Nat.not_le

/-- A range becomes a table exactly if both its checks pass. -/
theorem table_eq_ok_iff :
    r.table = .ok t ↔ r.min ≤ r.max ∧ r.width < maxRangeLength ∧
      t.entries = r.toList.map fun n => ⟨n, 1.0⟩ := by
  rw [← checkOrder_eq_ok_iff, ← checkWidth_eq_ok_iff]
  unfold table
  cases t
  cases r.checkOrder <;> cases r.checkWidth <;> simp [eq_comm]

theorem exists_table (horder : r.min ≤ r.max) (h : r.width < maxRangeLength) :
    ∃ t, r.table = .ok t :=
  ⟨⟨r.toList.map fun n => ⟨n, 1.0⟩, by simpa using r.toList_ne_nil⟩,
    table_eq_ok_iff.mpr ⟨horder, h, rfl⟩⟩

/-- Far fewer counts make a table than a float can count. -/
theorem length_toList_lt (h : r.width < maxRangeLength) : r.toList.length < 2 ^ 53 := by
  rw [length_toList]
  unfold maxRangeLength at h
  omega

theorem drawable_of_table (h : r.table = .ok t) : Table.Drawable t.entries := by
  obtain ⟨-, hwidth, hentries⟩ := table_eq_ok_iff.mp h
  rw [hentries]
  exact Table.drawable_ones r.toList_ne_nil (length_toList_lt hwidth)

theorem wellFormed_of_table (h : r.table = .ok t) : t.WellFormed :=
  Table.wellFormed_iff_drawable.mpr (drawable_of_table h)

/-- The table of a range is the one that gives all its counts equal weight. -/
theorem uniform_of_table (h : r.table = .ok t) : Table.uniform r.toList = .ok t := by
  obtain ⟨-, hwidth, hentries⟩ := table_eq_ok_iff.mp h
  obtain ⟨even, heven, heq⟩ := Table.uniform_eq_ok r.toList_ne_nil (length_toList_lt hwidth)
  have hsame : even = t := by
    cases even
    cases t
    cases heq.trans hentries.symm
    rfl
  rw [heven, hsame]

/-- Every count of the range can be drawn, and nothing else. -/
theorem mem_support_of_table (h : r.table = .ok t) {n : Nat} :
    n ∈ t.support ↔ r.contains n = true := by
  obtain ⟨horder, -, hentries⟩ := table_eq_ok_iff.mp h
  rw [Table.mem_support_iff, hentries, ← mem_toList_iff horder]
  simp [one_pos]

end CountRange

/-! ### All ways -/

namespace Table

/-- The tables that can be made. -/
inductive Made : {α : Type} → Table α → Prop
  | ofEntries {α : Type} {es : List (Entry α)} {t : Table α} (h : ofEntries es = .ok t) : Made t
  | ofPairs {α : Type} {ps : List (α × Float)} {t : Table α} (h : ofPairs ps = .ok t) : Made t
  | uniform {α : Type} {vs : List α} {t : Table α} (h : uniform vs = .ok t) : Made t
  | single {α : Type} (v : α) : Made (single v)
  | even {α : Type} (v w : α) : Made (even v w)
  | chance {yes no : Float} {t : Table Bool} (h : chance yes no = .ok t) : Made t
  | range {r : CountRange} {t : Table Nat} (h : r.table = .ok t) : Made t
  | filter {α : Type} {t f : Table α} {keep : α → Bool} (ht : Made t) (h : t.filter keep = .ok f) :
      Made f

variable {α : Type} {t : Table α}

theorem wellFormed_of_ofEntries {es : List (Entry α)} (h : ofEntries es = .ok t) : t.WellFormed :=
  (ofEntries_eq_ok_iff.mp h).2

theorem wellFormed_of_ofPairs {ps : List (α × Float)} (h : ofPairs ps = .ok t) : t.WellFormed :=
  wellFormed_of_ofEntries h

theorem Made.wellFormed (h : t.Made) : t.WellFormed := by
  induction h with
  | ofEntries h => exact wellFormed_of_ofEntries h
  | ofPairs h => exact wellFormed_of_ofPairs h
  | uniform h => exact wellFormed_of_ofPairs h
  | single v => exact single_wellFormed v
  | even v w => exact even_wellFormed v w
  | chance h => exact wellFormed_of_ofPairs h
  | range h => exact CountRange.wellFormed_of_table h
  | filter ht h ih => exact wellFormed_of_ofEntries h

/-- **The tables that can be made are the well-formed ones.** -/
theorem made_iff_wellFormed : t.Made ↔ t.WellFormed := by
  constructor
  · exact Made.wellFormed
  · intro h
    exact .ofEntries (ofEntries_eq_ok_iff.mpr ⟨rfl, h⟩)

end Table

end FuzzPolicy
