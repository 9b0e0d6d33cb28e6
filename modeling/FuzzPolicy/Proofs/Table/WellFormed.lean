import FuzzPolicy.Catalog.Basic
import FuzzPolicy.Proofs.Binary64.Sum

/-!
# Well-formed tables

A table is well-formed if it can be drawn from: no weight is negative, infinite or not a number, and
the weights add up to something positive and finite. `Table.ofEntries` accepts exactly the entries of
well-formed tables, so a table that was made by it needs no further check.
-/

namespace FuzzPolicy

open Binary64

namespace Table

variable {α : Type}

/-- Whether a table can be drawn from. -/
structure WellFormed (t : Table α) : Prop where
  isFinite_weight : ∀ e ∈ t.entries, e.weight.isFinite = true
  weight_not_neg : ∀ e ∈ t.entries, ¬ e.weight < 0
  total_pos : ¬ t.total ≤ 0
  isFinite_total : t.total.isFinite = true

theorem WellFormed.weight_nonneg {t : Table α} (h : t.WellFormed) {e : Entry α}
    (he : e ∈ t.entries) : 0 ≤ e.weight :=
  nonneg_of_isFinite (h.isFinite_weight e he) (h.weight_not_neg e he)

theorem firstInvalid_eq_none_iff {es : List (Entry α)} :
    firstInvalid es = none ↔ ∀ e ∈ es, e.weight.isFinite = true ∧ ¬ e.weight < 0 := by
  unfold firstInvalid
  rw [Option.map_eq_none_iff, List.find?_eq_none]
  constructor
  · intro h e he
    obtain ⟨i, hi, rfl⟩ := List.mem_iff_getElem.mp he
    have hbad := h (es[i], i) (List.mem_zipIdx_iff_getElem?.mpr (List.getElem?_eq_getElem hi))
    simpa using hbad
  · intro h p hp
    have hmem : p.1 ∈ es := List.fst_mem_of_mem_zipIdx hp
    simpa using h p.1 hmem

/-- **The entries that are accepted are those of well-formed tables.** -/
theorem ofEntries_eq_ok_iff {es : List (Entry α)} {t : Table α} :
    ofEntries es = .ok t ↔ t.entries = es ∧ t.WellFormed := by
  unfold ofEntries
  constructor
  · intro h
    split at h
    · cases h
    · split at h
      · cases h
      · rename_i hnone
        split at h
        · cases h
        · rename_i hpos
          split at h
          · rename_i hfin
            cases h
            have hweights := firstInvalid_eq_none_iff.mp hnone
            exact ⟨rfl, fun e he => (hweights e he).1, fun e he => (hweights e he).2, hpos, hfin⟩
          · cases h
  · rintro ⟨rfl, hwf⟩
    have hnone : firstInvalid t.entries = none :=
      firstInvalid_eq_none_iff.mpr fun e he => ⟨hwf.isFinite_weight e he, hwf.weight_not_neg e he⟩
    have htotal : totalOf t.entries = t.total := rfl
    rw [dif_neg t.nonempty, hnone]
    simp only [htotal]
    rw [if_neg hwf.total_pos, if_pos hwf.isFinite_total]

theorem isOk_ofEntries_iff {t : Table α} : (ofEntries t.entries).isOk = true ↔ t.WellFormed := by
  constructor
  · intro hok
    cases h : ofEntries t.entries with
    | error fault =>
        rw [h] at hok
        cases hok
    | ok t' =>
        obtain ⟨hentries, hwf⟩ := ofEntries_eq_ok_iff.mp h
        cases t
        cases t'
        cases hentries
        exact hwf
  · intro hwf
    rw [ofEntries_eq_ok_iff.mpr ⟨rfl, hwf⟩]
    rfl

instance (t : Table α) : Decidable t.WellFormed :=
  decidable_of_iff _ isOk_ofEntries_iff

/-! ### The support -/

theorem mem_support_iff {t : Table α} {v : α} :
    v ∈ t.support ↔ ∃ e ∈ t.entries, 0 < e.weight ∧ e.value = v := by
  unfold support
  rw [List.mem_map]
  simp only [List.mem_filter, decide_eq_true_eq, and_assoc]

end Table

/-- Whether every table of a catalog can be drawn from. -/
def Catalog.WellFormed (c : Catalog) : Prop :=
  ∀ t, (c.table t).WellFormed

instance (c : Catalog) : Decidable c.WellFormed :=
  decidable_of_iff (∀ t ∈ (Vocabulary.all : List TableId), (c.table t).WellFormed)
    ⟨fun h t => h t (Vocabulary.mem_all t), fun h t _ => h t⟩

end FuzzPolicy
