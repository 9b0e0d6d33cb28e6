import FuzzPolicy.Catalog.Defaults
import FuzzPolicy.Proofs.Policy.Validity

/-!
# The default tables

Eight of the default tables are made of ranges that follow from the limits, and these are the very
ranges whose width is checked, so valid limits always have default tables: `exists_defaults`. The other
tables are fixed and made without a check. They would pass it, since each of them is well-formed, as are
those of the ranges: `defaults_wellFormed`, `ofEntries_of_defaults`.
-/

namespace FuzzPolicy

open Checks

variable {l : Limits}

namespace Catalog

/-! ### Ranges -/

theorem rangeTable_eq_ok_iff {r : CountRange} {t : Table Nat} :
    rangeTable r = .ok t ↔ r.table = .ok t := by
  unfold rangeTable
  cases r.table <;> simp

theorem exists_rangeTable (h : l.validate = .ok ()) {r : LimitId × CountRange}
    (hr : r ∈ l.tableRanges) : ∃ t, rangeTable r.2 = .ok t := by
  obtain ⟨horder, -, hwidth, -⟩ := Limits.validate_eq_ok_iff.mp h
  obtain ⟨t, ht⟩ := CountRange.exists_table (Limits.tableRanges_order horder r hr) (hwidth r hr)
  exact ⟨t, rangeTable_eq_ok_iff.mpr ht⟩

theorem wellFormed_of_rangeTable {r : CountRange} {t : Table Nat} (h : rangeTable r = .ok t) :
    t.WellFormed :=
  CountRange.wellFormed_of_table (rangeTable_eq_ok_iff.mp h)

/-! ### All tables -/

/-- **Valid limits have default tables.** -/
theorem exists_defaults (h : l.validate = .ok ()) : ∃ c, defaults l = .ok c := by
  have hrange := fun r hr => exists_rangeTable (r := r) h hr
  simp only [Limits.tableRanges, List.forall_mem_cons] at hrange
  obtain ⟨⟨seq, hseq⟩, ⟨nest, hnest⟩, ⟨stmt, hstmt⟩, ⟨arr, harr⟩, ⟨offset, hoffset⟩,
    ⟨pragma, hpragma⟩, ⟨span, hspan⟩, ⟨arrays, harrays⟩, -⟩ := hrange
  unfold defaults
  rw [bind_of_ok hseq, bind_of_ok hnest, bind_of_ok hstmt, bind_of_ok harr, bind_of_ok hpragma,
    bind_of_ok hoffset, bind_of_ok hspan, bind_of_ok harrays]
  exact ⟨_, rfl⟩

/-- **The default tables can be drawn from.** -/
theorem defaults_wellFormed {c : Catalog} (h : defaults l = .ok c) : c.WellFormed := by
  simp only [defaults, bind_eq_ok_iff] at h
  obtain ⟨seq, hseq, nest, hnest, stmt, hstmt, arr, harr, pragma, hpragma, offset, hoffset, span,
    hspan, arrays, harrays, h⟩ := h
  cases h
  intro t
  cases t with
  | loopSeqNum => exact wellFormed_of_rangeTable hseq
  | loopNestDepth => exact wellFormed_of_rangeTable hnest
  | scopeStmtNum => exact wellFormed_of_rangeTable hstmt
  | newArrNum => exact wellFormed_of_rangeTable harr
  | pragmaNum => exact wellFormed_of_rangeTable hpragma
  | constOffset => exact wellFormed_of_rangeTable hoffset
  | stencilSpan => exact wellFormed_of_rangeTable hspan
  | arrsInStencil => exact wellFormed_of_rangeTable harrays
  | _ =>
      dsimp only [Catalog.table]
      decide +kernel

/-- **No default table gets round the check of its entries**: the fixed ones too are what the check makes of
them. -/
theorem ofEntries_of_defaults {c : Catalog} (h : defaults l = .ok c) (t : TableId) :
    Table.ofEntries (c.table t).entries = .ok (c.table t) :=
  Table.ofEntries_eq_ok_iff.mpr ⟨rfl, defaults_wellFormed h t⟩

end Catalog

end FuzzPolicy
