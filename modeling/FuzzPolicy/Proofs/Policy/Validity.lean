import FuzzPolicy.Proofs.Policy.ModeRun
import FuzzPolicy.Proofs.Table.Made

/-!
# What validation gives

The checks of limits and tables are runs over lists, and each passes exactly if what it checks holds of
every member: `Limits.validate_eq_ok_iff` and `Catalog.validate_eq_ok_iff`. No mode changes a table that
is checked, so what the checks say of the tables that a policy was made of stays true of the tables it
decides by, whatever modes are chosen: `Policy.valid_after`.
-/

namespace FuzzPolicy

open Checks

/-! ### Limits -/

theorem CountRange.upTo_order (n : Nat) : (CountRange.upTo n).min ≤ (CountRange.upTo n).max :=
  Nat.min_le_left n 1

namespace Limits

theorem ofRange_eq_ok_iff {limit : LimitId} {x : Except RangeFault Unit} :
    ofRange limit x = .ok () ↔ x = .ok () := by
  cases x with
  | error fault => exact ⟨nofun, nofun⟩
  | ok _ => exact ⟨fun _ => rfl, fun _ => rfl⟩

theorem checkSize_eq_ok_iff {limit : LimitId} {n : Nat} : checkSize limit n = .ok () ↔ n ≠ 0 :=
  fail_if_eq_ok_iff

/-- **Limits are valid exactly if no range is inverted or too wide, no size is zero and the probability
is one.** -/
theorem validate_eq_ok_iff {l : Limits} :
    l.validate = .ok () ↔
      (∀ r ∈ l.ranges, r.2.min ≤ r.2.max) ∧ (∀ size ∈ l.sizes, size.2 ≠ 0) ∧
        (∀ r ∈ l.tableRanges, r.2.width < maxRangeLength) ∧
          0.0 ≤ l.alternation ∧ l.alternation ≤ 1.0 := by
  have hranges : (l.ranges.forM fun r => ofRange r.1 r.2.checkOrder) = .ok () ↔
      ∀ r ∈ l.ranges, r.2.min ≤ r.2.max := by
    rw [forM_eq_ok_iff]
    exact forall₂_congr fun r _ => ofRange_eq_ok_iff.trans CountRange.checkOrder_eq_ok_iff
  have hsizes : (l.sizes.forM fun size => checkSize size.1 size.2) = .ok () ↔
      ∀ size ∈ l.sizes, size.2 ≠ 0 := by
    rw [forM_eq_ok_iff]
    exact forall₂_congr fun size _ => checkSize_eq_ok_iff
  have hwidths : (l.tableRanges.forM fun r => ofRange r.1 r.2.checkWidth) = .ok () ↔
      ∀ r ∈ l.tableRanges, r.2.width < maxRangeLength := by
    rw [forM_eq_ok_iff]
    exact forall₂_congr fun r _ => ofRange_eq_ok_iff.trans CountRange.checkWidth_eq_ok_iff
  unfold validate
  rw [← hranges, ← hsizes, ← hwidths]
  constructor
  · intro h
    obtain ⟨_, hr, h⟩ := bind_eq_ok_iff.mp h
    obtain ⟨_, hs, h⟩ := bind_eq_ok_iff.mp h
    obtain ⟨_, hw, h⟩ := bind_eq_ok_iff.mp h
    exact ⟨hr, hs, hw, pass_if_eq_ok_iff.mp h⟩
  · rintro ⟨hr, hs, hw, hprob⟩
    refine bind_eq_ok_iff.mpr ⟨(), hr, bind_eq_ok_iff.mpr ⟨(), hs, bind_eq_ok_iff.mpr ⟨(), hw, ?_⟩⟩⟩
    exact pass_if_eq_ok_iff.mpr hprob

/-- If the ranges are in order, so are those that become tables: the others among them are ordered
whatever the limit is. -/
theorem tableRanges_order {l : Limits} (h : ∀ r ∈ l.ranges, r.2.min ≤ r.2.max) :
    ∀ r ∈ l.tableRanges, r.2.min ≤ r.2.max := by
  simp only [ranges, List.forall_mem_cons] at h
  obtain ⟨hscope, -, -, harrays, hoffset, -⟩ := h
  simp only [tableRanges, List.forall_mem_cons]
  exact ⟨CountRange.upTo_order _, CountRange.upTo_order _, hscope, harrays, hoffset, Nat.zero_le _,
    CountRange.upTo_order _, CountRange.upTo_order _, by simp⟩

end Limits

/-! ### Tables -/

namespace Catalog

theorem checkPlacement_eq_ok_iff {t : TableId} {table : Table NodeKind} {fits : NodeKind → Bool} :
    checkPlacement t table fits = .ok () ↔ ∀ k ∈ table.support, fits k = true := by
  unfold checkPlacement
  cases h : table.support.find? fun k => !fits k with
  | none =>
      rw [List.find?_eq_none] at h
      exact ⟨fun _ k hk => by simpa using h k hk, fun _ => rfl⟩
  | some kind =>
      have hbad : fits kind = false := by simpa using List.find?_some h
      refine ⟨nofun, fun hall => ?_⟩
      rw [hall kind (List.mem_of_find?_eq_some h)] at hbad
      cases hbad

theorem checkBound_eq_ok_iff {t : TableId} {table : Table Nat} {limit : LimitId} {range : CountRange} :
    checkBound t table limit range = .ok () ↔ ∃ n ∈ table.support, range.contains n = true :=
  pass_if_eq_ok_iff.trans List.any_eq_true

/-- A table without a count within its bound is named with the bound. -/
theorem checkBound_of_none {t : TableId} {table : Table Nat} {limit : LimitId} {range : CountRange}
    (h : ¬ ∃ n ∈ table.support, range.contains n = true) :
    checkBound t table limit range = .error (.outOfBounds t limit range.max) := by
  unfold checkBound
  rw [if_neg (by rwa [List.any_eq_true])]

/-- **Tables fit limits exactly if nothing that can be drawn is out of place and every bounded table
gives something within its bound.** -/
theorem validate_eq_ok_iff {c : Catalog} {l : Limits} :
    c.validate l = .ok () ↔
      (∀ p ∈ c.placements, ∀ k ∈ p.2.1.support, p.2.2 k = true) ∧
        ∀ b ∈ c.bounds l, ∃ n ∈ b.2.1.support, b.2.2.2.contains n = true := by
  have hplaced : (c.placements.forM fun p => checkPlacement p.1 p.2.1 p.2.2) = .ok () ↔
      ∀ p ∈ c.placements, ∀ k ∈ p.2.1.support, p.2.2 k = true := by
    rw [forM_eq_ok_iff]
    exact forall₂_congr fun p _ => checkPlacement_eq_ok_iff
  have hbounded : ((c.bounds l).forM fun b => checkBound b.1 b.2.1 b.2.2.1 b.2.2.2) = .ok () ↔
      ∀ b ∈ c.bounds l, ∃ n ∈ b.2.1.support, b.2.2.2.contains n = true := by
    rw [forM_eq_ok_iff]
    exact forall₂_congr fun b _ => checkBound_eq_ok_iff
  unfold validate
  rw [← hplaced, ← hbounded, bind_eq_ok_iff]
  exact ⟨fun ⟨_, hp, hb⟩ => ⟨hp, hb⟩, fun ⟨hp, hb⟩ => ⟨(), hp, hb⟩⟩

/-- Modes change no table that is checked. -/
theorem validate_under (baseline : Catalog) (o : Mode OperatorFamily) (c : Mode ConstUse) (l : Limits) :
    (baseline.under o c).validate l = baseline.validate l := rfl

end Catalog

/-! ### Policies -/

namespace Policy

/-- What the decisions within limits rely on: valid limits, tables that fit them, and that every table
that no mode rules can be drawn from. -/
structure Valid (p : Policy) : Prop where
  limits : p.limits.validate = .ok ()
  tables : p.tables.validate p.limits = .ok ()
  wellFormed : ∀ t, t ∉ ModeKind.operators.dependents → t ∉ ModeKind.constants.dependents →
    (p.tables.table t).WellFormed

namespace Valid

variable {p : Policy} (hp : p.Valid)

include hp

/-- The ends of a range are in order. -/
theorem order {r : LimitId × CountRange} (hr : r ∈ p.limits.ranges) : r.2.min ≤ r.2.max :=
  (Limits.validate_eq_ok_iff.mp hp.limits).1 r hr

/-- What is drawn is in its place. -/
theorem placed {t : TableId × Table NodeKind × (NodeKind → Bool)} (ht : t ∈ p.tables.placements)
    {k : NodeKind} (hk : k ∈ t.2.1.support) : t.2.2 k = true :=
  (Catalog.validate_eq_ok_iff.mp hp.tables).1 t ht k hk

/-- A bounded table gives something within its bound. -/
theorem bounded {b : TableId × Table Nat × LimitId × CountRange}
    (hb : b ∈ p.tables.bounds p.limits) : ∃ n ∈ b.2.1.support, b.2.2.2.contains n = true :=
  (Catalog.validate_eq_ok_iff.mp hp.tables).2 b hb

end Valid

/-- **Every policy that is reached from one made of well-formed tables is valid.** -/
theorem valid_after {limits : Limits} {tables : Catalog} {eviction : Eviction} {p : Policy}
    (h : ofParts limits tables eviction = .ok p) (ht : tables.WellFormed)
    (calls : List (ModeCall × Source)) : (p.after calls).Valid := by
  have haccepted : p.Accepted := .inl ⟨_, _, _, h⟩
  obtain ⟨hl, hc, hp⟩ := ofParts_eq_ok_iff.mp h
  have hlimits : (p.after calls).limits = limits := by rw [after_limits, hp]
  have hbaseline : p.baseline = tables := by rw [hp]
  -- The check looks only at tables that no mode rules, so the modes drop out of it.
  refine ⟨?_, ?_, ?_⟩
  · rw [hlimits]
    exact hl
  · rw [hlimits, tables_after haccepted, hbaseline, Catalog.validate_under]
    exact hc
  · intro t ho hconst
    rw [table_after haccepted calls ho hconst, hbaseline]
    exact ht t

end Policy

end FuzzPolicy
