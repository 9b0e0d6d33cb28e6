import FuzzPolicy.Proofs.Table.Entries

/-!
# Which tables differ

Catalogs are compared table by table and tables entry by entry, with weights compared as floats. Floats
differ from themselves if they are not numbers, and zero has two signs, so it has to be said what the
comparison means: two tables that can be drawn from compare as equal exactly if they give the same values
the same weight, `Table.beq_iff_same`. What is listed as changed are the names of the other tables, each
once and in the order of declaration, `Catalog.mem_changed_iff`.
-/

namespace FuzzPolicy

open Binary64

variable {α : Type}

/-! ### Entries -/

/-- Entries of the same value and the same weight. Zero weighs the same with either sign. -/
structure Entry.Same (e f : Entry α) : Prop where
  value : e.value = f.value
  weight : Binary64.units e.weight = Binary64.units f.weight

theorem Entry.Same.refl (e : Entry α) : e.Same e := ⟨rfl, rfl⟩

theorem Entry.beq_iff_same [DecidableEq α] {e f : Entry α} (he : Table.ValidWeight e.weight)
    (hf : Table.ValidWeight f.weight) : (e == f) = true ↔ e.Same f := by
  have hbeq : (e == f) = (e.value == f.value && e.weight == f.weight) := rfl
  rw [hbeq, Bool.and_eq_true, beq_iff_eq, beq_iff_units he.nonneg hf.nonneg]
  exact ⟨fun ⟨hvalue, hweight⟩ => ⟨hvalue, hweight⟩, fun h => ⟨h.value, h.weight⟩⟩

/-! ### Tables -/

namespace Table

/-- Tables that give the same values the same weights, entry by entry. -/
def Same (s t : Table α) : Prop :=
  List.Forall₂ Entry.Same s.entries t.entries

theorem Same.refl (t : Table α) : t.Same t :=
  List.forall₂_same.mpr fun e _ => .refl e

theorem entries_beq_iff [DecidableEq α] {es fs : List (Entry α)}
    (he : ∀ e ∈ es, ValidWeight e.weight) (hf : ∀ f ∈ fs, ValidWeight f.weight) :
    (es == fs) = true ↔ List.Forall₂ Entry.Same es fs := by
  induction es generalizing fs with
  | nil => cases fs <;> simp
  | cons e es ih =>
      cases fs with
      | nil => simp
      | cons f fs =>
          rw [List.forall_mem_cons] at he hf
          rw [List.cons_beq_cons, Bool.and_eq_true, Entry.beq_iff_same he.1 hf.1, ih he.2 hf.2,
            List.forall₂_cons]

/-- **Tables that can be drawn from compare as equal exactly if they have the same contents.** -/
theorem beq_iff_same [DecidableEq α] {s t : Table α} (hs : s.WellFormed) (ht : t.WellFormed) :
    (s == t) = true ↔ s.Same t :=
  entries_beq_iff (fun _ => hs.validWeight) fun _ => ht.validWeight

end Table

/-! ### Catalogs -/

namespace Catalog

variable {a b : Catalog} {t : TableId}

/-- **The tables that are listed as changed are those with other contents.** -/
theorem mem_changed_iff (ha : a.WellFormed) (hb : b.WellFormed) :
    t ∈ a.changed b ↔ ¬ (a.table t).Same (b.table t) := by
  rw [← Table.beq_iff_same (ha t) (hb t), changed, List.mem_filter, sameTable]
  simp [Vocabulary.mem_all]

theorem changed_sublist (a b : Catalog) : (a.changed b).Sublist Vocabulary.all :=
  List.filter_sublist

theorem nodup_all : (Vocabulary.all : List TableId).Nodup := by decide

/-- No table is listed twice. -/
theorem nodup_changed (a b : Catalog) : (a.changed b).Nodup :=
  nodup_all.sublist (a.changed_sublist b)

end Catalog

end FuzzPolicy
