import FuzzPolicy.Proofs.Catalog.Changed
import FuzzPolicy.Proofs.Policy.Accepted
import FuzzPolicy.Proofs.Table.Made

/-!
# How catalogs differ

Of a table, comparison sees the values and how much they weigh, `Table.contents`, and two tables that can
be drawn from are the same exactly if their contents are. So catalogs are compared as functions from names to
contents: the names that are listed as changed are those at which the functions differ, which makes the list
empty for equal catalogs only and the same from either side, and what differs at the end of a detour is
listed on the way. The comparison of all fields at once goes through the names in their order, so no field
is left out of the list: `Catalog.changed_exact`.
-/

namespace FuzzPolicy

/-! ### Contents -/

namespace Table

variable {α : Type} {s t u : Table α}

/-- The values of a table, each with what it weighs. -/
def contents (t : Table α) : List (α × Nat) :=
  t.entries.map fun e => (e.value, Binary64.units e.weight)

/-- Tables are the same if comparison sees the same of them. -/
theorem same_iff_contents : s.Same t ↔ s.contents = t.contents := by
  have hsame : Entry.Same (α := α) = fun e f =>
      (e.value, Binary64.units e.weight) = (f.value, Binary64.units f.weight) := by
    funext e f
    rw [Prod.mk.injEq]
    exact propext ⟨fun h => ⟨h.value, h.weight⟩, fun ⟨hvalue, hweight⟩ => ⟨hvalue, hweight⟩⟩
  rw [Same, hsame, contents, contents, ← List.forall₂_eq_eq_eq, List.forall₂_map_left_iff,
    List.forall₂_map_right_iff]

theorem Same.symm (h : s.Same t) : t.Same s :=
  same_iff_contents.mpr (same_iff_contents.mp h).symm

theorem Same.trans (h : s.Same t) (h' : t.Same u) : s.Same u :=
  same_iff_contents.mpr ((same_iff_contents.mp h).trans (same_iff_contents.mp h'))

end Table

/-! ### Catalogs -/

namespace Catalog

variable {a b c : Catalog} {t : TableId}

/-- Comparing all fields is comparing the tables of all names. -/
theorem beq_eq_all (a b : Catalog) :
    (a == b) = (Vocabulary.all : List TableId).all (a.sameTable b) := by
  simp only [Vocabulary.all, List.all_cons, List.all_nil, Bool.and_true]
  rfl

theorem beq_iff_sameTable : (a == b) = true ↔ ∀ t, a.sameTable b t = true := by
  rw [beq_eq_all, List.all_eq_true]
  exact ⟨fun h t => h t (Vocabulary.mem_all t), fun h t _ => h t⟩

/-- **Nothing is listed exactly if all fields are equal.** -/
theorem changed_eq_nil_iff : a.changed b = [] ↔ (a == b) = true := by
  rw [beq_iff_sameTable, changed, List.filter_eq_nil_iff]
  simp [Vocabulary.mem_all]

theorem changed_comm (ha : a.WellFormed) (hb : b.WellFormed) : a.changed b = b.changed a := by
  refine List.filter_congr fun t _ => congrArg not (Bool.eq_iff_iff.mpr ?_)
  rw [sameTable, sameTable, Table.beq_iff_same (ha t) (hb t), Table.beq_iff_same (hb t) (ha t)]
  exact ⟨.symm, .symm⟩

/-- A table that differs at the end of a detour differs on the way. -/
theorem mem_changed_or (ha : a.WellFormed) (hb : b.WellFormed) (hc : c.WellFormed)
    (h : t ∈ a.changed c) : t ∈ a.changed b ∨ t ∈ b.changed c := by
  rw [mem_changed_iff ha hc] at h
  rw [mem_changed_iff ha hb, mem_changed_iff hb hc, ← not_and_or]
  rintro ⟨hab, hbc⟩
  exact h (hab.trans hbc)

theorem WellFormed.set {table : Table t.Outcome} (ha : a.WellFormed) (ht : table.WellFormed) :
    (a.set t table).WellFormed := by
  intro u
  by_cases h : t = u
  · subst h
    rw [table_set_self]
    exact ht
  · rw [table_set_of_ne _ _ h]
    exact ha u

theorem same_table_set {s u : Table t.Outcome} (h : s.Same u) (v : TableId) :
    ((a.set t s).table v).Same ((a.set t u).table v) := by
  by_cases htv : t = v
  · subst htv
    rw [table_set_self, table_set_self]
    exact h
  · rw [table_set_of_ne _ _ htv, table_set_of_ne _ _ htv]
    exact .refl _

/-- **Replacing a table by another one changes that table and no other.** -/
theorem changed_set {table : Table t.Outcome} (ha : a.WellFormed) (ht : table.WellFormed)
    (hne : ¬ (a.table t).Same table) : a.changed (a.set t table) = [t] := by
  have hmem : ∀ u, u ∈ a.changed (a.set t table) ↔ u ∈ [t] := by
    intro u
    rw [mem_changed_iff ha (ha.set ht), List.mem_singleton]
    constructor
    · intro hdiffers
      by_contra h
      rw [table_set_of_ne _ _ (Ne.symm h)] at hdiffers
      exact hdiffers (.refl _)
    · rintro rfl
      rwa [table_set_self]
  exact List.perm_singleton.mp
    ((List.perm_ext_iff_of_nodup (nodup_changed _ _) (List.nodup_singleton t)).mpr hmem)

/-- **The list of changed tables is exact.** For catalogs of tables that can be drawn from, which are all
that can be made (`Table.made_iff_wellFormed`), it has the names of the tables with other contents, in the order
of declaration and without repeats. It is empty exactly if all fields are equal, which is to say that all
tables have the same contents. It is the same from either side, and what is listed for the ends of a detour
is listed for one of its parts. If one table is replaced by another one, its name is all that is listed. -/
theorem changed_exact (ha : a.WellFormed) (hb : b.WellFormed) (hc : c.WellFormed) :
    (∀ t, t ∈ a.changed b ↔ ¬ (a.table t).Same (b.table t)) ∧
    (a.changed b).Sublist Vocabulary.all ∧ (a.changed b).Nodup ∧
    (a.changed b = [] ↔ (a == b) = true) ∧
    ((a == b) = true ↔ ∀ t, (a.table t).Same (b.table t)) ∧
    a.changed b = b.changed a ∧
    (∀ t ∈ a.changed c, t ∈ a.changed b ∨ t ∈ b.changed c) ∧
    ∀ (t : TableId) (table : Table t.Outcome), table.WellFormed → ¬ (a.table t).Same table →
      a.changed (a.set t table) = [t] := by
  refine ⟨fun t => mem_changed_iff ha hb, a.changed_sublist b, a.nodup_changed b, changed_eq_nil_iff, ?_,
    changed_comm ha hb, fun t => mem_changed_or ha hb hc, fun t table => changed_set ha⟩
  rw [beq_iff_sameTable]
  exact forall_congr' fun t => Table.beq_iff_same (ha t) (hb t)

/-- The default tables and two others that differ from them in one table, and from each other in the sign of
a zero in it. That is no difference. -/
theorem changed_exact_zeros : ∃ a b c : Catalog, a.WellFormed ∧ b.WellFormed ∧ c.WellFormed ∧
    (b.table .ubInDc).entries = [⟨true, 0.0⟩, ⟨false, 1.0⟩] ∧
    (c.table .ubInDc).entries = [⟨true, -0.0⟩, ⟨false, 1.0⟩] ∧
    a.changed b = [.ubInDc] ∧ b.changed a = [.ubInDc] ∧ b.changed c = [] ∧ (b == c) = true := by
  let zero : Table Bool := ⟨[⟨true, 0.0⟩, ⟨false, 1.0⟩], by simp⟩
  let negative : Table Bool := ⟨[⟨true, -0.0⟩, ⟨false, 1.0⟩], by simp⟩
  obtain ⟨-, p, -, hcheck⟩ := Policy.exists_default
    (fun p => p.tables.WellFormed ∧ p.tables.ubInDc.contents ≠ zero.contents) (by decide +kernel)
  obtain ⟨ha, hother⟩ := of_decide_eq_true hcheck
  have hzero : zero.WellFormed := by decide +kernel
  have hnegative : negative.WellFormed := by decide +kernel
  have hsame : zero.Same negative := Table.same_iff_contents.mpr (by decide +kernel)
  have hb : (p.tables.set .ubInDc zero).WellFormed := ha.set hzero
  have hc : (p.tables.set .ubInDc negative).WellFormed := ha.set hnegative
  obtain ⟨-, -, -, -, -, hcomm, -, hset⟩ := changed_exact ha hb hc
  obtain ⟨-, -, -, hnil, hequal, -⟩ := changed_exact hb hc ha
  have hone : p.tables.changed (p.tables.set .ubInDc zero) = [.ubInDc] :=
    hset .ubInDc zero hzero fun h => hother (Table.same_iff_contents.mp h)
  have heq := hequal.mpr (same_table_set hsame)
  refine ⟨p.tables, _, _, ha, hb, hc, ?_, ?_, hone, hcomm.symm.trans hone, hnil.mpr heq, heq⟩
  · rw [table_set_self]
  · rw [table_set_self]

end Catalog

end FuzzPolicy
