import FuzzPolicy.Proofs.Config.Build

/-!
# Every table of every policy can be drawn from

Tables enter a policy when it is made: from the defaults, from the given entries, or as parts that were
made as tables before. Later only modes make new ones, out of the baseline: a family of operators filters
a table or falls back on equal weights, and a way of using constants puts small fixed tables. All these
are well-formed, so no run of mode calls ever leaves a table that cannot be drawn from:
`Policy.tables_drawable`.
-/

namespace FuzzPolicy

/-! ### The tables that modes make -/

theorem familyTable_wellFormed {α : Type} [DecidableEq α] {base : Table α} (h : base.WellFormed)
    (family : List α) : (familyTable base family).WellFormed := by
  unfold familyTable
  split
  · rename_i table hfilter
    exact Table.wellFormed_of_ofEntries hfilter
  · split
    · rename_i table huniform
      exact Table.wellFormed_of_ofPairs huniform
    · exact h

theorem mostlyTrue_wellFormed : mostlyTrue.WellFormed := by decide +kernel

structure OperatorTables.WellFormed (o : OperatorTables) : Prop where
  unary : o.unary.WellFormed
  binary : o.binary.WellFormed

structure ConstTables.WellFormed (o : ConstTables) : Prop where
  reuseConst : o.reuseConst.WellFormed
  useConstTransform : o.useConstTransform.WellFormed
  useSpecialConst : o.useSpecialConst.WellFormed
  useConstOffset : o.useConstOffset.WellFormed
  replaceInBuf : o.replaceInBuf.WellFormed

namespace Catalog

variable {c : Catalog}

theorem operatorsUnder_wellFormed (h : c.WellFormed) (mode : Mode OperatorFamily) :
    (c.operatorsUnder mode).WellFormed := by
  cases mode with
  | unset => exact ⟨h .unaryOp, h .binaryOp⟩
  | disabled => exact ⟨h .unaryOp, h .binaryOp⟩
  | active family =>
      exact ⟨familyTable_wellFormed (h .unaryOp) _, familyTable_wellFormed (h .binaryOp) _⟩

theorem constTables_wellFormed (h : c.WellFormed) (use : ConstUse) :
    (constTables use c).WellFormed := by
  have hsingle : ∀ v : Bool, (Table.single v).WellFormed := Table.single_wellFormed
  have heven : (Table.even true false).WellFormed := Table.even_wellFormed true false
  cases use with
  | halfDef => exact ⟨heven, h .useConstTransform, heven, h .useConstOffset, h .replaceInBuf⟩
  | allSame => exact ⟨hsingle _, hsingle _, hsingle _, hsingle _, hsingle _⟩
  | freshSpecial =>
      exact ⟨hsingle _, h .useConstTransform, mostlyTrue_wellFormed, heven, hsingle _⟩

theorem constantsUnder_wellFormed (h : c.WellFormed) (mode : Mode ConstUse) :
    (c.constantsUnder mode).WellFormed := by
  have hbase : c.constants.WellFormed :=
    ⟨h .reuseConst, h .useConstTransform, h .useSpecialConst, h .useConstOffset, h .replaceInBuf⟩
  cases mode with
  | unset => exact hbase
  | disabled => exact hbase
  | active use => exact constTables_wellFormed h use

/-- Whatever the modes, they make well-formed tables of a well-formed baseline. -/
theorem under_wellFormed (h : c.WellFormed) (o : Mode OperatorFamily) (m : Mode ConstUse) :
    (c.under o m).WellFormed := by
  have hoperators := operatorsUnder_wellFormed h o
  have hconstants := constantsUnder_wellFormed h m
  intro t
  -- The dependents of both kinds of mode; no other table is touched.
  cases t with
  | unaryOp => exact hoperators.unary
  | binaryOp => exact hoperators.binary
  | reuseConst => exact hconstants.reuseConst
  | useConstTransform => exact hconstants.useConstTransform
  | useSpecialConst => exact hconstants.useSpecialConst
  | useConstOffset => exact hconstants.useConstOffset
  | replaceInBuf => exact hconstants.replaceInBuf
  | _ =>
      rw [table_under (by decide) (by decide)]
      exact h _

end Catalog

/-! ### The tables that configurations name -/

theorem PolicyConfig.Tables.wellFormed {c : PolicyConfig} {tables : Catalog} (h : c.Tables tables) :
    tables.WellFormed := by
  obtain ⟨defaults, hd, hover⟩ := h
  intro t
  cases hes : c.tables.entries t with
  | none =>
      rw [hover.kept t fun _ => hes]
      exact Catalog.defaults_wellFormed hd t
  | some es => exact Table.wellFormed_of_ofEntries (hover.given t (Vocabulary.mem_all t) es hes)

/-! ### All policies -/

namespace Policy

/-- The policies that can be made. Parts are tables that can be made. -/
inductive Made : Policy → Prop
  | ofLimits {limits : Limits} {p : Policy} (h : ofLimits limits = .ok p) : Made p
  | ofParts {limits : Limits} {tables : Catalog} {eviction : Eviction} {p : Policy}
      (htables : ∀ t, (tables.table t).Made) (h : ofParts limits tables eviction = .ok p) : Made p
  | build {c : PolicyConfig} {p : Policy} (h : c.build = .ok p) : Made p

variable {p : Policy}

theorem Made.parts (h : p.Made) : ∃ limits tables eviction,
    Policy.ofParts limits tables eviction = .ok p ∧ tables.WellFormed := by
  cases h with
  | ofLimits h =>
      obtain ⟨_, -, h⟩ := Checks.bind_eq_ok_iff.mp h
      obtain ⟨tables, hd, h⟩ := Checks.bind_eq_ok_iff.mp h
      exact ⟨_, tables, _, h, Catalog.defaults_wellFormed hd⟩
  | ofParts htables h => exact ⟨_, _, _, h, fun t => (htables t).wellFormed⟩
  | build h =>
      obtain ⟨tables, htables, h⟩ := PolicyConfig.parts_of_build h
      exact ⟨_, tables, _, h, htables.wellFormed⟩

theorem Made.accepted (h : p.Made) : p.Accepted := by
  obtain ⟨limits, tables, eviction, hp, -⟩ := h.parts
  exact .inl ⟨limits, tables, eviction, hp⟩

theorem Made.wellFormed_after (h : p.Made) (calls : List (ModeCall × Source)) :
    (p.after calls).tables.WellFormed ∧ (p.after calls).baseline.WellFormed := by
  obtain ⟨limits, tables, eviction, hp, hwf⟩ := h.parts
  have hbaseline : p.baseline = tables := by rw [(ofParts_eq_ok_iff.mp hp).2.2]
  rw [tables_after (.inl ⟨_, _, _, hp⟩), after_baseline, hbaseline]
  exact ⟨Catalog.under_wellFormed hwf _ _, hwf⟩

/-- **Every table can be drawn from.** Entries make a table exactly if they can be drawn from, and are
refused with what is wrong with them if not. Tables made in any other way can be drawn from too, and so
can all tables and all baseline tables of a policy, however it was made and whatever modes have been
chosen since. -/
theorem tables_drawable :
    (∀ (α : Type) (es : List (Entry α)),
      (∀ t, Table.ofEntries es = .ok t ↔ t.entries = es ∧ Table.Drawable es) ∧
      ∀ fault, Table.ofEntries es = .error fault ↔ Table.Faulty es fault) ∧
    (∀ (α : Type) (t : Table α), t.Made → Table.Drawable t.entries) ∧
    ∀ p : Policy, p.Made → ∀ calls t,
      Table.Drawable ((p.after calls).tables.table t).entries ∧
        Table.Drawable ((p.after calls).baseline.table t).entries := by
  refine ⟨fun α es => ⟨fun t => ?_, fun fault => ?_⟩, fun α t ht => ?_, fun p hp calls t => ?_⟩
  · exact Table.ofEntries_eq_ok_iff_drawable
  · exact Table.ofEntries_eq_error_iff
  · exact Table.wellFormed_iff_drawable.mp ht.wellFormed
  · obtain ⟨htables, hbaseline⟩ := hp.wellFormed_after calls
    exact ⟨Table.wellFormed_iff_drawable.mp (htables t),
      Table.wellFormed_iff_drawable.mp (hbaseline t)⟩

/-- The odd counts of a range, two weights that overflow together, and the default policy after a
choice of operators. -/
theorem tables_drawable_default :
    (∃ odd : Table Nat, odd.Made ∧ odd.entries = [⟨1, 1.0⟩, ⟨3, 1.0⟩] ∧
      Table.Drawable odd.entries) ∧
    Table.ofEntries ([⟨0, 1e308⟩, ⟨1, 1e308⟩] : List (Entry Nat)) = .error .infiniteTotal ∧
    ∃ p : Policy, p.Made ∧ ∃ calls, (p.after calls).operatorMode = .active .additive ∧
      ∀ t, Table.Drawable ((p.after calls).tables.table t).entries := by
  obtain ⟨hentries, hmade, hpolicies⟩ := tables_drawable
  refine ⟨?_, ?_, ?_⟩
  · let odd : Table Nat := ⟨[⟨1, 1.0⟩, ⟨3, 1.0⟩], by simp⟩
    let range : Table Nat := ⟨[⟨1, 1.0⟩, ⟨2, 1.0⟩, ⟨3, 1.0⟩, ⟨4, 1.0⟩], by simp⟩
    have hrange : CountRange.table ⟨1, 4⟩ = .ok range := rfl
    have hfilter : range.filter (fun n => n % 2 = 1) = .ok odd :=
      (hentries Nat odd.entries).1 odd |>.mpr
        ⟨rfl, Table.wellFormed_iff_drawable.mp (by decide +kernel)⟩
    have hodd : odd.Made := .filter (.range hrange) hfilter
    exact ⟨odd, hodd, rfl, hmade Nat odd hodd⟩
  · refine (hentries Nat _).2 _ |>.mpr (.infiniteTotal ?_ ?_ ?_ ?_) <;> decide +kernel
  · let calls : List (ModeCall × Source) := [(.select .operators, ⟨fun _ => 0, 0⟩)]
    obtain ⟨tables, p, hp, hmode⟩ := exists_default
      (fun p => p.tables.WellFormed ∧ (p.after calls).operatorMode = .active .additive)
      (by decide +kernel)
    obtain ⟨hwf, hactive⟩ := of_decide_eq_true hmode
    rw [(ofParts_eq_ok_iff.mp hp).2.2] at hwf
    have hp : p.Made := .ofParts (fun t => Table.made_iff_wellFormed.mpr (hwf t)) hp
    exact ⟨p, hp, calls, hactive, fun t => (hpolicies p hp calls t).1⟩

end Policy

end FuzzPolicy
