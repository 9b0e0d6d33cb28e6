import FuzzPolicy.Proofs.Config.Build

/-!
# Policies of limits alone

Limits are looked at three times on the way to a policy: when they are validated, when tables are made of
their ranges, and when the tables are checked against them. The last two never find anything that the
first has not. A range that passes validation makes a table, and that table gives the greatest count of
its range, which is within the bound that the limit sets. So some limits make a policy exactly if they are
valid, and the fault, if there is one, is about a limit: `Policy.valid_limits_build`.
-/

namespace FuzzPolicy

open Checks

open Vocabulary (name)

/-! ### What validation finds -/

namespace Limits

variable {l : Limits} {fault : ConfigFault}

/-- What may be wrong with limits. -/
inductive Faulty (l : Limits) : ConfigFault → Prop
  | inverted {limit : LimitId} {range : CountRange} (h : (limit, range) ∈ l.ranges)
      (hbad : range.max < range.min) :
      Faulty l (.range (name limit) (.inverted range.min range.max))
  | zero {limit : LimitId} (h : (limit, 0) ∈ l.sizes) : Faulty l (.zeroLimit limit)
  | tooWide {limit : LimitId} {range : CountRange} (h : (limit, range) ∈ l.tableRanges)
      (hbad : maxRangeLength ≤ range.width) :
      Faulty l (.range (name limit) (.tooWide range.min range.max))
  | alternation (hbad : ¬ (0.0 ≤ l.alternation ∧ l.alternation ≤ 1.0)) :
      Faulty l (.invalidProbability .alternation l.alternation)

theorem ofRange_eq_error_iff {limit : LimitId} {x : Except RangeFault Unit} :
    ofRange limit x = .error fault ↔ ∃ f, x = .error f ∧ .range (name limit) f = fault := by
  cases x with
  | error f => simp [ofRange]
  | ok _ => simp [ofRange]

/-- **Validation names a limit and what is wrong with it.** -/
theorem faulty_of_validate (h : l.validate = .error fault) : l.Faulty fault := by
  unfold validate at h
  rcases bind_eq_error_iff.mp h with hranges | ⟨_, -, h⟩
  · obtain ⟨⟨limit, range⟩, hmem, hfail⟩ := exists_of_forM_eq_error hranges
    obtain ⟨f, horder, rfl⟩ := ofRange_eq_error_iff.mp hfail
    obtain ⟨hbad, rfl⟩ := fail_if_eq_error_iff.mp horder
    exact .inverted hmem hbad
  rcases bind_eq_error_iff.mp h with hsizes | ⟨_, -, h⟩
  · obtain ⟨⟨limit, n⟩, hmem, hfail⟩ := exists_of_forM_eq_error hsizes
    obtain ⟨rfl, rfl⟩ := fail_if_eq_error_iff.mp hfail
    exact .zero hmem
  rcases bind_eq_error_iff.mp h with hwidths | ⟨_, -, h⟩
  · obtain ⟨⟨limit, range⟩, hmem, hfail⟩ := exists_of_forM_eq_error hwidths
    obtain ⟨f, hwidth, rfl⟩ := ofRange_eq_error_iff.mp hfail
    obtain ⟨hbad, rfl⟩ := fail_if_eq_error_iff.mp hwidth
    exact .tooWide hmem hbad
  · obtain ⟨hbad, rfl⟩ := pass_if_eq_error_iff.mp h
    exact .alternation hbad

/-- No limit has the name under which a table of a range would be reported. -/
theorem name_ne_rangeTableName (limit : LimitId) : name limit ≠ Catalog.rangeTableName := by
  cases limit <;> decide

/-- A fault of limits is none of a table, whether of its range, its bound or its entries. -/
theorem Faulty.not_of_table (h : l.Faulty fault) :
    (∀ f, fault ≠ .range Catalog.rangeTableName f) ∧
      (∀ t limit bound, fault ≠ .outOfBounds t limit bound) ∧ ∀ t f, fault ≠ .table t f := by
  cases h with
  | inverted h hbad =>
      exact ⟨fun f heq => name_ne_rangeTableName _ (ConfigFault.range.inj heq).1, nofun, nofun⟩
  | zero h => exact ⟨nofun, nofun, nofun⟩
  | tooWide h hbad =>
      exact ⟨fun f heq => name_ne_rangeTableName _ (ConfigFault.range.inj heq).1, nofun, nofun⟩
  | alternation hbad => exact ⟨nofun, nofun, nofun⟩

end Limits

/-! ### The default tables -/

namespace Catalog

variable {l : Limits} {c : Catalog}

/-- The tables that follow from limits, with the ranges that they are to cover. -/
def ranged (c : Catalog) (l : Limits) : List (Table Nat × CountRange) :=
  [(c.loopSeqNum, ⟨min l.loopSeqNumLim 1, l.loopSeqNumLim⟩),
    (c.loopNestDepth, ⟨min l.loopNestDepthLim 1, l.loopNestDepthLim⟩),
    (c.scopeStmtNum, l.scopeStmtNum),
    (c.newArrNum, l.newArrNum),
    (c.pragmaNum, ⟨0, l.maxPragmaNum⟩),
    (c.constOffset, l.constOffset),
    (c.stencilSpan, ⟨min l.maxStencilSpan 1, l.maxStencilSpan⟩),
    (c.arrsInStencil, ⟨min l.maxArrsInStencil 1, l.maxArrsInStencil⟩)]

/-- **The default tables that follow from limits are those of the ranges.** -/
theorem table_of_ranged (h : defaults l = .ok c) : ∀ r ∈ c.ranged l, r.2.table = .ok r.1 := by
  simp only [defaults, bind_eq_ok_iff, rangeTable_eq_ok_iff] at h
  obtain ⟨seq, hseq, nest, hnest, stmt, hstmt, arr, harr, pragma, hpragma, offset, hoffset, span,
    hspan, arrays, harrays, h⟩ := h
  cases h
  simp only [ranged, List.forall_mem_cons]
  exact ⟨hseq, hnest, hstmt, harr, hpragma, hoffset, hspan, harrays, by simp⟩

/-- The default tables of node kinds give what fits. -/
theorem defaults_placed (h : defaults l = .ok c) :
    ∀ p ∈ c.placements, ∀ k ∈ p.2.1.support, p.2.2 k = true := by
  simp only [defaults, bind_eq_ok_iff] at h
  obtain ⟨_, -, _, -, _, -, _, -, _, -, _, -, _, -, _, -, h⟩ := h
  cases h
  simp only [placements, List.forall_mem_cons]
  exact ⟨by decide +kernel, by decide +kernel, by decide +kernel, by simp⟩

/-- A bound that allows the greatest count of a range is met by the table of the range. -/
theorem exists_within_of_table {r bound : CountRange} {t : Table Nat} (h : r.table = .ok t)
    (hmin : bound.min ≤ r.max) (hmax : r.max ≤ bound.max) :
    ∃ n ∈ t.support, bound.contains n = true := by
  have horder : r.min ≤ r.max := (CountRange.table_eq_ok_iff.mp h).1
  refine ⟨r.max, (CountRange.mem_support_of_table h).mpr ?_, ?_⟩
  · exact CountRange.contains_iff.mpr ⟨horder, Nat.le_refl _⟩
  · exact CountRange.contains_iff.mpr ⟨hmin, hmax⟩

/-- **Default tables pass the check against the limits that they were made under.** -/
theorem validate_defaults (hl : l.validate = .ok ()) (h : defaults l = .ok c) :
    c.validate l = .ok () := by
  refine validate_eq_ok_iff.mpr ⟨defaults_placed h, ?_⟩
  have hranged := table_of_ranged h
  simp only [ranged, List.forall_mem_cons] at hranged
  obtain ⟨hseq, hnest, hstmt, -, hpragma, hoffset, hspan, harrays, -⟩ := hranged
  obtain ⟨horder, hsizes, -⟩ := Limits.validate_eq_ok_iff.mp hl
  simp only [Limits.ranges, List.forall_mem_cons] at horder
  obtain ⟨hscope, -, -, -, hconst, -⟩ := horder
  simp only [Limits.sizes, List.forall_mem_cons] at hsizes
  obtain ⟨hspanSize, harraysSize, -⟩ := hsizes
  simp only [bounds, List.forall_mem_cons]
  -- A stencil has at least one array and reaches one step, so there a limit of zero would not do.
  exact ⟨exists_within_of_table hseq (Nat.zero_le _) (Nat.le_refl _),
    exists_within_of_table hnest (Nat.zero_le _) (Nat.le_refl _),
    exists_within_of_table hstmt hscope (Nat.le_refl _),
    exists_within_of_table hoffset hconst (Nat.le_refl _),
    exists_within_of_table hpragma (Nat.zero_le _) (Nat.le_refl _),
    exists_within_of_table hspan (Nat.pos_of_ne_zero hspanSize) (Nat.le_refl _),
    exists_within_of_table harrays (Nat.pos_of_ne_zero harraysSize) (Nat.le_refl _), by simp⟩

end Catalog

/-! ### Policies -/

/-- Without entries no table is replaced. -/
theorem TableOverrides.applyTo_blank (ts : List TableId) (c : Catalog) :
    blank.applyTo ts c = (c, none) := by
  induction ts with
  | nil => rfl
  | cons t ts ih => exact (applyTo_of_none rfl).trans ih

namespace Policy

variable {l : Limits} {p : Policy} {fault : ConfigFault}

/-- Valid limits make a policy of their default tables. -/
theorem exists_ofLimits (h : l.validate = .ok ()) :
    ∃ tables p, Catalog.defaults l = .ok tables ∧ ofParts l tables .fifo = .ok p ∧
      ofLimits l = .ok p := by
  obtain ⟨tables, hd⟩ := Catalog.exists_defaults h
  have hparts : ∃ p, ofParts l tables .fifo = .ok p :=
    ⟨_, ofParts_eq_ok_iff.mpr ⟨h, Catalog.validate_defaults h hd, rfl⟩⟩
  obtain ⟨p, hp⟩ := hparts
  refine ⟨tables, p, hd, hp, ?_⟩
  rw [ofLimits, bind_of_ok h, bind_of_ok hd, hp]

theorem ofLimits_eq_error_iff : ofLimits l = .error fault ↔ l.validate = .error fault := by
  cases h : l.validate with
  | error fault' => rw [ofLimits, bind_of_error h, Except.error.injEq, Except.error.injEq]
  | ok _ =>
      obtain ⟨tables, p, -, -, hp⟩ := exists_ofLimits h
      rw [hp]
      exact ⟨nofun, nofun⟩

theorem validate_of_ofLimits (h : ofLimits l = .ok p) : l.validate = .ok () := by
  cases hl : l.validate with
  | error fault =>
      rw [ofLimits_eq_error_iff.mpr hl] at h
      cases h
  | ok _ => rfl

theorem limits_of_ofLimits (h : ofLimits l = .ok p) : p.limits = l := by
  obtain ⟨tables, q, -, hparts, hq⟩ := exists_ofLimits (validate_of_ofLimits h)
  obtain rfl : q = p := Except.ok.inj (hq.symm.trans h)
  rw [(ofParts_eq_ok_iff.mp hparts).2.2]

/-- A configuration that gives limits only makes the policy of these limits. -/
theorem build_of_limits (o : LimitOverrides) :
    PolicyConfig.build ⟨o, .blank, none⟩ = ofLimits o.apply := by
  have hblank : ∀ c : Catalog, TableOverrides.blank.apply c = (c, none) :=
    TableOverrides.applyTo_blank Vocabulary.all
  simp only [PolicyConfig.build, ofLimits, hblank, Option.getD_none]

/-- **Valid limits are those that make a policy.** They do exactly if they pass validation, and if not, the
fault is the one that validation names, which is about a limit and never about a table. The policy is that
of the default tables, and a table that follows from a limit has the counts of its range, each once and all
with the same weight. A configuration that gives nothing but limits makes the same policy or has the same
fault. -/
theorem valid_limits_build :
    (∀ l : Limits,
      ((∃ p, ofLimits l = .ok p) ↔ l.validate = .ok ()) ∧
      (∀ fault, ofLimits l = .error fault ↔ l.validate = .error fault) ∧
      (∀ fault, ofLimits l = .error fault →
        (∀ f, fault ≠ .range Catalog.rangeTableName f) ∧
        (∀ t limit bound, fault ≠ .outOfBounds t limit bound) ∧ ∀ t f, fault ≠ .table t f) ∧
      ∀ p, ofLimits l = .ok p →
        (∀ r ∈ p.tables.ranged l, r.2.min ≤ r.2.max ∧ Table.uniform r.2.toList = .ok r.1) ∧
        ∃ tables, Catalog.defaults l = .ok tables ∧ ofParts l tables .fifo = .ok p) ∧
    ∀ o : LimitOverrides, PolicyConfig.build ⟨o, .blank, none⟩ = ofLimits o.apply := by
  refine ⟨fun l => ⟨⟨?_, ?_⟩, fun fault => ofLimits_eq_error_iff, ?_, ?_⟩, build_of_limits⟩
  · rintro ⟨p, hp⟩
    exact validate_of_ofLimits hp
  · intro h
    obtain ⟨tables, p, -, -, hp⟩ := exists_ofLimits h
    exact ⟨p, hp⟩
  · intro fault h
    exact (Limits.faulty_of_validate (ofLimits_eq_error_iff.mp h)).not_of_table
  · intro p h
    obtain ⟨tables, q, hd, hparts, hq⟩ := exists_ofLimits (validate_of_ofLimits h)
    obtain rfl : q = p := Except.ok.inj (hq.symm.trans h)
    refine ⟨fun r hr => ?_, tables, hd, hparts⟩
    rw [(ofParts_eq_ok_iff.mp hparts).2.2] at hr
    have htable := Catalog.table_of_ranged hd r hr
    exact ⟨(CountRange.table_eq_ok_iff.mp htable).1, CountRange.uniform_of_table htable⟩

/-- Limits at the ends of what is allowed, limits with a range that is too wide by one, and a configuration
that gives no more than a probability that is none. -/
theorem valid_limits_build_edges :
    (∃ p, ofLimits { Limits.default with loopSeqNumLim := 0, scopeStmtNum := ⟨7, 7⟩ } = .ok p ∧
      p.tables.loopSeqNum.entries = [⟨0, 1.0⟩] ∧ p.tables.scopeStmtNum.entries = [⟨7, 1.0⟩]) ∧
    ofLimits { Limits.default with maxPragmaNum := 4096 } =
      .error (.range "max_pragma_num" (.tooWide 0 4096)) ∧
    PolicyConfig.build ⟨⟨fun | .alternation => some (1.5 : Float) | _ => none⟩, .blank, none⟩ =
      .error (.invalidProbability .alternation 1.5) := by
  obtain ⟨hlimits, hconfig⟩ := valid_limits_build
  refine ⟨?_, ?_, ?_⟩
  · obtain ⟨hok, -, -, htables⟩ :=
      hlimits { Limits.default with loopSeqNumLim := 0, scopeStmtNum := ⟨7, 7⟩ }
    obtain ⟨p, hp⟩ := hok.mpr (by decide +kernel)
    obtain ⟨hranged, -⟩ := htables p hp
    simp only [Catalog.ranged, List.forall_mem_cons] at hranged
    obtain ⟨⟨-, hseq⟩, -, ⟨-, hstmt⟩, -⟩ := hranged
    exact ⟨p, hp, Table.entries_of_uniform hseq, Table.entries_of_uniform hstmt⟩
  · exact (hlimits _).2.1 _ |>.mpr (by decide +kernel)
  · rw [hconfig]
    exact (hlimits _).2.1 _ |>.mpr (by decide +kernel)

end Policy

end FuzzPolicy
