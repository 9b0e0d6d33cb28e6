import FuzzPolicy.Policy.Decision
import FuzzPolicy.Proofs.Policy.Validity
import FuzzPolicy.Proofs.Table.Sample

/-!
# Hard ceilings

What a decision answers is either drawn, and then the filter of the draw keeps it within the limit, or
it is the fallback, and then the fallback is within the limit itself. Most ceilings need nothing else and
hold of every policy. That a statement kind is a statement, that an expression kind is an expression and
that the ends of a range are in order is what validation adds.

`Policy.WithinCeilings` collects what all decisions promise. It holds in every state that an accepted
policy reaches: `Policy.within_ceilings_after`.
-/

namespace FuzzPolicy.Policy

open Draw

variable {p : Policy} {ctx : ScopeContext}

/-! ### Statement kinds -/

theorem chooseStmtKind_of_full (h : p.limits.stmtNumLim ≤ ctx.stmtCount) (s : Source) :
    p.chooseStmtKind ctx s = (.stubStmt, s) := by
  unfold chooseStmtKind
  rw [if_pos h]
  rfl

theorem chooseStmtKind_of_room (h : ctx.stmtCount < p.limits.stmtNumLim) :
    p.chooseStmtKind ctx =
      do return (← p.tables.stmtKindStruct.sampleWhere (p.allowsKind ctx)).getD .stubStmt := by
  unfold chooseStmtKind
  rw [if_neg (Nat.not_le.mpr h)]

/-- A stub is the answer where nothing else is left to say, so it has to be allowed for. -/
theorem always_chooseStmtKind {P : NodeKind → Prop} (hstub : P .stubStmt)
    (hdrawn : ∀ k ∈ p.tables.stmtKindStruct.support, p.allowsKind ctx k = true → P k) :
    (p.chooseStmtKind ctx).Always P := by
  rcases Nat.lt_or_ge ctx.stmtCount p.limits.stmtNumLim with h | h
  · rw [chooseStmtKind_of_room h]
    exact Table.always_drawn_or _ hdrawn hstub
  · intro s
    rw [chooseStmtKind_of_full h]
    exact hstub

/-- The kind that is chosen may stand where it is chosen. -/
theorem always_chooseStmtKind_allowed : (p.chooseStmtKind ctx).Always (p.allowsKind ctx · = true) :=
  always_chooseStmtKind rfl fun _ _ hallowed => hallowed

theorem loopDepth_lt_of_allowsKind {k : NodeKind} (h : p.allowsKind ctx k = true)
    (hk : k.isLoop = true) : ctx.loopDepth < p.limits.loopDepthLimit := by
  cases k <;> first | exact of_decide_eq_true h | cases hk

theorem ifElseDepth_lt_of_allowsKind (h : p.allowsKind ctx .ifElse = true) :
    ctx.ifElseDepth < p.limits.ifElseDepthLimit :=
  of_decide_eq_true h

/-! ### Counts -/

theorem always_chooseLoopNestDepth_le (d : Nat) :
    (p.chooseLoopNestDepth d).Always
      (· ≤ min p.limits.loopNestDepthLim (p.limits.loopDepthLimit - d)) :=
  Table.always_drawn_or _ (fun _ _ hkeep => of_decide_eq_true hkeep) (Nat.le_refl _)

theorem always_chooseLoopSeqNum_le : p.chooseLoopSeqNum.Always (· ≤ p.limits.loopSeqNumLim) :=
  Table.always_drawn_or _ (fun _ _ hkeep => of_decide_eq_true hkeep) (Nat.le_refl _)

/-- With enough statements left the number is in its range, and not above what is left. -/
theorem always_chooseScopeStmtNum (horder : p.limits.scopeStmtNum.min ≤ p.limits.scopeStmtNum.max)
    (hroom : p.limits.scopeStmtNum.min ≤ p.limits.stmtNumLim - ctx.stmtCount) :
    (p.chooseScopeStmtNum ctx).Always fun n => p.limits.scopeStmtNum.min ≤ n ∧
      n ≤ min p.limits.scopeStmtNum.max (p.limits.stmtNumLim - ctx.stmtCount) := by
  refine Table.always_drawn_or _ (fun n _ hkeep => CountRange.contains_iff.mp hkeep) ?_
  rw [Nat.min_eq_left hroom]
  exact ⟨Nat.le_refl _, Nat.le_min.mpr ⟨horder, hroom⟩⟩

/-- With fewer statements left than a scope should have, it has all of them: no number of the range
is allowed, so the draw cannot give one. -/
theorem always_chooseScopeStmtNum_eq
    (hshort : p.limits.stmtNumLim - ctx.stmtCount < p.limits.scopeStmtNum.min) :
    (p.chooseScopeStmtNum ctx).Always (· = p.limits.stmtNumLim - ctx.stmtCount) := by
  -- A number that is drawn would be at least the least and at most what is left, which is less.
  refine Table.always_drawn_or _ ?_ (Nat.min_eq_right (Nat.le_of_lt hshort))
  intro n _ hkeep
  obtain ⟨hmin, hmax⟩ := CountRange.contains_iff.mp hkeep
  have hmin' : p.limits.scopeStmtNum.min ≤ n := hmin
  have hmax' : n ≤ min p.limits.scopeStmtNum.max (p.limits.stmtNumLim - ctx.stmtCount) := hmax
  omega

theorem always_chooseNewArrNum (horder : p.limits.newArrNum.min ≤ p.limits.newArrNum.max) :
    p.chooseNewArrNum.Always fun n =>
      p.limits.newArrNum.min ≤ n ∧ n ≤ p.limits.newArrNum.max :=
  Table.always_drawn_or _ (fun _ _ hkeep => CountRange.contains_iff.mp hkeep)
    ⟨horder, Nat.le_refl _⟩

/-! ### Nodes of expressions -/

/-- The bump of the leaves gives no weight to what had none. -/
theorem pos_of_arithWeight_pos {depth : Nat} {kind : NodeKind} {weight : Float}
    (h : 0 < arithWeight depth kind weight) : 0 < weight := by
  unfold arithWeight at h
  split at h
  · rename_i hleaf
    rw [Bool.and_eq_true, decide_eq_true_eq] at hleaf
    exact hleaf.2
  · exact h

/-- The node is drawn from the table, or it is a constant. -/
theorem always_chooseArithNode (p : Policy) (depth : Nat) :
    (p.chooseArithNode depth).Always fun k => k ∈ p.tables.arithNode.support ∨ k = .const := by
  unfold chooseArithNode
  refine always_ite (fun _ => ?_) (fun _ => ?_)
  · exact Table.always_drawn_or _ (fun _ hv _ => .inl hv) (.inr rfl)
  · exact Table.always_reweighted_or _
      (fun e he hpos => .inl (Table.mem_support_iff.mpr ⟨e, he, pos_of_arithWeight_pos hpos, rfl⟩))
      (.inr rfl)

/-- At the last level of an expression the node is a leaf. -/
theorem always_chooseArithNode_isLeaf {depth : Nat} (h : p.limits.maxArithDepth ≤ depth) :
    (p.chooseArithNode depth).Always fun k => k.isLeaf = true := by
  unfold chooseArithNode
  rw [if_pos h]
  exact Table.always_drawn_or _ (fun _ _ hkeep => hkeep) rfl

/-! ### All ceilings together -/

/-- What the decisions of a policy promise wherever the generator stands. -/
structure WithinCeilings (q : Policy) : Prop where
  stmtKind_isStmt : ∀ ctx, (q.chooseStmtKind ctx).Always fun k => k.isStmt = true
  stmtKind_full : ∀ ctx s, q.limits.stmtNumLim ≤ ctx.stmtCount →
    q.chooseStmtKind ctx s = (.stubStmt, s)
  stmtKind_loop : ∀ ctx, q.limits.loopDepthLimit ≤ ctx.loopDepth →
    (q.chooseStmtKind ctx).Always fun k => k ≠ .loopSeq ∧ k ≠ .loopNest
  stmtKind_ifElse : ∀ ctx, q.limits.ifElseDepthLimit ≤ ctx.ifElseDepth →
    (q.chooseStmtKind ctx).Always fun k => k ≠ .ifElse
  /-- With room for statements the kind is drawn, if the table has one that may stand here. -/
  stmtKind_drawn : ∀ ctx, ctx.stmtCount < q.limits.stmtNumLim →
    (∃ k ∈ q.tables.stmtKindStruct.support, q.allowsKind ctx k = true) →
    (q.chooseStmtKind ctx).Always fun k =>
      k ∈ q.tables.stmtKindStruct.support ∧ q.allowsKind ctx k = true
  stmtKind_none : ∀ ctx, (∀ k ∈ q.tables.stmtKindStruct.support, q.allowsKind ctx k = false) →
    (q.chooseStmtKind ctx).Always (· = .stubStmt)
  loopNestDepth : ∀ d, (q.chooseLoopNestDepth d).Always
    (· ≤ min q.limits.loopNestDepthLim (q.limits.loopDepthLimit - d))
  loopSeqNum : q.chooseLoopSeqNum.Always (· ≤ q.limits.loopSeqNumLim)
  scopeStmtNum : ∀ ctx, q.limits.scopeStmtNum.min ≤ q.limits.stmtNumLim - ctx.stmtCount →
    (q.chooseScopeStmtNum ctx).Always fun n => q.limits.scopeStmtNum.min ≤ n ∧
      n ≤ min q.limits.scopeStmtNum.max (q.limits.stmtNumLim - ctx.stmtCount)
  scopeStmtNum_short : ∀ ctx, q.limits.stmtNumLim - ctx.stmtCount < q.limits.scopeStmtNum.min →
    (q.chooseScopeStmtNum ctx).Always (· = q.limits.stmtNumLim - ctx.stmtCount)
  iterEnd : q.chooseIterEnd.Always fun n =>
    q.limits.itersEndLimit.min ≤ n ∧ n ≤ q.limits.itersEndLimit.max
  inpVarsNum : q.chooseInpVarsNum.Always fun n =>
    q.limits.inpVarsNum.min ≤ n ∧ n ≤ q.limits.inpVarsNum.max
  newArrNum : q.chooseNewArrNum.Always fun n =>
    q.limits.newArrNum.min ≤ n ∧ n ≤ q.limits.newArrNum.max
  arithNode_isExpr : ∀ depth, (q.chooseArithNode depth).Always fun k => k.isExpr = true
  arithNode_isLeaf : ∀ depth, q.limits.maxArithDepth ≤ depth →
    (q.chooseArithNode depth).Always fun k => k.isLeaf = true
  arithNode_drawn : ∀ depth, (q.chooseArithNode depth).Always fun k =>
    k ∈ q.tables.arithNode.support ∨ k = .const
  /-- At the last level a leaf is drawn, if the table has one; else the node is a constant. -/
  arithNode_leaf : ∀ depth, q.limits.maxArithDepth ≤ depth →
    (∃ k ∈ q.tables.arithNode.support, k.isLeaf = true) →
    (q.chooseArithNode depth).Always fun k => k ∈ q.tables.arithNode.support ∧ k.isLeaf = true
  arithNode_noLeaf : ∀ depth, q.limits.maxArithDepth ≤ depth →
    (∀ k ∈ q.tables.arithNode.support, k.isLeaf = false) →
    (q.chooseArithNode depth).Always (· = .const)
  /-- Before it the node is drawn, unless the weights of the leaves have grown past all bounds. -/
  arithNode_inner : ∀ depth, depth < q.limits.maxArithDepth →
    ¬ totalOf (q.tables.arithNode.reweigh (arithWeight depth)) ≤ 0 →
    (totalOf (q.tables.arithNode.reweigh (arithWeight depth))).isFinite = true →
    (q.chooseArithNode depth).Always (· ∈ q.tables.arithNode.support)
  libCall : ∀ dialect, (q.chooseLibCall dialect).Always (· ∈ (q.tables.libCall dialect).support)

theorem Valid.within_ceilings {q : Policy} (hq : q.Valid) : q.WithinCeilings where
  stmtKind_isStmt ctx := by
    refine always_chooseStmtKind rfl fun k hk _ => ?_
    exact hq.placed (t := (.stmtKindStruct, q.tables.stmtKindStruct, NodeKind.isStmt))
      List.mem_cons_self hk
  stmtKind_full ctx s h := chooseStmtKind_of_full h s
  stmtKind_loop ctx h := by
    refine always_chooseStmtKind_allowed.mono fun k hk => ?_
    constructor
    · rintro rfl
      exact absurd (loopDepth_lt_of_allowsKind hk rfl) (Nat.not_lt.mpr h)
    · rintro rfl
      exact absurd (loopDepth_lt_of_allowsKind hk rfl) (Nat.not_lt.mpr h)
  stmtKind_ifElse ctx h := by
    refine always_chooseStmtKind_allowed.mono fun k hk => ?_
    rintro rfl
    exact absurd (ifElseDepth_lt_of_allowsKind hk) (Nat.not_lt.mpr h)
  stmtKind_drawn ctx hroom hex := by
    rw [chooseStmtKind_of_room hroom]
    have hwf : q.tables.stmtKindStruct.WellFormed :=
      hq.wellFormed .stmtKindStruct (by decide) (by decide)
    exact Table.always_drawn ((Table.draws_iff hwf).mpr hex) fun k hk hallowed => ⟨hk, hallowed⟩
  stmtKind_none ctx hnone := by
    refine always_chooseStmtKind rfl fun k hk hallowed => ?_
    rw [hnone k hk] at hallowed
    cases hallowed
  loopNestDepth d := always_chooseLoopNestDepth_le d
  loopSeqNum := always_chooseLoopSeqNum_le
  scopeStmtNum ctx h := always_chooseScopeStmtNum
    (hq.order (r := (.scopeStmtNum, q.limits.scopeStmtNum)) (by simp [Limits.ranges])) h
  scopeStmtNum_short ctx h := always_chooseScopeStmtNum_eq h
  iterEnd := always_between
    (hq.order (r := (.itersEndLimit, q.limits.itersEndLimit)) (by simp [Limits.ranges]))
  inpVarsNum := always_between
    (hq.order (r := (.inpVarsNum, q.limits.inpVarsNum)) (by simp [Limits.ranges]))
  newArrNum := always_chooseNewArrNum
    (hq.order (r := (.newArrNum, q.limits.newArrNum)) (by simp [Limits.ranges]))
  arithNode_isExpr depth := by
    refine (q.always_chooseArithNode depth).mono fun k hk => ?_
    rcases hk with hk | rfl
    · exact hq.placed (t := (.arithNode, q.tables.arithNode, NodeKind.isExpr))
        (by simp [Catalog.placements]) hk
    · rfl
  arithNode_isLeaf depth h := always_chooseArithNode_isLeaf h
  arithNode_drawn depth := q.always_chooseArithNode depth
  arithNode_leaf depth h hex := by
    unfold chooseArithNode
    rw [if_pos h]
    have hwf : q.tables.arithNode.WellFormed := hq.wellFormed .arithNode (by decide) (by decide)
    exact Table.always_drawn ((Table.draws_iff hwf).mpr hex) fun k hk hleaf => ⟨hk, hleaf⟩
  arithNode_noLeaf depth h hnone := by
    unfold chooseArithNode
    rw [if_pos h]
    exact Table.always_fallback hnone
  arithNode_inner depth h hpos hfin := by
    unfold chooseArithNode
    rw [if_neg (Nat.not_le.mpr h)]
    exact Table.always_reweighted hpos hfin fun e he hlive =>
      Table.mem_support_iff.mpr ⟨e, he, pos_of_arithWeight_pos hlive, rfl⟩
  libCall dialect := by
    cases dialect with
    | c => exact Table.always_sample (hq.wellFormed .cLibCall (by decide) (by decide))
    | cxx => exact Table.always_sample (hq.wellFormed .cxxLibCall (by decide) (by decide))
    | ispc => exact Table.always_sample (hq.wellFormed .ispcLibCall (by decide) (by decide))

/-- **Hard ceilings.** In every state that a policy reaches by choosing modes, every decision is within
its limit. -/
theorem within_ceilings_after {limits : Limits} {tables : Catalog} {eviction : Eviction} {p : Policy}
    (h : ofParts limits tables eviction = .ok p) (ht : tables.WellFormed)
    (calls : List (ModeCall × Source)) :
    (p.after calls).limits = limits ∧ (p.after calls).WithinCeilings := by
  obtain ⟨-, -, hp⟩ := ofParts_eq_ok_iff.mp h
  -- Choosing modes keeps the limits, so these are the ceilings that the policy was made with.
  refine ⟨?_, (valid_after h ht calls).within_ceilings⟩
  rw [after_limits, hp]

/-- The ceilings of the default policy. -/
theorem within_ceilings_after_default : ∃ tables p, ofParts .default tables .fifo = .ok p ∧
    tables.WellFormed ∧ ∀ calls, (p.after calls).limits = .default ∧ (p.after calls).WithinCeilings := by
  obtain ⟨tables, p, hp, hcheck⟩ :=
    exists_default (fun p => p.tables.WellFormed) (by decide +kernel)
  have hwf : p.tables.WellFormed := of_decide_eq_true hcheck
  obtain ⟨-, -, hparts⟩ := ofParts_eq_ok_iff.mp hp
  rw [hparts] at hwf
  exact ⟨tables, p, hp, hwf, within_ceilings_after hp hwf⟩

end FuzzPolicy.Policy
