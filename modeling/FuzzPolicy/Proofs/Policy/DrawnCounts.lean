import FuzzPolicy.Constant.Plan
import FuzzPolicy.Proofs.Policy.Ceilings
import FuzzPolicy.Proofs.Stencil.Bounds

/-!
# Counts that are drawn and not made up

A decision about a count draws among the counts within its limit and has a fallback in case there is
none. Validation asks every bounded table for a count within its bound, with the very filter that the
decision uses, so on an accepted policy the draw gives a count and the fallback is never taken:
`Policy.Valid.checked_counts_drawn`.

One bounded table is not among those that are checked, that of new arrays. Its decision draws its count
exactly if the table happens to have one within the range, and else answers the greatest count of the
range, whatever the table says: `Policy.checked_counts_drawn_after`.
-/

namespace FuzzPolicy.Policy

open Checks Draw

variable {q : Policy}

/-! ### Counts inside of plans -/

/-- A new plan has its span and its number of arrays from the tables. -/
theorem always_drawStencil (arrayDims : Nat) (h : StencilHistory)
    (hspan : q.tables.stencilSpan.Draws fun n => 1 ≤ n && n ≤ q.limits.maxStencilSpan)
    (hcount : q.tables.arrsInStencil.Draws fun n => 1 ≤ n && n ≤ q.limits.maxArrsInStencil) :
    (q.drawStencil arrayDims h).Always fun r =>
      (r.1.span ∈ q.tables.stencilSpan.support ∧ 1 ≤ r.1.span ∧
        r.1.span ≤ q.limits.maxStencilSpan) ∧
      r.1.arrays.length ∈ q.tables.arrsInStencil.support ∧ 1 ≤ r.1.arrays.length ∧
        r.1.arrays.length ≤ q.limits.maxArrsInStencil := by
  unfold drawStencil
  refine always_bind hspan ?_
  rintro _ ⟨span, hs, hkeeps, rfl⟩
  refine always_bind hcount ?_
  rintro _ ⟨count, hc, hkeepc, rfl⟩
  refine always_bind_any fun sameDims => always_bind_any fun shared => always_ite_bind fun common => ?_
  refine always_bind (always_length_drawArrays arrayDims _ shared common count _ _) ?_
  intro drawn hdrawn
  have harrays : (drawn.map Prod.snd).length = count := by
    rw [List.length_map, hdrawn]
  rw [Bool.and_eq_true, decide_eq_true_eq, decide_eq_true_eq] at hkeeps hkeepc
  refine always_pure ⟨⟨hs, hkeeps⟩, ?_⟩
  rw [harrays]
  exact ⟨hc, hkeepc⟩

/-- A plan for a stencil is the older one of two, taken again, or a new one. -/
theorem always_planStencil {P : StencilPlan → Prop} (arrayDims : Nat) (h : StencilHistory)
    (hnew : (q.drawStencil arrayDims h).Always fun r => P r.1) :
    (q.planStencil arrayDims h).Always fun r =>
      ∀ plan, r.1 = some plan → h.alternate arrayDims = some plan ∨ P plan := by
  refine always_planStencil_cases nofun (fun older halt => ?_) fun _ => hnew.mono fun r hr => ?_
  · intro plan hplan
    cases hplan
    exact .inl halt
  · intro plan hplan
    cases hplan
    exact .inr hr

/-- The distance in a plan for a constant is from the table. -/
theorem always_planConst (buffered : Nat)
    (hoffset : q.tables.constOffset.Draws q.limits.constOffset.contains) :
    (q.planConst buffered).Always fun plan => ∀ o, plan.offset = some o →
      o.magnitude ∈ q.tables.constOffset.support ∧
        q.limits.constOffset.contains o.magnitude = true := by
  have hplan : q.planOffset.Always fun offset => ∀ o, offset = some o →
      o.magnitude ∈ q.tables.constOffset.support ∧
        q.limits.constOffset.contains o.magnitude = true := by
    unfold planOffset
    refine always_bind_any fun used => always_ite (fun _ => ?_) fun _ => always_pure nofun
    refine always_bind hoffset ?_
    rintro _ ⟨n, hn, hkeep, rfl⟩
    refine always_bind_any fun positive => always_pure ?_
    intro o ho
    cases ho
    exact ⟨hn, hkeep⟩
  unfold planConst
  refine always_bind_any fun wanted => always_ite_bind fun source => always_bind hplan ?_
  intro offset hoffset
  exact always_bind_any fun lsbEnd => always_pure hoffset

/-! ### The counts that validation asks for -/

/-- Every count whose table is checked is drawn: the draw among the counts within the limit gives one,
and that one is decided on. -/
structure CheckedCountsDrawn (q : Policy) : Prop where
  loopSeqNum : q.tables.loopSeqNum.Draws fun n => n ≤ q.limits.loopSeqNumLim
  chooseLoopSeqNum : q.chooseLoopSeqNum.Always fun n =>
    n ∈ q.tables.loopSeqNum.support ∧ n ≤ q.limits.loopSeqNumLim
  /-- Deep inside of loops there may be too little room for any depth of the table. -/
  loopNestDepth : ∀ d, d + q.limits.loopNestDepthLim ≤ q.limits.loopDepthLimit →
    q.tables.loopNestDepth.Draws fun n => n ≤ q.loopNestBound d
  chooseLoopNestDepth : ∀ d, d + q.limits.loopNestDepthLim ≤ q.limits.loopDepthLimit →
    (q.chooseLoopNestDepth d).Always fun n =>
      n ∈ q.tables.loopNestDepth.support ∧ n ≤ q.limits.loopNestDepthLim
  /-- Near its end a program may have too few statements left for any number of the table. -/
  scopeStmtNum : ∀ ctx : ScopeContext,
    ctx.stmtCount + q.limits.scopeStmtNum.max ≤ q.limits.stmtNumLim →
    q.tables.scopeStmtNum.Draws (CountRange.contains ⟨q.limits.scopeStmtNum.min,
      min q.limits.scopeStmtNum.max (q.limits.stmtNumLim - ctx.stmtCount)⟩)
  chooseScopeStmtNum : ∀ ctx : ScopeContext,
    ctx.stmtCount + q.limits.scopeStmtNum.max ≤ q.limits.stmtNumLim →
    (q.chooseScopeStmtNum ctx).Always fun n =>
      n ∈ q.tables.scopeStmtNum.support ∧ q.limits.scopeStmtNum.contains n = true
  pragmaNum : q.tables.pragmaNum.Draws fun n => n ≤ q.limits.maxPragmaNum
  choosePragmas : q.choosePragmas.Always fun kinds => ∃ drawn : List Pragma,
    kinds = drawn.eraseDups ∧ drawn.length ∈ q.tables.pragmaNum.support ∧
      drawn.length ≤ q.limits.maxPragmaNum
  constOffset : q.tables.constOffset.Draws q.limits.constOffset.contains
  planConst : ∀ buffered, (q.planConst buffered).Always fun plan => ∀ o, plan.offset = some o →
    o.magnitude ∈ q.tables.constOffset.support ∧ q.limits.constOffset.contains o.magnitude = true
  stencilSpan : q.tables.stencilSpan.Draws fun n => 1 ≤ n && n ≤ q.limits.maxStencilSpan
  arrsInStencil : q.tables.arrsInStencil.Draws fun n => 1 ≤ n && n ≤ q.limits.maxArrsInStencil
  /-- A plan that is not taken over from the history has both counts from the tables. -/
  planStencil : ∀ arrayDims h, (q.planStencil arrayDims h).Always fun r => ∀ plan, r.1 = some plan →
    h.alternate arrayDims = some plan ∨
      (plan.span ∈ q.tables.stencilSpan.support ∧ 1 ≤ plan.span ∧
        plan.span ≤ q.limits.maxStencilSpan) ∧
      plan.arrays.length ∈ q.tables.arrsInStencil.support ∧ 1 ≤ plan.arrays.length ∧
        plan.arrays.length ≤ q.limits.maxArrsInStencil

/-- What is checked of a bounded table is what the draw from it needs. -/
theorem Valid.draws (hq : q.Valid) (b : TableId × Table Nat × LimitId × CountRange)
    (hb : b ∈ q.tables.bounds q.limits) (hwf : b.2.1.WellFormed) {keep : Nat → Bool}
    (hkeep : ∀ n, b.2.2.2.contains n = true → keep n = true) : b.2.1.Draws keep := by
  obtain ⟨n, hn, hrange⟩ := hq.bounded hb
  exact (Table.draws_iff hwf).mpr ⟨n, hn, hkeep n hrange⟩

/-- A range without a least count asks for nothing but its greatest. -/
theorem le_of_contains_zero {max n : Nat} (h : CountRange.contains ⟨0, max⟩ n = true) : n ≤ max :=
  (CountRange.contains_iff.mp h).2

namespace Valid

variable (hq : q.Valid)

include hq

theorem draws_loopSeqNum : q.tables.loopSeqNum.Draws fun n => n ≤ q.limits.loopSeqNumLim :=
  hq.draws (.loopSeqNum, q.tables.loopSeqNum, .loopSeqNumLim, ⟨0, q.limits.loopSeqNumLim⟩)
    (by simp [Catalog.bounds]) (hq.wellFormed .loopSeqNum (by decide) (by decide))
    fun n hn => decide_eq_true (le_of_contains_zero hn)

theorem draws_loopNestDepth {d : Nat}
    (hroom : d + q.limits.loopNestDepthLim ≤ q.limits.loopDepthLimit) :
    q.tables.loopNestDepth.Draws fun n => n ≤ q.loopNestBound d := by
  -- There is room for the deepest nest, so the room does not count.
  have hbound : q.loopNestBound d = q.limits.loopNestDepthLim := by
    unfold loopNestBound
    omega
  rw [hbound]
  exact hq.draws (.loopNestDepth, q.tables.loopNestDepth, .loopNestDepthLim,
    ⟨0, q.limits.loopNestDepthLim⟩) (by simp [Catalog.bounds])
    (hq.wellFormed .loopNestDepth (by decide) (by decide))
    fun n hn => decide_eq_true (le_of_contains_zero hn)

theorem draws_scopeStmtNum {ctx : ScopeContext}
    (hroom : ctx.stmtCount + q.limits.scopeStmtNum.max ≤ q.limits.stmtNumLim) :
    q.tables.scopeStmtNum.Draws (CountRange.contains ⟨q.limits.scopeStmtNum.min,
      min q.limits.scopeStmtNum.max (q.limits.stmtNumLim - ctx.stmtCount)⟩) := by
  rw [Nat.min_eq_left (by omega)]
  exact hq.draws (.scopeStmtNum, q.tables.scopeStmtNum, .scopeStmtNum, q.limits.scopeStmtNum)
    (by simp [Catalog.bounds]) (hq.wellFormed .scopeStmtNum (by decide) (by decide)) fun n hn => hn

theorem draws_pragmaNum : q.tables.pragmaNum.Draws fun n => n ≤ q.limits.maxPragmaNum :=
  hq.draws (.pragmaNum, q.tables.pragmaNum, .maxPragmaNum, ⟨0, q.limits.maxPragmaNum⟩)
    (by simp [Catalog.bounds]) (hq.wellFormed .pragmaNum (by decide) (by decide))
    fun n hn => decide_eq_true (le_of_contains_zero hn)

theorem draws_constOffset : q.tables.constOffset.Draws q.limits.constOffset.contains :=
  hq.draws (.constOffset, q.tables.constOffset, .constOffset, q.limits.constOffset)
    (by simp [Catalog.bounds]) (hq.wellFormed .constOffset (by decide) (by decide)) fun n hn => hn

theorem draws_stencilSpan :
    q.tables.stencilSpan.Draws fun n => 1 ≤ n && n ≤ q.limits.maxStencilSpan :=
  hq.draws (.stencilSpan, q.tables.stencilSpan, .maxStencilSpan, ⟨1, q.limits.maxStencilSpan⟩)
    (by simp [Catalog.bounds]) (hq.wellFormed .stencilSpan (by decide) (by decide)) fun n hn => hn

theorem draws_arrsInStencil :
    q.tables.arrsInStencil.Draws fun n => 1 ≤ n && n ≤ q.limits.maxArrsInStencil :=
  hq.draws (.arrsInStencil, q.tables.arrsInStencil, .maxArrsInStencil,
    ⟨1, q.limits.maxArrsInStencil⟩) (by simp [Catalog.bounds])
    (hq.wellFormed .arrsInStencil (by decide) (by decide)) fun n hn => hn

theorem checked_counts_drawn : q.CheckedCountsDrawn where
  loopSeqNum := hq.draws_loopSeqNum
  chooseLoopSeqNum :=
    Table.always_drawn hq.draws_loopSeqNum fun n hn hle => ⟨hn, of_decide_eq_true hle⟩
  loopNestDepth d hroom := hq.draws_loopNestDepth hroom
  chooseLoopNestDepth d hroom := by
    refine Table.always_drawn (hq.draws_loopNestDepth hroom) fun n hn hle => ⟨hn, ?_⟩
    exact Nat.le_trans (of_decide_eq_true hle) (Nat.min_le_left _ _)
  scopeStmtNum ctx hroom := hq.draws_scopeStmtNum hroom
  chooseScopeStmtNum ctx hroom := by
    refine Table.always_drawn (hq.draws_scopeStmtNum hroom) fun n hn hkeep => ⟨hn, ?_⟩
    rwa [Nat.min_eq_left (by omega)] at hkeep
  pragmaNum := hq.draws_pragmaNum
  choosePragmas := by
    unfold choosePragmas
    refine always_bind hq.draws_pragmaNum ?_
    rintro _ ⟨n, hn, hle, rfl⟩
    refine always_bind (always_replicate (always_true _) n) ?_
    intro drawn hdrawn
    refine always_pure ⟨drawn, rfl, ?_⟩
    rw [hdrawn.1]
    exact ⟨hn, of_decide_eq_true hle⟩
  constOffset := hq.draws_constOffset
  planConst buffered := always_planConst buffered hq.draws_constOffset
  stencilSpan := hq.draws_stencilSpan
  arrsInStencil := hq.draws_arrsInStencil
  planStencil arrayDims h := always_planStencil arrayDims h
    (always_drawStencil arrayDims h hq.draws_stencilSpan hq.draws_arrsInStencil)

end Valid

/-! ### The count that it does not ask for -/

/-- The number of new arrays is drawn as the checked counts are. -/
structure NewArrNumDrawn (q : Policy) : Prop where
  newArrNum : q.tables.newArrNum.Draws q.limits.newArrNum.contains
  chooseNewArrNum : q.chooseNewArrNum.Always fun n =>
    n ∈ q.tables.newArrNum.support ∧ q.limits.newArrNum.contains n = true

/-- It is exactly if its table gives a number within the range. -/
theorem Valid.newArrNum_drawn_iff (hq : q.Valid) :
    q.NewArrNumDrawn ↔
      ∃ n ∈ q.tables.newArrNum.support, q.limits.newArrNum.contains n = true := by
  have hdraws : q.tables.newArrNum.Draws q.limits.newArrNum.contains ↔
      ∃ n ∈ q.tables.newArrNum.support, q.limits.newArrNum.contains n = true :=
    Table.draws_iff (hq.wellFormed .newArrNum (by decide) (by decide))
  constructor
  · intro h
    exact hdraws.mp h.newArrNum
  · intro hex
    exact ⟨hdraws.mpr hex, Table.always_drawn (hdraws.mpr hex) fun n hn hkeep => ⟨hn, hkeep⟩⟩

/-! ### Tables that are refused -/

/-- Tables of which a bounded one gives nothing within its bound make no policy. -/
theorem ofParts_eq_outOfBounds {limits : Limits} {tables : Catalog} (eviction : Eviction)
    (hl : limits.validate = .ok ())
    (hplaced : ∀ p ∈ tables.placements, ∀ k ∈ p.2.1.support, p.2.2 k = true)
    (hout : ∃ b ∈ tables.bounds limits, ¬ ∃ n ∈ b.2.1.support, b.2.2.2.contains n = true) :
    ∃ b ∈ tables.bounds limits, (¬ ∃ n ∈ b.2.1.support, b.2.2.2.contains n = true) ∧
      ofParts limits tables eviction = .error (.outOfBounds b.1 b.2.2.1 b.2.2.2.max) := by
  obtain ⟨b, hb, hnone⟩ := hout
  have hfails : ∃ b ∈ tables.bounds limits,
      (fun b => Catalog.checkBound b.1 b.2.1 b.2.2.1 b.2.2.2) b ≠ .ok () :=
    ⟨b, hb, fun hok => hnone (Catalog.checkBound_eq_ok_iff.mp hok)⟩
  obtain ⟨⟨t, table, limit, range⟩, hmem, fault, hfault, hbounds⟩ := forM_eq_error hfails
  change Catalog.checkBound t table limit range = .error fault at hfault
  have hout : ¬ ∃ n ∈ table.support, range.contains n = true := by
    intro hin
    rw [Catalog.checkBound_eq_ok_iff.mpr hin] at hfault
    cases hfault
  -- The first table to fail need not be the one that was given, but it fails in the same way.
  rw [Catalog.checkBound_of_none hout] at hfault
  cases hfault
  refine ⟨(t, table, limit, range), hmem, hout, ?_⟩
  have hplacements :
      (tables.placements.forM fun p => Catalog.checkPlacement p.1 p.2.1 p.2.2) = .ok () :=
    forM_eq_ok_iff.mpr fun p hp => Catalog.checkPlacement_eq_ok_iff.mpr (hplaced p hp)
  have hvalidate : tables.validate limits = .error (.outOfBounds t limit range.max) :=
    (bind_of_ok hplacements).trans hbounds
  exact (bind_of_ok hl).trans (bind_of_error hvalidate)

/-! ### When all counts are drawn -/

/-- **Counts are drawn from their tables.** In every state that a policy reaches by choosing modes, all
counts whose tables are checked are drawn, and the number of new arrays is exactly if the table it was
made with gives one within the range. Valid limits with tables of which a checked one gives nothing
within its bound make no policy, and the fault names such a table. -/
theorem counts_drawn_after {limits : Limits} {tables : Catalog} (eviction : Eviction)
    (ht : tables.WellFormed) :
    (∀ p, ofParts limits tables eviction = .ok p → ∀ calls,
      (p.after calls).CheckedCountsDrawn ∧
        ((p.after calls).NewArrNumDrawn ↔
          ∃ n ∈ tables.newArrNum.support, limits.newArrNum.contains n = true)) ∧
    (limits.validate = .ok () →
      (∀ p ∈ tables.placements, ∀ k ∈ p.2.1.support, p.2.2 k = true) →
      (∃ b ∈ tables.bounds limits, ¬ ∃ n ∈ b.2.1.support, b.2.2.2.contains n = true) →
      ∃ b ∈ tables.bounds limits, (¬ ∃ n ∈ b.2.1.support, b.2.2.2.contains n = true) ∧
        ofParts limits tables eviction = .error (.outOfBounds b.1 b.2.2.1 b.2.2.2.max)) := by
  constructor
  · intro p hp calls
    have hvalid : (p.after calls).Valid := valid_after hp ht calls
    have hparts := (ofParts_eq_ok_iff.mp hp).2.2
    have hlimits : (p.after calls).limits = limits := by rw [after_limits, hparts]
    have htable : (p.after calls).tables.newArrNum = tables.newArrNum := by
      have htable := table_after (.inl ⟨_, _, _, hp⟩) calls (t := .newArrNum) (by decide) (by decide)
      rw [hparts] at htable ⊢
      exact htable
    refine ⟨hvalid.checked_counts_drawn, ?_⟩
    rw [hvalid.newArrNum_drawn_iff, hlimits, htable]
  · exact ofParts_eq_outOfBounds eviction

/-- The counts of the default policy. -/
theorem counts_drawn_after_default : ∃ tables p, tables.WellFormed ∧
    ofParts .default tables .fifo = .ok p ∧
    ∀ calls, (p.after calls).CheckedCountsDrawn ∧ (p.after calls).NewArrNumDrawn := by
  obtain ⟨tables, p, hp, hcheck⟩ := exists_default
    (fun p => p.tables.WellFormed ∧ ∃ n ∈ p.tables.newArrNum.support,
      Limits.default.newArrNum.contains n = true) (by decide +kernel)
  obtain ⟨hwf, hin⟩ := of_decide_eq_true hcheck
  obtain ⟨-, -, hparts⟩ := ofParts_eq_ok_iff.mp hp
  rw [hparts] at hwf hin
  refine ⟨tables, p, hwf, hp, fun calls => ?_⟩
  obtain ⟨hchecked, hnew⟩ := (counts_drawn_after .fifo hwf).1 p hp calls
  exact ⟨hchecked, hnew.mpr hin⟩

/-- Tables that are accepted although they give nine new arrays where at most three are allowed. The
number of new arrays is then three, which the table never gives. -/
theorem newArrNum_made_up : ∃ tables p, tables.WellFormed ∧
    ofParts .default tables .fifo = .ok p ∧ p.tables.newArrNum = .single 9 ∧
    p.chooseNewArrNum.Always fun n => n = 3 ∧ n ∉ p.tables.newArrNum.support := by
  obtain ⟨defaults, standard, -, hcheck⟩ := exists_default
    (fun p => { p.tables with newArrNum := .single 9 }.WellFormed ∧
      (ofParts .default { p.tables with newArrNum := .single 9 } .fifo).isOk = true)
    (by decide +kernel)
  obtain ⟨hwf, hok⟩ := of_decide_eq_true hcheck
  cases hp : ofParts .default { standard.tables with newArrNum := .single 9 } .fifo with
  | error fault =>
      rw [hp] at hok
      cases hok
  | ok p =>
      obtain ⟨-, -, hparts⟩ := ofParts_eq_ok_iff.mp hp
      have htable : p.tables.newArrNum = .single 9 := by rw [hparts]
      have hlimits : p.limits = .default := by rw [hparts]
      have hsupport : p.tables.newArrNum.support = [9] := by
        rw [htable]
        decide +kernel
      -- Nine is out of range, so the draw gives nothing, whatever the source.
      have hfallback : p.chooseNewArrNum.Always (· = p.limits.newArrNum.max) := by
        refine Table.always_fallback fun n hn => ?_
        rw [hsupport, List.mem_singleton] at hn
        rw [hn, hlimits]
        rfl
      refine ⟨_, p, hwf, hp, htable, hfallback.mono ?_⟩
      rintro n rfl
      rw [hsupport, hlimits]
      decide

end FuzzPolicy.Policy
