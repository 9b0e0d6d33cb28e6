import FuzzPolicy.Proofs.Stencil.Run

/-!
# A history is the tail of the answers

A history takes a call in one of three ways, `StencilHistory.Takes`: nothing is answered and nothing
changes, or a plan is answered, the older one again or a new one, and that plan is pushed. So whatever is
mixed, the remembered plans are the last two that were answered, and a plan that is taken again is the one
that was answered two plans before.

If the probability of taking a plan again is one, every plan is the one two before it as long as the
remembered ones fit, and as long as the arrays keep their dimensions those go on to fit. All this is
`Policy.history_is_tail`.
-/

namespace FuzzPolicy

open Draw

variable {arrayDims : Nat}

/-! ### One call -/

namespace StencilHistory

variable {h after : StencilHistory} {answer : Option StencilPlan} {answered : List StencilPlan}

/-- What can be answered to a call, and the history after it. -/
inductive Takes (h : StencilHistory) (arrayDims : Nat) :
    Option StencilPlan → StencilHistory → Prop
  | nothing : Takes h arrayDims none h
  | again {older : StencilPlan} (fits : h.alternate arrayDims = some older) :
      Takes h arrayDims (some older) (h.push older)
  | fresh {plan : StencilPlan} {masks : List Mask} :
      Takes h arrayDims (some plan) ((h.storeMasks masks).push plan)

/-- One plan is left of the two that were remembered, and the new one comes behind it. -/
theorem plans_push (htail : h.plans = answered.rtake depth) (plan : StencilPlan) :
    (h.push plan).plans = (answered ++ [plan]).rtake depth := by
  have hlength : h.plans.length = answered.length - (answered.length - depth) := by
    rw [htail, List.rtake, List.length_drop]
  rw [depth, List.rtake_concat_succ, List.rtake]
  unfold depth at htail hlength
  unfold push
  split
  · rename_i hfull
    have hlast : answered.length - 2 + 1 = answered.length - 1 := by
      rw [depth] at hfull
      omega
    change h.plans.drop 1 ++ [plan] = _
    rw [htail, List.rtake, List.drop_drop, hlast]
  · rename_i hroom
    have hall : answered.length - 2 = answered.length - 1 := by
      rw [depth] at hroom
      omega
    change h.plans ++ [plan] = _
    rw [htail, List.rtake, hall]

/-- **The remembered plans stay the last that were answered**, whatever is answered. -/
theorem Takes.plans (htakes : h.Takes arrayDims answer after) (htail : h.plans = answered.rtake depth) :
    after.plans = (answered ++ answer.toList).rtake depth := by
  cases htakes with
  | nothing =>
      rw [Option.toList_none, List.append_nil]
      exact htail
  | again fits => exact plans_push htail _
  | @fresh plan masks =>
      have hstored : (h.storeMasks masks).plans = answered.rtake depth := htail
      exact plans_push hstored plan

theorem Takes.eq_of_none (htakes : h.Takes arrayDims none after) : after = h := by
  cases htakes
  rfl

/-- What is remembered was remembered before, or it is the answer. -/
theorem Takes.mem (htakes : h.Takes arrayDims answer after) {plan : StencilPlan}
    (hmem : plan ∈ after.plans) : plan ∈ h.plans ∨ answer = some plan := by
  cases htakes with
  | nothing => exact .inl hmem
  | again fits => exact (mem_of_mem_push hmem).imp_right (congrArg some ·.symm)
  | @fresh plan' masks =>
      have hstored : plan ∈ h.plans ∨ plan = plan' := mem_of_mem_push (h := h.storeMasks masks) hmem
      exact hstored.imp_right (congrArg some ·.symm)

/-- Two plans are remembered exactly if they are the last two that were answered. -/
theorem plans_eq_pair_iff (htail : h.plans = answered.rtake depth) {older newer : StencilPlan} :
    h.plans = [older, newer] ↔ ∃ before, answered = before ++ [older, newer] := by
  rw [htail, List.rtake]
  constructor
  · intro hpair
    refine ⟨answered.take (answered.length - depth), ?_⟩
    rw [← hpair, List.take_append_drop]
  · rintro ⟨before, rfl⟩
    rw [List.length_append]
    exact List.drop_left

/-- The older plan can be taken again exactly if there are two and both fit. -/
theorem alternate_eq_some_iff (hle : h.plans.length ≤ depth) {older : StencilPlan} :
    h.alternate arrayDims = some older ↔ ∃ newer, h.plans = [older, newer] ∧
      ∀ plan ∈ [older, newer], ∀ d ∈ plan.dims, d < arrayDims := by
  simp only [← StencilPlan.fits_iff_dims, ← List.all_eq_true]
  unfold alternate depth
  unfold depth at hle
  match h.plans, hle with
  | [], _ => simp
  | [_], _ => simp
  | [first, second], _ =>
      have hpair : (∃ newer, [first, second] = [older, newer] ∧
          ([older, newer].all fun plan => plan.fits arrayDims) = true) ↔
            first = older ∧ ([first, second].all fun plan => plan.fits arrayDims) = true := by
        constructor
        · rintro ⟨newer, heq, hfits⟩
          cases heq
          exact ⟨rfl, hfits⟩
        · rintro ⟨rfl, hfits⟩
          exact ⟨second, rfl, hfits⟩
      rw [hpair]
      cases [first, second].all fun plan => plan.fits arrayDims <;> simp

end StencilHistory

/-- A call is allowed a plan, and an earlier one is taken again. -/
structure StencilCall.Replays (c : StencilCall) (q : Policy) (h : StencilHistory)
    (plan : StencilPlan) : Prop where
  arrayDims_ne : c.arrayDims ≠ 0
  allowed : (q.tables.allowStencil.sample c.source).1 = true
  again : (q.replayed c.arrayDims h (q.tables.allowStencil.sample c.source).2).1 = some plan

namespace Policy

variable {p q : Policy} {h : StencilHistory}

theorem always_drawStencil_pushed (q : Policy) (arrayDims : Nat) (h : StencilHistory) :
    (q.drawStencil arrayDims h).Always fun r => ∃ masks, r.2 = (h.storeMasks masks).push r.1 := by
  unfold drawStencil
  refine always_bind_any fun span => always_bind_any fun count => always_bind_any fun sameDims => ?_
  refine always_bind_any fun shared => always_ite_bind fun common => always_bind_any fun drawn => ?_
  exact always_pure ⟨drawn.map Prod.fst, rfl⟩

/-- **A history takes a call in one of these ways.** -/
theorem always_planStencil_takes (q : Policy) (arrayDims : Nat) (h : StencilHistory) :
    (q.planStencil arrayDims h).Always fun r => h.Takes arrayDims r.1 r.2 := by
  refine always_planStencil_cases .nothing (fun plan halt => .again halt) fun _ => ?_
  refine (q.always_drawStencil_pushed arrayDims h).mono ?_
  rintro r ⟨masks, hr⟩
  rw [hr]
  exact .fresh

/-- A plan that is taken again is answered. -/
theorem planStencil_of_replays {c : StencilCall} {plan : StencilPlan} (hc : c.Replays q h plan) :
    (q.planStencil c.arrayDims h c.source).1 = (some plan, h.push plan) := by
  unfold planStencil
  rw [if_neg hc.arrayDims_ne, bind_apply, hc.allowed, if_pos rfl, bind_apply, hc.again]
  rfl

/-- If it is certain that the older plan is taken again, it is, if it can be and a plan is allowed. -/
theorem replays_of_certain (hcertain : (q.limits.alternation == 1.0) = true) {c : StencilCall}
    {older : StencilPlan} (halt : h.alternate c.arrayDims = some older)
    (hdims : c.arrayDims ≠ 0) (hallowed : (q.tables.allowStencil.sample c.source).1 = true) :
    c.Replays q h older := by
  refine ⟨hdims, hallowed, ?_⟩
  unfold replayed chance
  rw [halt, hcertain]
  rfl

/-! ### Calls in a row -/

/-- The policy that makes a call after some others. -/
def atCall (p : Policy) (calls : List StencilCall) (c : StencilCall) : Policy :=
  p.after (calls.flatMap StencilCall.modes ++ c.modes)

/-- The history after some calls. -/
def stencilHistory (p : Policy) (h : StencilHistory) : List StencilCall → StencilHistory
  | [] => h
  | c :: calls =>
    let q := p.after c.modes
    q.stencilHistory (q.planStencil c.arrayDims h c.source).1.2 calls

/-- The plans among the answers to some calls, the oldest first. -/
def stencilPlans (p : Policy) (h : StencilHistory) (calls : List StencilCall) : List StencilPlan :=
  (p.stencils h calls).reduceOption

/-- What is answered to a call after some others, and the history then. -/
def stencilNext (p : Policy) (h : StencilHistory) (calls : List StencilCall) (c : StencilCall) :
    Option StencilPlan × StencilHistory :=
  ((p.atCall calls c).planStencil c.arrayDims (p.stencilHistory h calls) c.source).1

theorem atCall_cons (p : Policy) (first : StencilCall) (calls : List StencilCall) (c : StencilCall) :
    p.atCall (first :: calls) c = (p.after first.modes).atCall calls c := by
  rw [atCall, atCall, List.flatMap_cons, List.append_assoc, after_append]

theorem stencils_concat (p : Policy) (h : StencilHistory) (calls : List StencilCall)
    (c : StencilCall) :
    p.stencils h (calls ++ [c]) = p.stencils h calls ++ [(p.stencilNext h calls c).1] := by
  induction calls generalizing p h with
  | nil => rfl
  | cons first calls ih =>
      rw [stencilNext, atCall_cons]
      exact congrArg (_ :: ·) (ih _ _)

theorem stencilHistory_concat (p : Policy) (h : StencilHistory) (calls : List StencilCall)
    (c : StencilCall) :
    p.stencilHistory h (calls ++ [c]) = (p.stencilNext h calls c).2 := by
  induction calls generalizing p h with
  | nil => rfl
  | cons first calls ih =>
      rw [stencilNext, atCall_cons]
      exact ih _ _

theorem stencilPlans_concat (p : Policy) (h : StencilHistory) (calls : List StencilCall)
    (c : StencilCall) :
    p.stencilPlans h (calls ++ [c]) =
      p.stencilPlans h calls ++ (p.stencilNext h calls c).1.toList := by
  rw [stencilPlans, stencils_concat, List.reduceOption_append, stencilPlans]
  cases (p.stencilNext h calls c).1 <;> rfl

theorem stencilNext_takes (p : Policy) (h : StencilHistory) (calls : List StencilCall)
    (c : StencilCall) :
    (p.stencilHistory h calls).Takes c.arrayDims (p.stencilNext h calls c).1
      (p.stencilNext h calls c).2 :=
  (p.atCall calls c).always_planStencil_takes c.arrayDims (p.stencilHistory h calls) c.source

/-- **The remembered plans are the last that were answered.** -/
theorem stencilHistory_plans (p : Policy) (calls : List StencilCall) :
    (p.stencilHistory .empty calls).plans = (p.stencilPlans .empty calls).rtake 2 := by
  induction calls using List.reverseRecOn with
  | nil => rfl
  | append_singleton calls c ih =>
      rw [stencilHistory_concat, stencilPlans_concat]
      exact (p.stencilNext_takes .empty calls c).plans ih

theorem stencilHistory_length_le (p : Policy) (calls : List StencilCall) :
    (p.stencilHistory .empty calls).plans.length ≤ StencilHistory.depth := by
  rw [stencilHistory_plans, List.rtake, List.length_drop, StencilHistory.depth]
  omega

/-- What is said of the run with one call more is said of that call. -/
theorem stencils_concat_eq_iff {calls : List StencilCall} {c : StencilCall}
    {answer : Option StencilPlan} :
    p.stencils h (calls ++ [c]) = p.stencils h calls ++ [answer] ↔
      (p.stencilNext h calls c).1 = answer := by
  rw [stencils_concat, List.append_cancel_left_eq, List.cons.injEq]
  exact and_iff_left rfl

/-- If it is certain that the older plan is taken again, it is the answer whenever both fit and there is
an answer. -/
theorem stencilNext_of_certain (hcertain : (p.limits.alternation == 1.0) = true)
    {calls : List StencilCall} {c : StencilCall} {before : List StencilPlan}
    {older newer : StencilPlan} (hplans : p.stencilPlans .empty calls = before ++ [older, newer])
    (hfits : ∀ plan ∈ (p.stencilHistory .empty calls).plans, ∀ d ∈ plan.dims, d < c.arrayDims)
    (hdims : c.arrayDims ≠ 0)
    (hallowed : ((p.atCall calls c).tables.allowStencil.sample c.source).1 = true) :
    (p.stencilNext .empty calls c).1 = some older := by
  have hpair : (p.stencilHistory .empty calls).plans = [older, newer] :=
    (StencilHistory.plans_eq_pair_iff (p.stencilHistory_plans calls)).mpr ⟨before, hplans⟩
  rw [hpair] at hfits
  have halt : (p.stencilHistory .empty calls).alternate c.arrayDims = some older :=
    (StencilHistory.alternate_eq_some_iff (p.stencilHistory_length_le calls)).mpr
      ⟨newer, hpair, hfits⟩
  have hlimits : (p.atCall calls c).limits = p.limits := p.after_limits _
  rw [← hlimits] at hcertain
  exact congrArg Prod.fst
    (planStencil_of_replays (replays_of_certain hcertain halt hdims hallowed))

/-- If it is certain that the older plan is taken again and both fit, then what is answered was answered
two plans before. -/
theorem stencilPlans_two_before (hcertain : (p.limits.alternation == 1.0) = true)
    {calls : List StencilCall} {c : StencilCall}
    (hfits : ∀ plan ∈ (p.stencilHistory .empty calls).plans, ∀ d ∈ plan.dims, d < c.arrayDims)
    {plan : StencilPlan} (hanswer : (p.stencilNext .empty calls c).1 = some plan) {i : Nat}
    (hlength : (p.stencilPlans .empty calls).length = i + 2) :
    (p.stencilPlans .empty calls)[i]? = some plan := by
  obtain ⟨hdims, hallowed⟩ := ((p.atCall calls c).isSome_planStencil_iff c.arrayDims _ c.source).mp
    (congrArg Option.isSome hanswer)
  have hlast : ((p.stencilPlans .empty calls).drop i).length = 2 := by
    rw [List.length_drop, hlength]
    omega
  obtain ⟨older, newer, hpair⟩ := List.length_eq_two.mp hlast
  have hsplit : p.stencilPlans .empty calls =
      (p.stencilPlans .empty calls).take i ++ [older, newer] := by
    rw [← hpair, List.take_append_drop]
  rw [← hanswer, stencilNext_of_certain hcertain hsplit hfits hdims hallowed, ← List.head?_drop, hpair]
  rfl

/-! ### Calls on a policy with valid limits -/

section

variable (hl : p.limits.validate = .ok ())

include hl

theorem stencilNext_suits {calls : List StencilCall}
    (hh : (p.stencilHistory h calls).Sound p.limits) (c : StencilCall) :
    (∀ plan, (p.stencilNext h calls c).1 = some plan → plan.Suits p.limits c.arrayDims) ∧
      (p.stencilNext h calls c).2.Sound p.limits := by
  have hlimits : (p.atCall calls c).limits = p.limits := p.after_limits _
  rw [← hlimits] at hl hh
  obtain ⟨hspan, harrays⟩ := Limits.stencil_pos hl
  have hsuits := always_planStencil_suits hspan harrays c.arrayDims hh c.source
  rw [hlimits] at hsuits
  exact hsuits

theorem stencilHistory_sound (calls : List StencilCall) :
    (p.stencilHistory .empty calls).Sound p.limits := by
  induction calls using List.reverseRecOn with
  | nil => exact StencilHistory.sound_empty p.limits
  | append_singleton calls c ih =>
      rw [stencilHistory_concat]
      exact (stencilNext_suits hl ih c).2

/-- As long as the arrays keep their dimensions, what is remembered goes on to fit. -/
theorem stencilHistory_fits {calls : List StencilCall}
    (hfits : ∀ plan ∈ (p.stencilHistory .empty calls).plans, ∀ d ∈ plan.dims, d < arrayDims)
    (more : List StencilCall) (hmore : ∀ c ∈ more, c.arrayDims = arrayDims) :
    ∀ plan ∈ (p.stencilHistory .empty (calls ++ more)).plans, ∀ d ∈ plan.dims, d < arrayDims := by
  induction more using List.reverseRecOn with
  | nil =>
      rw [List.append_nil]
      exact hfits
  | append_singleton more c ih =>
      obtain ⟨hbefore, hc⟩ := List.forall_mem_append.mp hmore
      have hsound := stencilHistory_sound hl (calls ++ more)
      intro plan hmem
      rw [← List.append_assoc, stencilHistory_concat] at hmem
      rcases (p.stencilNext_takes .empty (calls ++ more) c).mem hmem with hold | hnew
      · exact ih hbefore plan hold
      · rw [← hc c (List.mem_singleton_self c)]
        exact ((stencilNext_suits hl hsound c).1 plan hnew).dims_lt

/-- **Two plans alternate for ever** if it is certain that the older one is taken again, from when the
remembered plans fit and the arrays keep their dimensions. Calls without a plan do not count. -/
theorem stencilPlans_alternate (hcertain : (p.limits.alternation == 1.0) = true)
    {calls : List StencilCall}
    (hfits : ∀ plan ∈ (p.stencilHistory .empty calls).plans, ∀ d ∈ plan.dims, d < arrayDims)
    (more : List StencilCall) (hmore : ∀ c ∈ more, c.arrayDims = arrayDims) (i : Nat)
    (hstart : (p.stencilPlans .empty calls).length ≤ i + 2)
    (hend : i + 2 < (p.stencilPlans .empty (calls ++ more)).length) :
    (p.stencilPlans .empty (calls ++ more))[i + 2]? =
      (p.stencilPlans .empty (calls ++ more))[i]? := by
  induction more using List.reverseRecOn with
  | nil =>
      rw [List.append_nil] at hend
      exact absurd hend (Nat.not_lt.mpr hstart)
  | append_singleton more c ih =>
      obtain ⟨hbefore, hc⟩ := List.forall_mem_append.mp hmore
      have hstay := stencilHistory_fits hl hfits more hbefore
      rw [← hc c (List.mem_singleton_self c)] at hstay
      rw [← List.append_assoc, stencilPlans_concat] at hend ⊢
      cases hanswer : (p.stencilNext .empty (calls ++ more) c).1 with
      | none =>
          rw [hanswer, Option.toList_none, List.append_nil] at hend
          rw [Option.toList_none, List.append_nil]
          exact ih hbefore hend
      | some plan =>
          rw [hanswer, Option.toList_some, List.length_append, List.length_singleton] at hend
          rw [Option.toList_some]
          rcases Nat.lt_or_ge (i + 2) (p.stencilPlans .empty (calls ++ more)).length with hlt | hge
          · rw [List.getElem?_append_left hlt, List.getElem?_append_left (by omega)]
            exact ih hbefore hlt
          · have hlength : (p.stencilPlans .empty (calls ++ more)).length = i + 2 := by omega
            rw [List.getElem?_append_right hge, List.getElem?_append_left (by omega),
              stencilPlans_two_before hcertain hstay hanswer hlength, hlength, Nat.sub_self]
            rfl

end

/-! ### All calls on an accepted policy -/

/-- What is promised of a run from an empty history, and of any call after it. -/
structure RemembersTail (p : Policy) (calls : List StencilCall) : Prop where
  plans : (p.stencilHistory .empty calls).plans = (p.stencilPlans .empty calls).rtake 2
  /-- Neither the plans nor the masks change without an answer. -/
  unanswered : ∀ c, p.stencils .empty (calls ++ [c]) = p.stencils .empty calls ++ [none] →
    p.stencilHistory .empty (calls ++ [c]) = p.stencilHistory .empty calls
  /-- A plan is taken again only if both that are remembered fit. It was answered two plans before. -/
  replays : ∀ c plan, c.Replays (p.atCall calls c) (p.stencilHistory .empty calls) plan →
    p.stencils .empty (calls ++ [c]) = p.stencils .empty calls ++ [some plan] ∧
    ∃ before newer, p.stencilPlans .empty calls = before ++ [plan, newer] ∧
      ∀ remembered ∈ [plan, newer], ∀ d ∈ remembered.dims, d < c.arrayDims
  /-- If it is certain to be taken again, the older plan is answered whenever both fit and a plan is
  allowed. -/
  certain : (p.limits.alternation == 1.0) = true → ∀ c before older newer,
    p.stencilPlans .empty calls = before ++ [older, newer] →
    (∀ plan ∈ [older, newer], ∀ d ∈ plan.dims, d < c.arrayDims) →
    ((p.atCall calls c).tables.allowStencil.sample c.source).1 = true →
    p.stencils .empty (calls ++ [c]) = p.stencils .empty calls ++ [some older]
  /-- The plans that come later repeat those two before them. -/
  alternates : (p.limits.alternation == 1.0) = true → ∀ arrayDims,
    (∀ plan ∈ (p.stencilHistory .empty calls).plans, ∀ d ∈ plan.dims, d < arrayDims) →
    ∀ more, (∀ c ∈ more, c.arrayDims = arrayDims) →
    ∀ i, (p.stencilPlans .empty calls).length ≤ i + 2 →
      i + 2 < (p.stencilPlans .empty (calls ++ more)).length →
      (p.stencilPlans .empty (calls ++ more))[i + 2]? = (p.stencilPlans .empty (calls ++ more))[i]?

theorem stencilHistory_of_unanswered {calls : List StencilCall} {c : StencilCall}
    (hnone : (p.stencilNext .empty calls c).1 = none) :
    p.stencilHistory .empty (calls ++ [c]) = p.stencilHistory .empty calls := by
  have htakes := p.stencilNext_takes .empty calls c
  rw [hnone] at htakes
  rw [stencilHistory_concat]
  exact htakes.eq_of_none

/-- Wherever a plan is taken again, two were answered before, the last ones, and both fit. -/
theorem plans_of_replays {calls : List StencilCall} {c : StencilCall} {plan : StencilPlan}
    (hc : c.Replays (p.atCall calls c) (p.stencilHistory .empty calls) plan) :
    ∃ before newer, p.stencilPlans .empty calls = before ++ [plan, newer] ∧
      ∀ remembered ∈ [plan, newer], ∀ d ∈ remembered.dims, d < c.arrayDims := by
  have halt : (p.stencilHistory .empty calls).alternate c.arrayDims = some plan :=
    always_replayed c.arrayDims _ _ plan hc.again
  obtain ⟨newer, hpair, hfits⟩ :=
    (StencilHistory.alternate_eq_some_iff (p.stencilHistory_length_le calls)).mp halt
  obtain ⟨before, hplans⟩ :=
    (StencilHistory.plans_eq_pair_iff (p.stencilHistory_plans calls)).mp hpair
  exact ⟨before, newer, hplans, hfits⟩

/-- **What a history remembers is the tail of the answers.** After any calls on an accepted policy that
begin with an empty history, for arrays of any dimensions, with any sources and with any modes chosen in
between: the remembered plans are
the last two that were answered, a call without a plan changes nothing, and a plan that is taken again is
the one that was answered two plans before. If that is certain to happen whenever it can, two plans
alternate for ever once they fit and the arrays keep their dimensions. -/
theorem history_is_tail (hp : p.Accepted) (calls : List StencilCall) : p.RemembersTail calls := by
  obtain ⟨limits, tables, eviction, hparts⟩ := hp.parts
  obtain ⟨hlimits, -, rfl⟩ := ofParts_eq_ok_iff.mp hparts
  refine ⟨stencilHistory_plans _ calls, fun c hnone => ?_, fun c plan hreplays => ?_, ?_,
    fun hcertain arrayDims hfits => stencilPlans_alternate hlimits hcertain hfits⟩
  · exact stencilHistory_of_unanswered (stencils_concat_eq_iff.mp hnone)
  · have hanswer := planStencil_of_replays hreplays
    exact ⟨stencils_concat_eq_iff.mpr (congrArg Prod.fst hanswer), plans_of_replays hreplays⟩
  · intro hcertain c before older newer hplans hfits hallowed
    have hpair := (StencilHistory.plans_eq_pair_iff (stencilHistory_plans _ calls)).mpr
      ⟨before, hplans⟩
    rw [← hpair] at hfits
    have holder := List.mem_cons_self (a := older) (l := [newer])
    rw [← hpair] at holder
    -- A plan that fits uses a dimension, so the arrays have one.
    obtain ⟨d, hd⟩ := ((stencilHistory_sound hlimits calls).plans older holder).exists_mem_dims
    have hdims : c.arrayDims ≠ 0 := Nat.ne_of_gt (Nat.zero_lt_of_lt (hfits older holder d hd))
    exact stencils_concat_eq_iff.mpr (stencilNext_of_certain hcertain hplans hfits hdims hallowed)

/-- A policy that is certain to take the older plan again. Two plans are answered in three calls, and from
then on they alternate for arrays of three dimensions. -/
theorem history_is_tail_certain : ∃ p : Policy, p.Accepted ∧ ∃ calls older newer, older ≠ newer ∧
    p.stencils .empty calls = [some older, some newer, none] ∧
    (p.stencilHistory .empty calls).plans = [older, newer] ∧
    (∃ c, p.stencils .empty (calls ++ [c]) = [some older, some newer, none, some older]) ∧
    ∀ more, (∀ c ∈ more, c.arrayDims = 3) → ∀ i,
      i + 2 < (p.stencilPlans .empty (calls ++ more)).length →
      (p.stencilPlans .empty (calls ++ more))[i + 2]? =
        (p.stencilPlans .empty (calls ++ more))[i]? := by
  let zeros : Source := ⟨fun _ => 0, 0⟩
  let middle : Source := ⟨fun i => if i = 0 then 0 else 0x8000000000000000, 0⟩
  let calls : List StencilCall := [⟨[], 2, zeros⟩, ⟨[], 2, middle⟩, ⟨[], 0, zeros⟩]
  let c : StencilCall := ⟨[(.select .operators, zeros)], 3, zeros⟩
  let older : StencilPlan := ⟨1, [⟨[⟨0, -1⟩, ⟨1, -1⟩]⟩]⟩
  let newer : StencilPlan := ⟨3, [⟨[⟨1, 0⟩]⟩, ⟨[⟨1, 0⟩]⟩, ⟨[⟨1, 0⟩]⟩]⟩
  obtain ⟨tables, p, hp, hrun⟩ := exists_ofDefaults { Limits.default with alternation := 1.0 }
    (fun p => p.stencils .empty calls = [some older, some newer, none] ∧
      (p.limits.alternation == 1.0) = true ∧
      ((p.atCall calls c).tables.allowStencil.sample c.source).1 = true) (by decide +kernel)
  obtain ⟨hanswers, hcertain, hallowed⟩ := of_decide_eq_true hrun
  have haccepted : p.Accepted := .inl ⟨_, _, _, hp⟩
  have hkept : p.RemembersTail calls := history_is_tail haccepted calls
  have hplans : p.stencilPlans .empty calls = [older, newer] := by
    rw [stencilPlans, hanswers]
    rfl
  have hlast : (p.stencilHistory .empty calls).plans = [older, newer] := by
    rw [hkept.plans, hplans]
    rfl
  have hfits : ∀ plan ∈ [older, newer], ∀ d ∈ plan.dims, d < 3 := by decide
  refine ⟨p, haccepted, calls, older, newer, by decide, hanswers, hlast, ⟨c, ?_⟩, ?_⟩
  · rw [hkept.certain hcertain c [] older newer hplans hfits hallowed, hanswers]
    rfl
  · intro more hmore i hend
    rw [← hlast] at hfits
    refine hkept.alternates hcertain 3 hfits more hmore i ?_ hend
    rw [hplans]
    exact Nat.le_add_left 2 i

end Policy

end FuzzPolicy
