import FuzzPolicy.Proofs.Policy.DrawnCounts

/-!
# Plans for constants can be carried out

A plan names a remembered constant only if there is one in the place that it names, and everything else
that it names can be drawn from its table. If a remembered constant was wanted and there is none, the plan
says so and names another source: `Policy.Valid.planConst_sound`.
-/

namespace FuzzPolicy

open Draw

/-- A source of constants when so many are remembered: a remembered one is there, and an operator or a
special constant is one that its table gives. -/
inductive ConstSource.Sound (tables : Catalog) (buffered : Nat) : ConstSource → Prop
  | reuse {index : Nat} {transform : Option UnaryOp} (there : index < buffered)
      (given : ∀ op, transform = some op → op ∈ tables.constTransform.support) :
      Sound tables buffered (.reuse index transform)
  | special {kind : SpecialConst} (given : kind ∈ tables.specialConst.support) :
      Sound tables buffered (.special kind)
  | fresh : Sound tables buffered .fresh

/-- If nothing is remembered, a constant comes from elsewhere. -/
theorem ConstSource.Sound.not_reuse {tables : Catalog} {source : ConstSource}
    (h : source.Sound tables 0) : (∃ kind, source = .special kind) ∨ source = .fresh := by
  cases h with
  | reuse there given => cases there
  | special given => exact .inl ⟨_, rfl⟩
  | fresh => exact .inr rfl

/-- A plan that can be carried out when so many constants are remembered. -/
structure ConstPlan.Sound (plan : ConstPlan) (l : Limits) (tables : Catalog) (buffered : Nat) :
    Prop where
  source : plan.source.Sound tables buffered
  exhausted : plan.exhausted = true →
    buffered = 0 ∧ ((∃ kind, plan.source = .special kind) ∨ plan.source = .fresh)
  offset : ∀ o, plan.offset = some o →
    l.constOffset.min ≤ o.magnitude ∧ o.magnitude ≤ l.constOffset.max

namespace Policy

variable {p : Policy} {buffered : Nat}

/-- A plan to use a remembered constant names a place below their number. -/
theorem always_planReuse (hop : p.tables.constTransform.WellFormed) (h : 0 < buffered) :
    (p.planReuse buffered).Always (·.Sound p.tables buffered) := by
  unfold planReuse
  refine always_bind (always_below_lt h) ?_
  intro index hindex
  refine always_bind_any fun transforms => always_ite (fun _ => ?_) fun _ => ?_
  · refine always_bind (Table.always_sample hop) ?_
    intro op hmem
    refine always_pure (.reuse hindex fun op' heq => ?_)
    cases heq
    exact hmem
  · exact always_pure (.reuse hindex nofun)

theorem always_planNew (hspecial : p.tables.specialConst.WellFormed) :
    p.planNew.Always (·.Sound p.tables buffered) := by
  unfold planNew
  refine always_bind_any fun special => always_ite (fun _ => ?_) fun _ => always_pure .fresh
  exact always_bind (Table.always_sample hspecial) fun kind hmem => always_pure (.special hmem)

/-- **How a plan comes about.** A remembered constant may be wanted; it is planned for if there is one, and
if there is none the plan says so. -/
theorem always_planConst_of (buffered : Nat) {W : Bool → Prop} {P : ConstSource → Prop}
    (hwish : p.tables.reuseConst.sample.Always W)
    (hreuse : W true → 0 < buffered → (p.planReuse buffered).Always P)
    (hnew : ∀ wish, W wish → (wish = true → buffered = 0) → p.planNew.Always P) :
    (p.planConst buffered).Always fun plan =>
      P plan.source ∧ ∃ wish, W wish ∧ (plan.exhausted = true ↔ wish = true ∧ buffered = 0) := by
  unfold planConst
  refine always_bind hwish fun wish hw => ?_
  have hrest : ∀ source : ConstSource, P source → Draw.Always (do
      let offset ← p.planOffset
      let lsbEnd ← p.tables.useLsbBitEnd.sample
      return { source, offset, lsbEnd, exhausted := wish && buffered == 0 : ConstPlan })
      fun plan => P plan.source ∧
        ∃ wish, W wish ∧ (plan.exhausted = true ↔ wish = true ∧ buffered = 0) := by
    intro source hsource
    refine always_bind_any fun offset => always_bind_any fun lsbEnd =>
      always_pure ⟨hsource, wish, hw, ?_⟩
    rw [Bool.and_eq_true_iff, beq_iff_eq]
  refine always_ite (fun hthere => ?_) fun hnone => ?_
  · obtain ⟨rfl, hpos⟩ := Bool.and_eq_true_iff.mp hthere
    exact always_bind (hreuse hw (of_decide_eq_true hpos)) hrest
  · refine always_bind (hnew wish hw fun htrue => ?_) hrest
    by_contra hne
    exact hnone (Bool.and_eq_true_iff.mpr ⟨htrue, decide_eq_true (Nat.pos_of_ne_zero hne)⟩)

theorem always_planConst_source (hop : p.tables.constTransform.WellFormed)
    (hspecial : p.tables.specialConst.WellFormed) (buffered : Nat) :
    (p.planConst buffered).Always fun plan =>
      plan.source.Sound p.tables buffered ∧ (plan.exhausted = true → buffered = 0) := by
  have hplan := always_planConst_of buffered (always_true p.tables.reuseConst.sample)
    (fun _ hpos => always_planReuse hop hpos) fun _ _ _ => always_planNew hspecial
  refine hplan.mono ?_
  intro plan h
  obtain ⟨hsource, wish, -, hexhausted⟩ := h
  exact ⟨hsource, fun h => (hexhausted.mp h).2⟩

/-- **Every plan of a valid policy can be carried out.** -/
theorem Valid.planConst_sound (hp : p.Valid) (buffered : Nat) :
    (p.planConst buffered).Always (·.Sound p.limits p.tables buffered) := by
  have hop : p.tables.constTransform.WellFormed :=
    hp.wellFormed .constTransform (by decide) (by decide)
  have hspecial : p.tables.specialConst.WellFormed :=
    hp.wellFormed .specialConst (by decide) (by decide)
  refine ((always_planConst_source hop hspecial buffered).and
    (hp.checked_counts_drawn.planConst buffered)).mono ?_
  rintro plan ⟨⟨hsource, hexhausted⟩, hoffset⟩
  refine ⟨hsource, fun h => ?_, fun o ho => CountRange.contains_iff.mp (hoffset o ho).2⟩
  have hempty : buffered = 0 := hexhausted h
  rw [hempty] at hsource
  exact ⟨hempty, hsource.not_reuse⟩

end Policy

end FuzzPolicy
