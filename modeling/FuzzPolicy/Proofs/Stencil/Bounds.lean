import FuzzPolicy.Proofs.Stencil.History
import FuzzPolicy.Proofs.Table.Sample
import FuzzPolicy.Stencil.Plan

/-!
# Stencils keep to their bounds

A new plan is put together from masks and distances some of which come from elsewhere: a mask may be
shared by all arrays or remembered for a place, a distance may be shared by all arrays. Wherever a mask
comes from, it has the length that is asked for and uses a dimension, and no distance is beyond the span.
So new plans suit their arrays, and what is remembered of them is sound; a plan that is taken again
suits the arrays because it was seen to fit them: `always_planStencil_suits`.
-/

namespace FuzzPolicy.Policy

open Draw

variable {p : Policy} {arrayDims : Nat}

/-! ### Masks -/

theorem always_drawMask (hdims : arrayDims ≠ 0) :
    (p.drawMask arrayDims).Always (·.Usable arrayDims) := by
  unfold drawMask
  refine always_bind (always_replicate (always_true _) arrayDims) ?_
  intro mask hmask
  obtain ⟨hlen, -⟩ := hmask
  refine always_ite (fun hany => ?_) fun _ => ?_
  · obtain ⟨used, hmem, hused⟩ := List.any_eq_true.mp hany
    obtain rfl : used = true := hused
    exact always_pure ⟨hlen, hmem⟩
  · refine always_bind (always_below_lt (Nat.pos_of_ne_zero hdims)) ?_
    intro d hd
    rw [← hlen] at hd
    refine always_pure ⟨by rw [List.length_set, hlen], ?_⟩
    exact List.mem_iff_getElem.mpr ⟨d, by rwa [List.length_set], List.getElem_set_self _⟩

/-- The mask that all arrays share is a new one. -/
theorem always_sharedMask (hdims : arrayDims ≠ 0) :
    (some <$> p.drawMask arrayDims).Always fun common =>
      ∀ mask, common = some mask → mask.Usable arrayDims := by
  intro s mask hmask
  obtain rfl := Option.some.inj hmask
  exact always_drawMask hdims s

/-- A mask is the shared one, a remembered one of the right length, or a new one. -/
theorem always_chooseMask_of {P : Mask → Prop} (hnew : (p.drawMask arrayDims).Always P)
    {common last : Option Mask} (hcommon : ∀ mask, common = some mask → P mask)
    (hlast : ∀ mask, last = some mask → mask.length = arrayDims → P mask) :
    (p.chooseMask arrayDims common last).Always P := by
  unfold chooseMask
  cases common with
  | some mask => exact always_pure (hcommon mask rfl)
  | none =>
      dsimp only
      cases hfilter : last.filter fun mask => mask.length = arrayDims with
      | none => exact hnew
      | some mask =>
          obtain ⟨hmask, hlen⟩ := Option.filter_eq_some_iff.mp hfilter
          refine always_bind_any fun keep => always_ite (fun _ => ?_) fun _ => hnew
          exact always_pure (hlast mask hmask (of_decide_eq_true hlen))

/-- A remembered mask that is taken is as good as a new one. -/
theorem always_chooseMask (hdims : arrayDims ≠ 0) {common last : Option Mask}
    (hcommon : ∀ mask, common = some mask → mask.Usable arrayDims)
    (hlast : ∀ mask, last = some mask → true ∈ mask) :
    (p.chooseMask arrayDims common last).Always (·.Usable arrayDims) :=
  always_chooseMask_of (always_drawMask hdims) hcommon fun mask hmask hlen =>
    ⟨hlen, hlast mask hmask⟩

/-! ### Distances -/

variable {reach span : Nat} {shared : Bool} {known : SharedOffsets}

/-- The distances that have been drawn are within reach. -/
def Near (reach : Nat) (known : SharedOffsets) : Prop :=
  ∀ e ∈ known, e.2.natAbs ≤ reach

theorem near_nil : Near reach [] := by
  simp [Near]

theorem always_drawOffset (hreach : reach < 2 ^ 63) (hknown : Near reach known) (dim : Nat) :
    (drawOffset reach shared known dim).Always fun r => r.1.natAbs ≤ reach ∧ Near reach r.2 := by
  have hdraw : (intBetween (-reach) reach).Always (·.natAbs ≤ reach) :=
    (always_intBetween (by omega) (by omega) (by omega)).mono fun n hn => by omega
  unfold drawOffset
  refine always_ite (fun _ => ?_) fun _ => ?_
  · cases hlook : known.lookup dim with
    | some offset =>
        obtain ⟨before, after, rfl, -⟩ := List.lookup_eq_some_iff.mp hlook
        exact always_pure ⟨hknown (dim, offset) (by simp), hknown⟩
    | none =>
        refine always_bind hdraw ?_
        intro offset hoffset
        exact always_pure ⟨hoffset, List.forall_mem_cons.mpr ⟨hoffset, hknown⟩⟩
  · refine always_bind hdraw ?_
    intro offset hoffset
    exact always_pure ⟨hoffset, hknown⟩

/-- The dimensions of an array are those of its mask, whatever the distances. -/
theorem always_drawDims (hreach : reach < 2 ^ 63) (dims : List Nat) (hknown : Near reach known) :
    (drawDims reach shared dims known).Always fun r =>
      r.1.map StencilDim.dim = dims ∧ (∀ d ∈ r.1, d.offset.natAbs ≤ reach) ∧ Near reach r.2 := by
  induction dims generalizing known with
  | nil => exact always_pure ⟨rfl, by simp, hknown⟩
  | cons dim dims ih =>
      unfold drawDims
      refine always_bind (always_drawOffset hreach hknown dim) ?_
      intro r hr
      obtain ⟨offset, known'⟩ := r
      obtain ⟨hoffset, hknown'⟩ := hr
      refine always_bind (ih hknown') ?_
      intro r hr
      obtain ⟨others, known''⟩ := r
      obtain ⟨hothers, hnear, hknown''⟩ := hr
      refine always_pure ⟨?_, List.forall_mem_cons.mpr ⟨hoffset, hnear⟩, hknown''⟩
      rw [List.map_cons, hothers]

/-! ### Arrays -/

/-- An array with the dimensions of a usable mask suits the arrays that the mask is for. -/
theorem sound_of_usable {mask : Mask} (hmask : mask.Usable arrayDims) {dims : List StencilDim}
    (hdims : dims.map StencilDim.dim = mask.dims) (hnear : ∀ d ∈ dims, d.offset.natAbs ≤ span) :
    (StencilArray.mk dims).Sound span ∧ ∀ d ∈ dims, d.dim < arrayDims := by
  refine ⟨⟨?_, ?_, hnear⟩, ?_⟩
  · rintro rfl
    exact Mask.dims_ne_nil hmask.used hdims.symm
  · have hincreasing := mask.pairwise_dims
    rwa [← hdims, List.pairwise_map] at hincreasing
  · intro d hd
    have hmem : d.dim ∈ mask.dims := by
      rw [← hdims]
      exact List.mem_map_of_mem hd
    rw [← hmask.length_eq]
    exact Mask.lt_length_of_mem_dims hmem

/-- A plan has as many arrays as were asked for. -/
theorem always_length_drawArrays (arrayDims reach : Nat) (shared : Bool) (common : Option Mask)
    (n : Nat) (masks : List Mask) (known : SharedOffsets) :
    (p.drawArrays arrayDims reach shared common n masks known).Always
      fun drawn => drawn.length = n := by
  induction n generalizing masks known with
  | zero => exact always_pure rfl
  | succ n ih =>
      unfold drawArrays
      refine always_bind_any fun mask => always_bind_any fun dims => ?_
      refine always_bind (ih _ _) fun others hothers => always_pure ?_
      rw [List.length_cons, hothers]

theorem always_drawArrays (hdims : arrayDims ≠ 0) (hreach : reach < 2 ^ 63) (hspan : reach ≤ span)
    {common : Option Mask} (hcommon : ∀ mask, common = some mask → mask.Usable arrayDims) (n : Nat)
    {masks : List Mask} (hmasks : ∀ mask ∈ masks, true ∈ mask) (hknown : Near reach known) :
    (p.drawArrays arrayDims reach shared common n masks known).Always fun drawn =>
      ∀ r ∈ drawn, r.1.Usable arrayDims ∧ r.2.Sound span ∧ ∀ d ∈ r.2.dims, d.dim < arrayDims := by
  induction n generalizing masks known with
  | zero => exact always_pure (by simp)
  | succ n ih =>
      have hhead : ∀ mask, masks.head? = some mask → true ∈ mask :=
        fun mask hmask => hmasks mask (List.mem_of_mem_head? hmask)
      have htail : ∀ mask ∈ masks.tail, true ∈ mask :=
        fun mask hmask => hmasks mask (List.mem_of_mem_tail hmask)
      unfold drawArrays
      refine always_bind (always_chooseMask hdims hcommon hhead) ?_
      intro mask hmask
      refine always_bind (always_drawDims hreach mask.dims hknown) ?_
      intro r hr
      obtain ⟨dims, known'⟩ := r
      obtain ⟨hmap, hnear, hknown'⟩ := hr
      refine always_bind (ih htail hknown') ?_
      intro others hothers
      refine always_pure (List.forall_mem_cons.mpr ⟨⟨hmask, ?_⟩, hothers⟩)
      exact sound_of_usable hmask hmap fun d hd => Nat.le_trans (hnear d hd) hspan

/-! ### New plans -/

/-- A count from one to a limit, drawn or else made up. -/
theorem always_count (t : Table Nat) {max fallback : Nat} (h : 1 ≤ fallback ∧ fallback ≤ max) :
    (t.sampleWhere fun n => 1 ≤ n && n ≤ max).Always fun drawn =>
      1 ≤ drawn.getD fallback ∧ drawn.getD fallback ≤ max := by
  have hdrawn : ∀ n ∈ t.support, (1 ≤ n && n ≤ max) = true → 1 ≤ n ∧ n ≤ max := by
    intro n _ hkeep
    simpa using hkeep
  exact Table.always_drawn_or (P := fun n => 1 ≤ n ∧ n ≤ max) t hdrawn h

/-- A new plan suits the arrays it is drawn for, and is remembered with masks that are not empty. -/
theorem always_drawStencil_suits (hdims : arrayDims ≠ 0) (hspan : 1 ≤ p.limits.maxStencilSpan)
    (harrays : 1 ≤ p.limits.maxArrsInStencil) {h : StencilHistory} (hh : h.Sound p.limits) :
    (p.drawStencil arrayDims h).Always fun r =>
      r.1.Suits p.limits arrayDims ∧ r.2.Sound p.limits := by
  unfold drawStencil
  refine always_bind (always_count _ ⟨hspan, Nat.le_refl _⟩) ?_
  intro drawnSpan hdrawnSpan
  refine always_bind (always_count _ ⟨Nat.le_refl _, harrays⟩) ?_
  intro drawnCount hdrawnCount
  refine always_bind_any fun sameDims => always_bind_any fun shared => ?_
  generalize drawnSpan.getD p.limits.maxStencilSpan = span at hdrawnSpan
  generalize drawnCount.getD 1 = count at hdrawnCount
  have hreach : min span (Nat.pow 2 63 - 1) < 2 ^ 63 :=
    Nat.lt_of_le_of_lt (Nat.min_le_right _ _) (by decide)
  refine always_ite_bind_of (always_sharedMask hdims) (always_pure nofun) ?_
  intro common hcommon
  refine always_bind ((always_length_drawArrays _ _ _ _ _ _ _).and
    (always_drawArrays hdims hreach (Nat.min_le_left _ _) hcommon count hh.masks near_nil)) ?_
  intro drawn harrs
  obtain ⟨hlen, hdrawn⟩ := harrs
  have hplan : (StencilPlan.mk span (drawn.map Prod.snd)).Suits p.limits arrayDims := by
    refine ⟨⟨hdrawnSpan.1, hdrawnSpan.2, ?_, ?_, ?_⟩, ?_⟩
    · rw [List.length_map, hlen]
      exact hdrawnCount.1
    · rw [List.length_map, hlen]
      exact hdrawnCount.2
    · exact List.forall_mem_map.mpr fun r hr => (hdrawn r hr).2.1
    · exact List.forall_mem_map.mpr fun r hr => (hdrawn r hr).2.2
  have hmasks : ∀ mask ∈ drawn.map Prod.fst, true ∈ mask :=
    List.forall_mem_map.mpr fun r hr => (hdrawn r hr).1.used
  exact always_pure ⟨hplan, (hh.storeMasks hmasks).push hplan.toSound⟩

/-! ### Plans -/

theorem always_replayed (arrayDims : Nat) (h : StencilHistory) :
    (p.replayed arrayDims h).Always fun older =>
      ∀ plan, older = some plan → h.alternate arrayDims = some plan := by
  unfold replayed
  cases halt : h.alternate arrayDims with
  | none => exact always_pure nofun
  | some older =>
      refine always_bind_any fun again => always_ite (fun _ => always_pure ?_) fun _ => always_pure nofun
      intro plan hplan
      exact hplan

/-- There is no plan, or the older of two is taken again and remembered once more, or there is a new
one. -/
theorem always_planStencil_cases {P : Option StencilPlan × StencilHistory → Prop} {h : StencilHistory}
    (hnone : P (none, h))
    (hold : ∀ plan, h.alternate arrayDims = some plan → P (some plan, h.push plan))
    (hnew : arrayDims ≠ 0 → (p.drawStencil arrayDims h).Always fun r => P (some r.1, r.2)) :
    (p.planStencil arrayDims h).Always P := by
  unfold planStencil
  refine always_ite (fun _ => always_pure hnone) fun hdims => always_bind_any fun allowed => ?_
  refine always_ite (fun _ => ?_) fun _ => always_pure hnone
  refine always_bind (always_replayed arrayDims h) ?_
  intro older holder
  cases older with
  | some plan => exact always_pure (hold plan (holder plan rfl))
  | none => exact always_bind (hnew hdims) fun r hr => always_pure hr

/-- Whether there is a plan is known from the first draw: what comes after it only decides which. -/
theorem isSome_planStencil_iff (p : Policy) (arrayDims : Nat) (h : StencilHistory) (s : Source) :
    (p.planStencil arrayDims h s).1.1.isSome = true ↔
      arrayDims ≠ 0 ∧ (p.tables.allowStencil.sample s).1 = true := by
  unfold planStencil
  by_cases hdims : arrayDims = 0
  · rw [if_pos hdims]
    exact ⟨nofun, fun hallowed => absurd hdims hallowed.1⟩
  · rw [if_neg hdims, bind_apply]
    cases hallowed : (p.tables.allowStencil.sample s).1 with
    | false => exact ⟨nofun, nofun⟩
    | true =>
        refine ⟨fun _ => ⟨hdims, rfl⟩, fun _ => ?_⟩
        refine always_bind_any
          (Q := fun r : Option StencilPlan × StencilHistory => r.1.isSome = true) (fun older => ?_) _
        cases older with
        | some plan => exact always_pure rfl
        | none => exact always_bind_any fun r => always_pure rfl

/-- **Every plan suits the arrays it is for**, new or taken again, and the history stays sound. -/
theorem always_planStencil_suits (hspan : 1 ≤ p.limits.maxStencilSpan)
    (harrays : 1 ≤ p.limits.maxArrsInStencil) (arrayDims : Nat) {h : StencilHistory}
    (hh : h.Sound p.limits) :
    (p.planStencil arrayDims h).Always fun r =>
      (∀ plan, r.1 = some plan → plan.Suits p.limits arrayDims) ∧ r.2.Sound p.limits := by
  refine always_planStencil_cases ⟨nofun, hh⟩ (fun plan halt => ?_) fun hdims => ?_
  · have hsuits := hh.suits_of_alternate halt
    refine ⟨?_, hh.push hsuits.toSound⟩
    intro plan' hplan
    cases hplan
    exact hsuits
  · refine (always_drawStencil_suits hdims hspan harrays hh).mono fun r hr => ⟨?_, hr.2⟩
    intro plan hplan
    cases hplan
    exact hr.1

end FuzzPolicy.Policy
