import FuzzPolicy.Limits.Basic
import FuzzPolicy.Stencil.Basic
import Mathlib.Data.List.Basic

/-!
# What a history of stencils remembers

A plan is sound if it keeps to what does not depend on the arrays at hand: the limits on span and number
of arrays, dimensions in order, at least one for every array, and no distance beyond the span. Whether it
suits some arrays is one more thing, that its dimensions are below theirs. A history remembers sound
plans and masks that are not empty; what it remembers was made for arrays of other dimensions, so before
a plan is taken again it has to be seen that it fits.
-/

namespace FuzzPolicy

/-! ### Masks -/

namespace Mask

variable {mask : Mask} {d : Nat}

theorem mem_dims_iff : d ∈ mask.dims ↔ mask[d]? = some true := by
  unfold dims
  simp only [List.mem_map, List.mem_filter, Prod.exists]
  constructor
  · rintro ⟨used, i, ⟨hmem, hused⟩, rfl⟩
    obtain rfl : used = true := hused
    exact List.mem_zipIdx_iff_getElem?.mp hmem
  · intro h
    exact ⟨true, d, ⟨List.mem_zipIdx_iff_getElem?.mpr h, rfl⟩, rfl⟩

theorem lt_length_of_mem_dims (h : d ∈ mask.dims) : d < mask.length := by
  obtain ⟨hlt, -⟩ := List.getElem?_eq_some_iff.mp (mem_dims_iff.mp h)
  exact hlt

/-- The dimensions are some of all places, which are in order. -/
theorem pairwise_dims (mask : Mask) : mask.dims.Pairwise (· < ·) := by
  have hplaces : (mask.zipIdx.map Prod.snd).Pairwise (· < ·) := by
    rw [List.zipIdx_map_snd]
    exact List.pairwise_lt_range'
  exact hplaces.sublist (List.filter_sublist.map _)

theorem dims_ne_nil (h : true ∈ mask) : mask.dims ≠ [] := by
  obtain ⟨d, hd⟩ := List.mem_iff_getElem?.mp h
  exact List.ne_nil_of_mem (mem_dims_iff.mpr hd)

/-- A mask for arrays with so many dimensions that uses at least one. -/
structure Usable (mask : Mask) (arrayDims : Nat) : Prop where
  length_eq : mask.length = arrayDims
  used : true ∈ mask

end Mask

/-! ### Plans -/

/-- An array is read along some of its dimensions, in order, and not too far. -/
structure StencilArray.Sound (a : StencilArray) (span : Nat) : Prop where
  ne_nil : a.dims ≠ []
  increasing : a.dims.Pairwise fun d e => d.dim < e.dim
  near : ∀ d ∈ a.dims, d.offset.natAbs ≤ span

/-- A plan keeps to the limits, whatever arrays it was made for. -/
structure StencilPlan.Sound (plan : StencilPlan) (l : Limits) : Prop where
  span_pos : 1 ≤ plan.span
  span_le : plan.span ≤ l.maxStencilSpan
  arrays_pos : 1 ≤ plan.arrays.length
  arrays_le : plan.arrays.length ≤ l.maxArrsInStencil
  array : ∀ a ∈ plan.arrays, a.Sound plan.span

/-- A plan suits arrays that have all dimensions it uses. -/
structure StencilPlan.Suits (plan : StencilPlan) (l : Limits) (arrayDims : Nat) : Prop
    extends plan.Sound l where
  dim_lt : ∀ a ∈ plan.arrays, ∀ d ∈ a.dims, d.dim < arrayDims

namespace StencilPlan

variable {plan : StencilPlan}

theorem mem_dims_iff {d : Nat} :
    d ∈ plan.dims ↔ ∃ a ∈ plan.arrays, ∃ e ∈ a.dims, e.dim = d := by
  simp [dims, List.mem_flatMap]

theorem fits_iff_dims {arrayDims : Nat} :
    plan.fits arrayDims = true ↔ ∀ d ∈ plan.dims, d < arrayDims := by
  unfold fits maxDim
  cases hmax : plan.dims.max? with
  | none =>
      rw [List.max?_eq_none_iff.mp hmax]
      simp
  | some m =>
      obtain ⟨hmem, hle⟩ := List.max?_eq_some_iff.mp hmax
      rw [decide_eq_true_eq]
      constructor
      · intro hlt d hd
        exact Nat.lt_of_le_of_lt (hle d hd) hlt
      · intro hall
        exact hall m hmem

theorem fits_iff {arrayDims : Nat} :
    plan.fits arrayDims = true ↔ ∀ a ∈ plan.arrays, ∀ d ∈ a.dims, d.dim < arrayDims := by
  rw [fits_iff_dims]
  simp only [mem_dims_iff]
  constructor
  · intro h a ha e he
    exact h e.dim ⟨a, ha, e, he, rfl⟩
  · intro h d hd
    obtain ⟨a, ha, e, he, rfl⟩ := hd
    exact h a ha e he

theorem Sound.suits {l : Limits} {arrayDims : Nat} (h : plan.Sound l)
    (hfits : plan.fits arrayDims = true) : plan.Suits l arrayDims :=
  ⟨h, fits_iff.mp hfits⟩

/-- A plan that keeps to the limits uses a dimension. -/
theorem Sound.exists_mem_dims {l : Limits} (h : plan.Sound l) : ∃ d, d ∈ plan.dims := by
  obtain ⟨a, ha⟩ := List.exists_mem_of_length_pos h.arrays_pos
  obtain ⟨e, he⟩ := List.exists_mem_of_ne_nil _ (h.array a ha).ne_nil
  exact ⟨e.dim, mem_dims_iff.mpr ⟨a, ha, e, he, rfl⟩⟩

theorem Suits.dims_lt {l : Limits} {arrayDims : Nat} (h : plan.Suits l arrayDims) :
    ∀ d ∈ plan.dims, d < arrayDims :=
  fits_iff_dims.mp (fits_iff.mpr h.dim_lt)

end StencilPlan

/-! ### Histories -/

namespace StencilHistory

variable {h : StencilHistory} {l : Limits}

/-- What is remembered can be used again, for arrays that it fits. -/
structure Sound (h : StencilHistory) (l : Limits) : Prop where
  plans : ∀ plan ∈ h.plans, plan.Sound l
  masks : ∀ mask ∈ h.masks, true ∈ mask

theorem sound_empty (l : Limits) : empty.Sound l :=
  ⟨by simp [empty], by simp [empty]⟩

theorem mem_of_mem_push {plan plan' : StencilPlan} (hmem : plan' ∈ (h.push plan).plans) :
    plan' ∈ h.plans ∨ plan' = plan := by
  unfold push at hmem
  split at hmem
  · exact (List.mem_append.mp hmem).imp List.mem_of_mem_drop List.mem_singleton.mp
  · exact (List.mem_append.mp hmem).imp_right List.mem_singleton.mp

theorem masks_push (h : StencilHistory) (plan : StencilPlan) : (h.push plan).masks = h.masks := by
  unfold push
  split <;> rfl

theorem Sound.push (hh : h.Sound l) {plan : StencilPlan} (hplan : plan.Sound l) :
    (h.push plan).Sound l := by
  refine ⟨fun plan' hmem => ?_, ?_⟩
  · rcases mem_of_mem_push hmem with hold | rfl
    · exact hh.plans plan' hold
    · exact hplan
  · rw [masks_push]
    exact hh.masks

theorem Sound.storeMasks (hh : h.Sound l) {masks : List Mask} (hmasks : ∀ mask ∈ masks, true ∈ mask) :
    (h.storeMasks masks).Sound l := by
  refine ⟨hh.plans, fun mask hmem => ?_⟩
  rcases List.mem_append.mp hmem with hmem | hmem
  · exact hmasks mask hmem
  · exact hh.masks mask (List.mem_of_mem_drop hmem)

/-- The plan that may be taken again is a remembered one, and it fits. -/
theorem alternate_eq_some {arrayDims : Nat} {plan : StencilPlan}
    (halt : h.alternate arrayDims = some plan) : plan ∈ h.plans ∧ plan.fits arrayDims = true := by
  unfold alternate at halt
  split at halt
  · cases halt
  · rename_i hfits
    have hmem : plan ∈ h.plans := List.mem_of_mem_head? halt
    simp only [Bool.or_eq_true, Bool.not_eq_true', not_or, Bool.not_eq_false, List.all_eq_true]
      at hfits
    exact ⟨hmem, hfits.2 plan hmem⟩

theorem Sound.suits_of_alternate (hh : h.Sound l) {arrayDims : Nat} {plan : StencilPlan}
    (halt : h.alternate arrayDims = some plan) : plan.Suits l arrayDims := by
  obtain ⟨hmem, hfits⟩ := alternate_eq_some halt
  exact (hh.plans plan hmem).suits hfits

end StencilHistory

end FuzzPolicy
