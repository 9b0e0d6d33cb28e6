import FuzzPolicy.Proofs.Guarded.Decision
import FuzzPolicy.Proofs.Stencil.Bounds

/-!
# Guarded stencils

Planning a stencil with guarded operations in it. The arrays of a plan are drawn one after the other, and
here what an array uses is looked up and stored place by place: the mask of its place in the history, and
the shared distance of each dimension in a list with a place for every dimension of the arrays. Both are
indexed by numbers that come from elsewhere, a mask that was remembered for arrays of other dimensions or
a place that the history may not have yet.

The plain definitions look nothing up. They store the masks of all places at once, and keep the distances
as a list of pairs. `slotsOf` and `StencilHistory.storeMasks` say what the places hold in terms of these,
and the laws carry both through the loop over the arrays. Nothing is asked of the history, so they hold
for all histories.
-/

namespace FuzzPolicy

open Draw

/-! ### Places -/

namespace Guarded

/-- The distance along each dimension, if it has been drawn. -/
abbrev Slots := List (Option Int)

/-- The places of so many dimensions, holding the distances that have been drawn. -/
def slotsOf (arrayDims : Nat) (known : Policy.SharedOffsets) : Slots :=
  (List.range arrayDims).map fun dim => known.lookup dim

variable {arrayDims : Nat} {known : Policy.SharedOffsets}

theorem slotsOf_nil (arrayDims : Nat) : slotsOf arrayDims [] = List.replicate arrayDims none := by
  simp [slotsOf]

@[simp] theorem length_slotsOf : (slotsOf arrayDims known).length = arrayDims := by
  simp [slotsOf]

theorem slotsOf_getElem? {dim : Nat} (h : dim < arrayDims) :
    (slotsOf arrayDims known)[dim]? = some (known.lookup dim) := by
  simp [slotsOf, h]

/-- A distance is stored in the place of its dimension. -/
theorem slotsOf_cons (dim : Nat) (offset : Int) :
    slotsOf arrayDims ((dim, offset) :: known) = (slotsOf arrayDims known).set dim (some offset) := by
  refine List.ext_getElem (by simp) fun d _ _ => ?_
  rw [List.getElem_set]
  by_cases hd : dim = d
  · simp [slotsOf, hd]
  · have hne : (d == dim) = false := beq_false_of_ne (Ne.symm hd)
    simp [slotsOf, hd, List.lookup_cons, hne]

/-- Remembers the mask of a place. Places are stored in order, so the place is there or is the next. -/
def storeMask (h : StencilHistory) (slot : Nat) (mask : Mask) : Except Misuse StencilHistory :=
  if slot < h.masks.length then do
    let masks ← Misuse.replaced h.masks slot mask
    return { h with masks }
  else if slot = h.masks.length then
    return { h with masks := h.masks ++ [mask] }
  else
    throw (.outOfBounds slot h.masks.length)

end Guarded

namespace StencilHistory

variable (h : StencilHistory)

/-- After the masks of some places, the mask of the next one is still that of the earlier history. -/
theorem storeMasks_getElem? (done : List Mask) :
    (h.storeMasks done).masks[done.length]? = h.masks[done.length]? := by
  unfold storeMasks
  rw [List.getElem?_append_right (Nat.le_refl _), List.getElem?_drop]
  simp

/-- The mask of the next place is stored there, or behind the others if there is no such place yet. -/
theorem storeMask_storeMasks (done : List Mask) (mask : Mask) :
    Guarded.storeMask (h.storeMasks done) done.length mask = .ok (h.storeMasks (done ++ [mask])) := by
  have hrest : h.masks.drop (done ++ [mask]).length = (h.masks.drop done.length).tail := by
    rw [List.length_append, List.length_singleton, List.tail_drop]
  unfold Guarded.storeMask storeMasks
  rw [hrest]
  -- Either the history has no more places, and the mask is put behind, or it has this one.
  cases h.masks.drop done.length with
  | nil =>
      rw [List.append_nil, if_neg (Nat.lt_irrefl _), if_pos rfl, List.tail_nil, List.append_nil]
      rfl
  | cons last rest =>
      have hlt : done.length < (done ++ last :: rest).length := by simp
      rw [if_pos hlt, Misuse.replaced_of_lt hlt]
      simp

end StencilHistory

namespace Guarded

/-! ### Masks -/

section Masks

variable (p : Policy)

/-- Draws which of so many dimensions are used. If none is, one is drawn, so there has to be one. -/
def drawMask (arrayDims : Nat) : Guarded Mask := do
  let mask : Mask ← replicate arrayDims (sample p.tables.stencilInDim)
  if mask.any id then
    return mask
  else
    let dim ← below arrayDims
    Misuse.replaced mask dim true

/-- Draws the mask for the array in a place, unless all arrays share one. -/
def chooseMask (arrayDims : Nat) (common : Option Mask) (h : StencilHistory) (slot : Nat) :
    Guarded Mask := do
  match common with
  | some mask => return mask
  | none =>
    match h.masks[slot]?.filter fun mask => mask.length = arrayDims with
    | some mask =>
      if ← sample p.tables.stencilSameDimsOneArr then
        return mask
      else
        drawMask p arrayDims
    | none => drawMask p arrayDims

variable {p} {arrayDims : Nat} (hdims : arrayDims ≠ 0)

include hdims

/-- The dimension that is drawn is a place of the mask. -/
theorem drawMask_eq : drawMask p arrayDims = ofDraw (p.drawMask arrayDims) := by
  have hpos : 0 < arrayDims := Nat.pos_of_ne_zero hdims
  rw [drawMask, sample_eq, replicate_ofDraw, below_of_pos hpos]
  refine ofDraw_bind_of_always (always_replicate (always_true _) arrayDims) fun mask hmask => ?_
  refine ofDraw_ite_congr (fun _ => rfl) fun _ => ?_
  refine ofDraw_bind_of_always (always_below_lt hpos) fun dim hdim => ?_
  rw [← hmask.1] at hdim
  rw [Misuse.replaced_of_lt hdim]
  rfl

theorem chooseMask_eq (common : Option Mask) (h : StencilHistory) (slot : Nat) :
    chooseMask p arrayDims common h slot = ofDraw (p.chooseMask arrayDims common h.masks[slot]?) := by
  unfold chooseMask Policy.chooseMask
  rw [drawMask_eq hdims, sample_eq]
  cases common with
  | some mask => rfl
  | none =>
      dsimp only
      cases h.masks[slot]?.filter fun mask => mask.length = arrayDims with
      | none => rfl
      | some mask => exact ofDraw_bind_congr fun keep => ofDraw_ite_congr (fun _ => rfl) fun _ => rfl

/-- Wherever the mask of an array comes from, it has a place for every dimension. -/
theorem always_length_chooseMask {common : Option Mask}
    (hcommon : ∀ mask, common = some mask → mask.length = arrayDims) (last : Option Mask) :
    (p.chooseMask arrayDims common last).Always (·.length = arrayDims) :=
  Policy.always_chooseMask_of
    ((Policy.always_drawMask hdims).mono fun _ hmask => hmask.length_eq) hcommon
    fun _ _ hlen => hlen

end Masks

/-! ### Distances -/

section Distances

variable (reach : Nat) (shared : Bool)

/-- Draws the distance along a dimension. A shared one is looked up in the place of the dimension, and is
stored there when it is drawn. -/
def drawOffset (slots : Slots) (dim : Nat) : Guarded (Int × Slots) := do
  if shared then
    match ← Misuse.element slots dim with
    | some offset => return (offset, slots)
    | none =>
      let offset ← intBetween (-reach) reach
      let slots ← Misuse.replaced slots dim (some offset)
      return (offset, slots)
  else
    let offset ← intBetween (-reach) reach
    return (offset, slots)

def drawDims : List Nat → Slots → Guarded (List StencilDim × Slots)
  | [], slots => return ([], slots)
  | dim :: dims, slots => do
    let (offset, slots) ← drawOffset reach shared slots dim
    let (others, slots) ← drawDims dims slots
    return ({ dim, offset } :: others, slots)

variable {reach shared} {arrayDims : Nat} (hreach : reach < 2 ^ 63)

include hreach

/-- A dimension of the arrays has a place, and the distances of either sign are signed words. -/
theorem drawOffset_eq {dim : Nat} (hdim : dim < arrayDims) (known : Policy.SharedOffsets) :
    drawOffset reach shared (slotsOf arrayDims known) dim =
      ofDraw ((fun r => (r.1, slotsOf arrayDims r.2)) <$> Policy.drawOffset reach shared known dim) := by
  have hdraw : intBetween (-reach) reach = ofDraw (Draw.intBetween (-reach) reach) :=
    intBetween_of_le (by omega) (by omega) (by omega)
  rw [drawOffset, Policy.drawOffset, hdraw, Misuse.element_of_getElem? (slotsOf_getElem? hdim)]
  cases shared with
  | false => rfl
  | true =>
      cases hlook : known.lookup dim with
      | some offset => rfl
      | none =>
          simp only [if_true, liftM_ok_bind, map_bind]
          refine ofDraw_bind_congr fun offset => ?_
          rw [map_pure, slotsOf_cons, Misuse.replaced_of_lt (by rwa [length_slotsOf])]
          rfl

theorem drawDims_eq {dims : List Nat} (hdims : ∀ dim ∈ dims, dim < arrayDims)
    (known : Policy.SharedOffsets) :
    drawDims reach shared dims (slotsOf arrayDims known) =
      ofDraw ((fun r => (r.1, slotsOf arrayDims r.2)) <$> Policy.drawDims reach shared dims known) := by
  induction dims generalizing known with
  | nil => rfl
  | cons dim dims ih =>
      rw [List.forall_mem_cons] at hdims
      rw [drawDims, drawOffset_eq hreach hdims.1, Policy.drawDims, map_bind]
      refine ofDraw_map_bind_congr fun r => ?_
      dsimp only
      rw [ih hdims.2]
      rfl

end Distances

/-! ### Plans -/

section Plans

variable (p : Policy) (arrayDims : Nat)

/-- Draws so many arrays, from a place on, and stores the mask of each in its place. -/
def drawArrays (reach : Nat) (shared : Bool) (common : Option Mask) :
    Nat → Nat → StencilHistory → Slots → Guarded (List StencilArray × StencilHistory)
  | 0, _, h, _ => return ([], h)
  | n + 1, slot, h, slots => do
    let mask ← chooseMask p arrayDims common h slot
    let (dims, slots) ← drawDims reach shared mask.dims slots
    let h ← storeMask h slot mask
    let (arrays, h) ← drawArrays reach shared common n (slot + 1) h slots
    return ({ dims } :: arrays, h)

/-- Draws the arrays of a plan and remembers it. No distance is drawn before. -/
def drawPlan (span count : Nat) (shared : Bool) (common : Option Mask) (h : StencilHistory) :
    Guarded (StencilPlan × StencilHistory) := do
  let reach := min span (Nat.pow 2 63 - 1)
  let slots : Slots := List.replicate arrayDims none
  let (arrays, h) ← drawArrays p arrayDims reach shared common count 0 h slots
  let plan : StencilPlan := { span, arrays }
  return (plan, h.push plan)

def drawStencil (h : StencilHistory) : Guarded (StencilPlan × StencilHistory) := do
  let maxSpan := p.limits.maxStencilSpan
  let span := (← sampleWhere p.tables.stencilSpan fun n => 1 ≤ n && n ≤ maxSpan).getD maxSpan
  let maxArrays := p.limits.maxArrsInStencil
  let count := (← sampleWhere p.tables.arrsInStencil fun n => 1 ≤ n && n ≤ maxArrays).getD 1
  let sameDims : Bool ← sample p.tables.stencilSameDimsAll
  let shared : Bool ← sample p.tables.stencilReuseOffset
  let common ← if sameDims then some <$> drawMask p arrayDims else pure none
  drawPlan p arrayDims span count shared common h

def replayed (h : StencilHistory) : Guarded (Option StencilPlan) := do
  match h.alternate arrayDims with
  | some older =>
    if ← chance p.limits.alternation then
      return some older
    else
      return none
  | none => return none

def planStencil (h : StencilHistory) : Guarded (Option StencilPlan × StencilHistory) := do
  if arrayDims = 0 then
    return (none, h)
  else if ← sample p.tables.allowStencil then
    match ← replayed p arrayDims h with
    | some plan => return (some plan, h.push plan)
    | none =>
      let (plan, h) ← drawStencil p arrayDims h
      return (some plan, h)
  else
    return (none, h)

variable {p arrayDims}

/-- The history after some arrays holds their masks in its first places, and the masks of before in the
places that come next. -/
theorem drawArrays_eq (hdims : arrayDims ≠ 0) {reach : Nat} (hreach : reach < 2 ^ 63) {shared : Bool}
    {common : Option Mask} (hcommon : ∀ mask, common = some mask → mask.length = arrayDims) (n : Nat)
    (h : StencilHistory) (done : List Mask) (known : Policy.SharedOffsets) :
    drawArrays p arrayDims reach shared common n done.length (h.storeMasks done)
        (slotsOf arrayDims known) =
      ofDraw ((fun drawn => (drawn.map Prod.snd, h.storeMasks (done ++ drawn.map Prod.fst))) <$>
        p.drawArrays arrayDims reach shared common n (h.masks.drop done.length) known) := by
  -- On the number of arrays to come; `done` has the masks of those before, one for each place.
  induction n generalizing done known with
  | zero => simp [drawArrays, Policy.drawArrays]
  | succ n ih =>
      rw [drawArrays, Policy.drawArrays, map_bind, chooseMask_eq hdims, h.storeMasks_getElem? done,
        List.head?_drop, List.tail_drop]
      refine ofDraw_bind_of_always (always_length_chooseMask hdims hcommon _) fun mask hmask => ?_
      have hplaces : ∀ dim ∈ mask.dims, dim < arrayDims := by
        intro dim hdim
        rw [← hmask]
        exact Mask.lt_length_of_mem_dims hdim
      rw [drawDims_eq hreach hplaces, map_bind]
      refine ofDraw_map_bind_congr fun r => ?_
      obtain ⟨dims, known⟩ := r
      have hnext := ih (done ++ [mask]) known
      rw [List.length_append, List.length_singleton] at hnext
      dsimp only
      rw [h.storeMask_storeMasks, liftM_ok_bind, hnext, map_bind]
      refine ofDraw_map_bind_congr fun others => ?_
      simp

/-- The loop starts with the first place, and with the history as it was. -/
theorem drawPlan_eq (hdims : arrayDims ≠ 0) (span count : Nat) (shared : Bool) {common : Option Mask}
    (hcommon : ∀ mask, common = some mask → mask.length = arrayDims) (h : StencilHistory) :
    drawPlan p arrayDims span count shared common h = ofDraw (do
      let reach := min span (Nat.pow 2 63 - 1)
      let drawn ← p.drawArrays arrayDims reach shared common count h.masks []
      let plan : StencilPlan := { span, arrays := drawn.map Prod.snd }
      return (plan, (h.storeMasks (drawn.map Prod.fst)).push plan)) := by
  have hreach : min span (Nat.pow 2 63 - 1) < 2 ^ 63 :=
    Nat.lt_of_le_of_lt (Nat.min_le_right _ _) (by decide)
  have harrays : drawArrays p arrayDims (min span (Nat.pow 2 63 - 1)) shared common count 0 h
      (slotsOf arrayDims []) = _ := drawArrays_eq hdims hreach hcommon count h [] []
  rw [slotsOf_nil] at harrays
  rw [drawPlan, harrays]
  rfl

theorem drawStencil_eq (hdims : arrayDims ≠ 0) (h : StencilHistory) :
    drawStencil p arrayDims h = ofDraw (p.drawStencil arrayDims h) := by
  rw [drawStencil, Policy.drawStencil, sampleWhere_eq]
  refine ofDraw_bind_congr fun drawnSpan => ?_
  simp only [sampleWhere_eq, sample_eq, map_of_eq some (drawMask_eq hdims)]
  refine ofDraw_bind_congr fun drawnCount => ?_
  refine ofDraw_bind_congr fun sameDims => ofDraw_bind_congr fun shared => ?_
  -- The rest is the same for both branches, but only the mask of the first has to be looked at.
  refine ofDraw_ite_congr (fun _ => ?_) fun _ => drawPlan_eq hdims _ _ _ (by nofun) h
  refine ofDraw_bind_of_always (Policy.always_sharedMask hdims) fun common hcommon => ?_
  exact drawPlan_eq hdims _ _ _ (fun mask hmask => (hcommon mask hmask).length_eq) h

theorem replayed_eq (halt : 0.0 ≤ p.limits.alternation ∧ p.limits.alternation ≤ 1.0)
    (h : StencilHistory) : replayed p arrayDims h = ofDraw (p.replayed arrayDims h) := by
  rw [replayed, Policy.replayed, chance_of_le halt]
  cases h.alternate arrayDims with
  | none => rfl
  | some older => exact ofDraw_bind_congr fun again => ofDraw_ite_congr (fun _ => rfl) fun _ => rfl

/-- **No plan for a stencil goes wrong**, whatever the arrays and the history are. -/
theorem planStencil_eq (hl : p.limits.validate = .ok ()) (arrayDims : Nat) (h : StencilHistory) :
    planStencil p arrayDims h = ofDraw (p.planStencil arrayDims h) := by
  have halt := (Limits.validate_eq_ok_iff.mp hl).2.2.2
  refine ofDraw_ite_congr (fun _ => rfl) fun hdims => ?_
  rw [sample_eq, replayed_eq halt, drawStencil_eq hdims]
  refine ofDraw_bind_congr fun allowed => ofDraw_ite_congr (fun _ => ?_) fun _ => rfl
  refine ofDraw_bind_congr fun older => ?_
  cases older with
  | some plan => rfl
  | none => rfl

end Plans

end Guarded

end FuzzPolicy
