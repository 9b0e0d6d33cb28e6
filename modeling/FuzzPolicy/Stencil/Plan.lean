import FuzzPolicy.Policy.Basic
import FuzzPolicy.Stencil.Basic

/-!
# Planning stencils

A stencil is planned for arrays with a given number of dimensions. If the last two plans can be used
for them, the older one may be taken again. Else a new plan is drawn: the span and the number of
arrays, whether all arrays use the same dimensions and whether the distance along a dimension is the
same for all, and then the arrays one after the other. An array may keep the dimensions that the array
in its place used last, if those were chosen for the same number of dimensions.
-/

namespace FuzzPolicy.Policy

/-- Draws which of so many dimensions are used. At least one is. -/
def drawMask (p : Policy) (arrayDims : Nat) : Draw Mask := do
  let mask : Mask ← Draw.replicate arrayDims p.tables.stencilInDim.sample
  if mask.any id then
    return mask
  else
    return mask.set (← Draw.below arrayDims) true

/-- The distances along dimensions that have been drawn. -/
abbrev SharedOffsets := List (Nat × Int)

/-- Draws the distance along a dimension. If distances are shared, one that has been drawn before is
taken again. -/
def drawOffset (reach : Nat) (shared : Bool) (known : SharedOffsets) (dim : Nat) :
    Draw (Int × SharedOffsets) := do
  if shared then
    match known.lookup dim with
    | some offset => return (offset, known)
    | none =>
      let offset ← Draw.intBetween (-reach) reach
      return (offset, (dim, offset) :: known)
  else
    return (← Draw.intBetween (-reach) reach, known)

/-- Draws the distances along some dimensions. -/
def drawDims (reach : Nat) (shared : Bool) :
    List Nat → SharedOffsets → Draw (List StencilDim × SharedOffsets)
  | [], known => return ([], known)
  | dim :: dims, known => do
    let (offset, known) ← drawOffset reach shared known dim
    let (others, known) ← drawDims reach shared dims known
    return ({ dim, offset } :: others, known)

/-- Draws the mask for one array: the one that all arrays share, or the last one in the same place,
or a new one. -/
def chooseMask (p : Policy) (arrayDims : Nat) (common last : Option Mask) : Draw Mask := do
  match common with
  | some mask => return mask
  | none =>
    match last.filter fun mask => mask.length = arrayDims with
    | some mask =>
      if ← p.tables.stencilSameDimsOneArr.sample then
        return mask
      else
        p.drawMask arrayDims
    | none => p.drawMask arrayDims

/-- Draws so many arrays, given the last masks in their places. Answers the arrays with their
masks. -/
def drawArrays (p : Policy) (arrayDims reach : Nat) (shared : Bool) (common : Option Mask) :
    Nat → List Mask → SharedOffsets → Draw (List (Mask × StencilArray))
  | 0, _, _ => return []
  | n + 1, masks, known => do
    let mask ← p.chooseMask arrayDims common masks.head?
    let (dims, known) ← drawDims reach shared mask.dims known
    let others ← drawArrays p arrayDims reach shared common n masks.tail known
    return (mask, { dims }) :: others

/-- Draws a new plan, and remembers it. -/
def drawStencil (p : Policy) (arrayDims : Nat) (h : StencilHistory) :
    Draw (StencilPlan × StencilHistory) := do
  let maxSpan := p.limits.maxStencilSpan
  let span := (← p.tables.stencilSpan.sampleWhere fun n => 1 ≤ n && n ≤ maxSpan).getD maxSpan
  let maxArrays := p.limits.maxArrsInStencil
  let count := (← p.tables.arrsInStencil.sampleWhere fun n => 1 ≤ n && n ≤ maxArrays).getD 1
  let sameDims : Bool ← p.tables.stencilSameDimsAll.sample
  let shared : Bool ← p.tables.stencilReuseOffset.sample
  let common ← if sameDims then some <$> p.drawMask arrayDims else pure none
  let reach := min span (Nat.pow 2 63 - 1)
  let drawn ← p.drawArrays arrayDims reach shared common count h.masks []
  let plan : StencilPlan := { span, arrays := drawn.map Prod.snd }
  return (plan, (h.storeMasks (drawn.map Prod.fst)).push plan)

/-- Whether the older of the last two plans is taken again, and which it is. -/
def replayed (p : Policy) (arrayDims : Nat) (h : StencilHistory) : Draw (Option StencilPlan) := do
  match h.alternate arrayDims with
  | some older =>
    if ← Draw.chance p.limits.alternation then
      return some older
    else
      return none
  | none => return none

/-- Plans a stencil for arrays with so many dimensions, or none, and remembers it. -/
def planStencil (p : Policy) (arrayDims : Nat) (h : StencilHistory) :
    Draw (Option StencilPlan × StencilHistory) := do
  if arrayDims = 0 then
    return (none, h)
  else if ← p.tables.allowStencil.sample then
    match ← p.replayed arrayDims h with
    | some plan => return (some plan, h.push plan)
    | none =>
      let (plan, h) ← p.drawStencil arrayDims h
      return (some plan, h)
  else
    return (none, h)

end FuzzPolicy.Policy
