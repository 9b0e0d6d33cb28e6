/-!
# Stencils

A stencil reads some arrays at small distances from the current place, along some of their
dimensions. A plan says for every array which dimensions these are and how far the neighbour is along
each. The history remembers the last two plans, and for every place in a plan the dimensions that the
array in that place used last.
-/

namespace FuzzPolicy

/-- A dimension and the distance along it. -/
structure StencilDim where
  dim : Nat
  offset : Int
  deriving DecidableEq, Repr

/-- How one array is read. -/
structure StencilArray where
  dims : List StencilDim
  deriving DecidableEq, Repr

/-- How the arrays of a stencil are read. -/
structure StencilPlan where
  /-- The greatest distance. -/
  span : Nat
  arrays : List StencilArray
  deriving DecidableEq, Repr

namespace StencilPlan

/-- The dimensions that the plan uses. -/
def dims (plan : StencilPlan) : List Nat :=
  plan.arrays.flatMap fun a => a.dims.map StencilDim.dim

/-- The greatest dimension that the plan uses. -/
def maxDim (plan : StencilPlan) : Option Nat :=
  plan.dims.max?

/-- Whether the plan can be used for arrays with so many dimensions. -/
def fits (plan : StencilPlan) (arrayDims : Nat) : Bool :=
  match plan.maxDim with
  | none => true
  | some d => d < arrayDims

end StencilPlan

/-- Which dimensions of an array are used. -/
abbrev Mask := List Bool

namespace Mask

/-- The dimensions that a mask uses, in order. -/
def dims (mask : Mask) : List Nat :=
  (mask.zipIdx.filter Prod.fst).map Prod.snd

end Mask

/-- What is remembered of earlier stencils. -/
structure StencilHistory where
  /-- The last plans, the oldest first. -/
  plans : List StencilPlan
  /-- The last mask for every place in a plan. -/
  masks : List Mask
  deriving DecidableEq, Repr

namespace StencilHistory

/-- The number of plans that are remembered. -/
def depth : Nat := 2

/-- Nothing is remembered. -/
def empty : StencilHistory := ⟨[], []⟩

/-- Remembers a plan. The oldest is forgotten if there would be too many. -/
def push (h : StencilHistory) (plan : StencilPlan) : StencilHistory :=
  if h.plans.length = depth then
    { h with plans := h.plans.drop 1 ++ [plan] }
  else
    { h with plans := h.plans ++ [plan] }

/-- Remembers the masks of the first places in a plan. -/
def storeMasks (h : StencilHistory) (masks : List Mask) : StencilHistory :=
  { h with masks := masks ++ h.masks.drop masks.length }

/-- The older of two remembered plans, if both can be used for arrays with so many dimensions. -/
def alternate (h : StencilHistory) (arrayDims : Nat) : Option StencilPlan :=
  if h.plans.length < depth || !h.plans.all fun plan => plan.fits arrayDims then
    none
  else
    h.plans.head?

end StencilHistory

end FuzzPolicy
