import FuzzPolicy.Constant.Buffer
import FuzzPolicy.Policy.Basic

/-!
# Plans for constants

The policy does not make constants itself. It plans where the next one comes from, a remembered one, a
special one or a fresh one, and what is done to it. The draws come in a fixed order: reuse, with the
place and the transformation; else whether it is special, and which special one; the offset, with
magnitude and sign; the low bit.
-/

namespace FuzzPolicy

/-- A distance that is added to a constant. -/
structure ConstOffset where
  magnitude : Nat
  positive : Bool
  deriving DecidableEq, Repr

/-- The distance as a signed 64-bit number. A magnitude beyond its range counts as the greatest. -/
def ConstOffset.signed (o : ConstOffset) : Int :=
  let magnitude : Int := min o.magnitude (Int.pow 2 63 - 1)
  if o.positive then magnitude else -magnitude

/-- Where a constant comes from. -/
inductive ConstSource where
  /-- It is the remembered one at a place, perhaps transformed by an operator. -/
  | reuse (index : Nat) (transform : Option UnaryOp)
  /-- It is a special one. -/
  | special (kind : SpecialConst)
  /-- It is made anew. -/
  | fresh
  deriving DecidableEq, Repr

/-- How the next constant is made. -/
structure ConstPlan where
  source : ConstSource
  offset : Option ConstOffset
  /-- Whether the low bit is made the end of the bit pattern. -/
  lsbEnd : Bool
  /-- Whether a remembered constant was wanted and there was none. -/
  exhausted : Bool
  deriving DecidableEq, Repr

/-- Whether a plan uses a remembered constant. -/
def ConstPlan.isReuse (plan : ConstPlan) : Bool :=
  match plan.source with
  | .reuse _ _ => true
  | _ => false

namespace Policy

/-- The empty buffer of a session. -/
def newConstBuffer (p : Policy) {α : Type} : ConstBuffer α :=
  .empty p.limits.constBufSize p.eviction

/-- Plans the use of one of so many remembered constants. -/
def planReuse (p : Policy) (buffered : Nat) : Draw ConstSource := do
  let index ← Draw.below buffered
  if ← p.tables.useConstTransform.sample then
    return .reuse index (some (← p.tables.constTransform.sample))
  else
    return .reuse index none

/-- Plans a constant that was not remembered. -/
def planNew (p : Policy) : Draw ConstSource := do
  if ← p.tables.useSpecialConst.sample then
    return .special (← p.tables.specialConst.sample)
  else
    return .fresh

/-- Plans the distance from the constant that was named. -/
def planOffset (p : Policy) : Draw (Option ConstOffset) := do
  if ← p.tables.useConstOffset.sample then
    let range := p.limits.constOffset
    let magnitude :=
      (← p.tables.constOffset.sampleWhere range.contains).getD range.min
    let positive ← p.tables.posConstOffset.sample
    return some { magnitude, positive }
  else
    return none

/-- Plans the next constant, when so many are remembered. -/
def planConst (p : Policy) (buffered : Nat) : Draw ConstPlan := do
  let wanted : Bool ← p.tables.reuseConst.sample
  let source ← if wanted && 0 < buffered then p.planReuse buffered else p.planNew
  let offset ← p.planOffset
  let lsbEnd ← p.tables.useLsbBitEnd.sample
  return { source, offset, lsbEnd, exhausted := wanted && buffered == 0 }

/-- Offers a constant to a buffer. -/
def offerConst (p : Policy) {α : Type} (b : ConstBuffer α) (value : α) :
    Draw (Offer α × ConstBuffer α) :=
  b.offer p.tables.replaceInBuf value

end Policy

end FuzzPolicy
