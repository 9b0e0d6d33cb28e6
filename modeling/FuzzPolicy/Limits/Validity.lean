import FuzzPolicy.Catalog.Fault

/-!
# Valid limits

Limits are valid if every range has its ends in order, the limits that are used as sizes are not
zero, the ranges that become tables are narrow enough for one, and the one probability is between
zero and one. `Limits.validate` makes these checks in this order and names the first that fails.
-/

namespace FuzzPolicy.Limits

/-- The limits that are given as ranges. -/
def ranges (l : Limits) : List (LimitId × CountRange) :=
  [(.scopeStmtNum, l.scopeStmtNum), (.itersEndLimit, l.itersEndLimit), (.inpVarsNum, l.inpVarsNum),
    (.newArrNum, l.newArrNum), (.constOffset, l.constOffset)]

/-- The limits that must not be zero. -/
def sizes (l : Limits) : List (LimitId × Nat) :=
  [(.maxStencilSpan, l.maxStencilSpan), (.maxArrsInStencil, l.maxArrsInStencil),
    (.constBufSize, l.constBufSize)]

/-- The ranges that become tables if no other table is given. -/
def tableRanges (l : Limits) : List (LimitId × CountRange) :=
  [(.loopSeqNumLim, .upTo l.loopSeqNumLim), (.loopNestDepthLim, .upTo l.loopNestDepthLim),
    (.scopeStmtNum, l.scopeStmtNum), (.newArrNum, l.newArrNum), (.constOffset, l.constOffset),
    (.maxPragmaNum, ⟨0, l.maxPragmaNum⟩), (.maxStencilSpan, .upTo l.maxStencilSpan),
    (.maxArrsInStencil, .upTo l.maxArrsInStencil)]

/-- Attaches the name of the limit to a fault of its range. -/
def ofRange {α : Type} (limit : LimitId) : Except RangeFault α → Except ConfigFault α
  | .ok a => .ok a
  | .error fault => .error (.range (Vocabulary.name limit) fault)

/-- A size must not be zero. -/
def checkSize (limit : LimitId) (n : Nat) : Except ConfigFault Unit :=
  if n = 0 then .error (.zeroLimit limit) else .ok ()

/-- The first fault of the limits, if they have one. -/
def validate (l : Limits) : Except ConfigFault Unit := do
  l.ranges.forM fun (limit, range) => ofRange limit range.checkOrder
  l.sizes.forM fun (limit, n) => checkSize limit n
  l.tableRanges.forM fun (limit, range) => ofRange limit range.checkWidth
  if 0.0 ≤ l.alternation ∧ l.alternation ≤ 1.0 then
    return ()
  else
    throw (.invalidProbability .alternation l.alternation)

end FuzzPolicy.Limits
