import FuzzPolicy.Policy.Basic

/-!
# Decisions within limits

The generator asks the policy what to do next, and says where it stands. Every decision looks at the
limits before it looks at a table: a table is asked only for what the limits allow there, and if it
has nothing of that kind, the answer is one that ends the program or keeps it small. So the limits
hold whatever the tables are.
-/

namespace FuzzPolicy

/-- Where the generator stands. -/
structure ScopeContext where
  /-- The loops around the scope. -/
  loopDepth : Nat
  /-- The conditionals around the scope. -/
  ifElseDepth : Nat
  /-- The statements that the program has so far. -/
  stmtCount : Nat
  deriving DecidableEq, Repr

/-- What is added to the weight of a leaf for every level of the expression above it. -/
def leafBump : Float := 30.0

namespace Policy

/-- Whether a kind of statement may stand somewhere, as far as depth is concerned. -/
def allowsKind (p : Policy) (ctx : ScopeContext) : NodeKind → Bool
  | .loopSeq | .loopNest => ctx.loopDepth < p.limits.loopDepthLimit
  | .ifElse => ctx.ifElseDepth < p.limits.ifElseDepthLimit
  | _ => true

/-- The kind of the next statement. When the program has all its statements it is a stub. -/
def chooseStmtKind (p : Policy) (ctx : ScopeContext) : Draw NodeKind := do
  if p.limits.stmtNumLim ≤ ctx.stmtCount then
    return .stubStmt
  else
    return (← p.tables.stmtKindStruct.sampleWhere (p.allowsKind ctx)).getD .stubStmt

/-- The greatest depth of a loop nest that is opened inside so many loops. -/
def loopNestBound (p : Policy) (loopDepth : Nat) : Nat :=
  min p.limits.loopNestDepthLim (p.limits.loopDepthLimit - loopDepth)

/-- The depth of a new loop nest. -/
def chooseLoopNestDepth (p : Policy) (loopDepth : Nat) : Draw Nat := do
  let bound := p.loopNestBound loopDepth
  return (← p.tables.loopNestDepth.sampleWhere fun n => n ≤ bound).getD bound

/-- The number of loops in a new sequence of loops. -/
def chooseLoopSeqNum (p : Policy) : Draw Nat := do
  let bound := p.limits.loopSeqNumLim
  return (← p.tables.loopSeqNum.sampleWhere fun n => n ≤ bound).getD bound

/-- The number of statements in a new scope. It is never more than the program has left. -/
def chooseScopeStmtNum (p : Policy) (ctx : ScopeContext) : Draw Nat := do
  let range := p.limits.scopeStmtNum
  let remaining := p.limits.stmtNumLim - ctx.stmtCount
  let allowed : CountRange := ⟨range.min, min range.max remaining⟩
  return (← p.tables.scopeStmtNum.sampleWhere allowed.contains).getD
    (min range.min remaining)

/-- The weight of a node kind at a level of an expression: leaves weigh more the deeper they are. -/
def arithWeight (depth : Nat) (kind : NodeKind) (weight : Float) : Float :=
  if kind.isLeaf && 0 < weight then weight + leafBump * Float.ofNat depth else weight

/-- The kind of the next node of an expression. At the last level it is a leaf. -/
def chooseArithNode (p : Policy) (depth : Nat) : Draw NodeKind := do
  let table : Table NodeKind := p.tables.arithNode
  if p.limits.maxArithDepth ≤ depth then
    return (← table.sampleWhere NodeKind.isLeaf).getD .const
  else
    return (← table.sampleReweighted (arithWeight depth)).getD .const

/-- A library function to call. -/
def chooseLibCall (p : Policy) (dialect : Dialect) : Draw LibCall :=
  (p.tables.libCall dialect).sample

/-- Where a loop iterator ends. -/
def chooseIterEnd (p : Policy) : Draw Nat :=
  .between p.limits.itersEndLimit.min p.limits.itersEndLimit.max

/-- The number of input variables. -/
def chooseInpVarsNum (p : Policy) : Draw Nat :=
  .between p.limits.inpVarsNum.min p.limits.inpVarsNum.max

/-- The number of arrays that a loop scope adds. -/
def chooseNewArrNum (p : Policy) : Draw Nat := do
  let range := p.limits.newArrNum
  return (← p.tables.newArrNum.sampleWhere range.contains).getD range.max

/-- The pragmas before a loop: as many are drawn as the table of their number says, and repeated ones
are dropped. -/
def choosePragmas (p : Policy) : Draw (List Pragma) := do
  let bound := p.limits.maxPragmaNum
  let count := (← p.tables.pragmaNum.sampleWhere fun n => n ≤ bound).getD 0
  let kinds : List Pragma ← Draw.replicate count p.tables.pragmaKind.sample
  return kinds.eraseDups

/-- Whether undefined behaviour is allowed. In code that runs it never is, and nothing is drawn. -/
def allowUb (p : Policy) : Region → Draw Bool
  | .live => return false
  | .dead => p.tables.ubInDc.sample

end Policy

end FuzzPolicy
