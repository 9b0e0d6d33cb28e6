import FuzzPolicy.Catalog.Basic
import FuzzPolicy.Catalog.Fault

/-!
# The tables used by default

A session that says nothing about its tables gets these. Eight of them follow from the limits: a
count that the limits bound is drawn evenly from its range. The others are fixed. They are made here
without the checks of `Table.ofEntries`, which they all pass.
-/

namespace FuzzPolicy.Catalog

/-- A table of fixed weights. -/
def fixed {α : Type} (first : α × Float) (rest : List (α × Float)) : Table α :=
  ⟨⟨first.1, first.2⟩ :: rest.map fun p => ⟨p.1, p.2⟩, by simp⟩

/-- A table of fixed values that are equally likely. -/
def evenly {α : Type} (first : α) (rest : List α) : Table α :=
  fixed (first, 1.0) (rest.map fun v => (v, 1.0))

/-- A table of `true` and `false` with fixed weights. -/
def weighing (yes no : Float) : Table Bool :=
  fixed (true, yes) [(false, no)]

/-- The name under which a range is reported that makes no table. -/
def rangeTableName : String := "uniform_range_table"

/-- The table of a range. -/
def rangeTable (r : CountRange) : Except ConfigFault (Table Nat) :=
  match r.table with
  | .ok table => .ok table
  | .error fault => .error (.range rangeTableName fault)

/-- The default tables under some limits. They exist unless a range is unfit for a table. -/
def defaults (l : Limits) : Except ConfigFault Catalog := do
  let loopSeqNum ← rangeTable (.upTo l.loopSeqNumLim)
  let loopNestDepth ← rangeTable (.upTo l.loopNestDepthLim)
  let scopeStmtNum ← rangeTable l.scopeStmtNum
  let newArrNum ← rangeTable l.newArrNum
  let pragmaNum ← rangeTable ⟨0, l.maxPragmaNum⟩
  let constOffset ← rangeTable l.constOffset
  let stencilSpan ← rangeTable (.upTo l.maxStencilSpan)
  let arrsInStencil ← rangeTable (.upTo l.maxArrsInStencil)
  return {
    loopSeqNum
    loopNestDepth
    scopeStmtNum
    itersStep := fixed (1, 20.0) [(2, 5.0), (3, 3.0), (4, 2.0)]
    stmtKindStruct :=
      fixed (.loopSeq, 10.0) [(.loopNest, 10.0), (.ifElse, 10.0), (.stubStmt, 70.0)]
    elseBr := weighing 50.0 50.0
    stmtKindPop := fixed (.assign, 80.0) [(.decl, 20.0)]
    intType :=
      evenly .bool [.schar, .uchar, .short, .ushort, .int, .uint, .llong, .ullong]
    newArrNum
    outKind := fixed (.var, 30.0) [(.arr, 70.0)]
    arithNode :=
      fixed (.const, 10.0) [(.scalarVarUse, 15.0), (.arrayUse, 20.0), (.iterUse, 5.0),
        (.typeCast, 10.0), (.unary, 10.0), (.binary, 20.0), (.ternary, 5.0), (.call, 5.0)]
    unaryOp := evenly .plus [.negate, .logNot, .bitNot]
    binaryOp :=
      evenly .add [.sub, .mul, .div, .mod, .lt, .gt, .le, .ge, .eq, .ne, .logAnd, .logOr,
        .bitAnd, .bitOr, .bitXor, .shl, .shr]
    cLibCall := evenly .min [.max]
    cxxLibCall := fixed (.min, 40.0) [(.max, 40.0), (.select, 20.0)]
    ispcLibCall :=
      evenly .min [.max, .select, .any, .all, .none, .redMin, .redMax, .redEq, .extract]
    loopEndKind := fixed (.const, 30.0) [(.var, 50.0), (.expr, 20.0)]
    pragmaNum
    pragmaKind :=
      evenly .clangVectorize [.clangInterleave, .clangVecPredicate, .clangUnroll, .gccIvdep,
        .gccUnroll, .ompSimd]
    mutation := weighing 10.0 90.0
    foreach := weighing 50.0 50.0
    applySimilarOp := weighing 30.0 70.0
    similarOp := evenly .additive [.bitwise, .logic, .mul, .bitSh, .addMul]
    applyConstUse := weighing 30.0 70.0
    constUse := evenly .halfDef [.allSame, .freshSpecial]
    useSpecialConst := weighing 40.0 60.0
    specialConst := evenly .zero [.min, .max, .bitBlock, .endBits]
    useLsbBitEnd := weighing 50.0 50.0
    useConstOffset := weighing 20.0 80.0
    constOffset
    posConstOffset := weighing 50.0 50.0
    replaceInBuf := weighing 30.0 70.0
    reuseConst := weighing 40.0 60.0
    useConstTransform := weighing 30.0 70.0
    constTransform := evenly .negate [.bitNot]
    allowStencil := weighing 30.0 70.0
    stencilSpan
    arrsInStencil
    stencilSameDimsAll := weighing 50.0 50.0
    stencilSameDimsOneArr := weighing 50.0 50.0
    stencilReuseOffset := weighing 50.0 50.0
    stencilInDim := weighing 50.0 50.0
    ubInDc := weighing 30.0 70.0 }

end FuzzPolicy.Catalog
