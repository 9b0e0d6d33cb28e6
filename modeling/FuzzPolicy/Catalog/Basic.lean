import FuzzPolicy.Catalog.TableId
import FuzzPolicy.Table.Sample

/-!
# The catalog

A catalog has a table for every table name. It can be seen as a record with a field per table or as a
function of the name: `Catalog.table` and `Catalog.ofFn` go from one view to the other, and two
catalogs are the same if they give the same table for every name. Tables are replaced one at a time,
and two catalogs are compared table by table.
-/

namespace FuzzPolicy

/-- The tables that a session draws from. -/
structure Catalog where
  /-- Loops in one sequence of loops. -/
  loopSeqNum : Table Nat
  /-- Loops in one nest. -/
  loopNestDepth : Table Nat
  /-- Statements in one scope. -/
  scopeStmtNum : Table Nat
  /-- How far a loop iterator moves at a time. -/
  itersStep : Table Nat
  /-- The kind of the next statement. -/
  stmtKindStruct : Table NodeKind
  /-- Whether a conditional has an alternative. -/
  elseBr : Table Bool
  /-- The kind of the statement that a stub becomes. -/
  stmtKindPop : Table NodeKind
  /-- Types of variables. -/
  intType : Table IntType
  /-- Arrays that a loop scope adds. -/
  newArrNum : Table Nat
  /-- What an assignment writes to. -/
  outKind : Table DataKind
  /-- The kind of a node of an expression. -/
  arithNode : Table NodeKind
  /-- Operators on one operand. -/
  unaryOp : Table UnaryOp
  /-- Operators on two operands. -/
  binaryOp : Table BinaryOp
  /-- Library functions of the dialect `c`. -/
  cLibCall : Table LibCall
  /-- Library functions of the dialect `cxx`. -/
  cxxLibCall : Table LibCall
  /-- Library functions of the dialect `ispc`. -/
  ispcLibCall : Table LibCall
  /-- What bounds a loop. -/
  loopEndKind : Table LoopEnd
  /-- Pragmas before one loop. -/
  pragmaNum : Table Nat
  /-- Which pragma it is. -/
  pragmaKind : Table Pragma
  /-- Whether a program is mutated. -/
  mutation : Table Bool
  /-- Whether a parallel loop is left untiled. -/
  foreach : Table Bool
  /-- Whether operators are kept to one family. -/
  applySimilarOp : Table Bool
  /-- Which family they are kept to. -/
  similarOp : Table OperatorFamily
  /-- Whether constants are used in one way. -/
  applyConstUse : Table Bool
  /-- Which way that is. -/
  constUse : Table ConstUse
  /-- Whether a fresh constant is a special one. -/
  useSpecialConst : Table Bool
  /-- Which special constant it is. -/
  specialConst : Table SpecialConst
  /-- Whether the low bit is made the end of the bit pattern. -/
  useLsbBitEnd : Table Bool
  /-- Whether a constant is moved off its value. -/
  useConstOffset : Table Bool
  /-- How far it is moved. -/
  constOffset : Table Nat
  /-- Whether it is moved upwards. -/
  posConstOffset : Table Bool
  /-- Whether a constant takes the place of a remembered one. -/
  replaceInBuf : Table Bool
  /-- Whether a remembered constant is used again. -/
  reuseConst : Table Bool
  /-- Whether a remembered constant is changed on the way. -/
  useConstTransform : Table Bool
  /-- The operator that changes it. -/
  constTransform : Table UnaryOp
  /-- Whether an expression may be a stencil. -/
  allowStencil : Table Bool
  /-- How far a stencil reaches. -/
  stencilSpan : Table Nat
  /-- Arrays in one stencil. -/
  arrsInStencil : Table Nat
  /-- Whether all arrays of a stencil share their dimensions. -/
  stencilSameDimsAll : Table Bool
  /-- Whether an array keeps the dimensions that the one in its place used last. -/
  stencilSameDimsOneArr : Table Bool
  /-- Whether the distance along a dimension is the same for all arrays. -/
  stencilReuseOffset : Table Bool
  /-- Whether a stencil reaches along a dimension. -/
  stencilInDim : Table Bool
  /-- Whether dead code may have undefined behaviour. -/
  ubInDc : Table Bool
  deriving BEq

namespace Catalog

/-- The table of a name. -/
def table (c : Catalog) : (t : TableId) → Table t.Outcome
  | .loopSeqNum => c.loopSeqNum
  | .loopNestDepth => c.loopNestDepth
  | .scopeStmtNum => c.scopeStmtNum
  | .itersStep => c.itersStep
  | .stmtKindStruct => c.stmtKindStruct
  | .elseBr => c.elseBr
  | .stmtKindPop => c.stmtKindPop
  | .intType => c.intType
  | .newArrNum => c.newArrNum
  | .outKind => c.outKind
  | .arithNode => c.arithNode
  | .unaryOp => c.unaryOp
  | .binaryOp => c.binaryOp
  | .cLibCall => c.cLibCall
  | .cxxLibCall => c.cxxLibCall
  | .ispcLibCall => c.ispcLibCall
  | .loopEndKind => c.loopEndKind
  | .pragmaNum => c.pragmaNum
  | .pragmaKind => c.pragmaKind
  | .mutation => c.mutation
  | .foreach => c.foreach
  | .applySimilarOp => c.applySimilarOp
  | .similarOp => c.similarOp
  | .applyConstUse => c.applyConstUse
  | .constUse => c.constUse
  | .useSpecialConst => c.useSpecialConst
  | .specialConst => c.specialConst
  | .useLsbBitEnd => c.useLsbBitEnd
  | .useConstOffset => c.useConstOffset
  | .constOffset => c.constOffset
  | .posConstOffset => c.posConstOffset
  | .replaceInBuf => c.replaceInBuf
  | .reuseConst => c.reuseConst
  | .useConstTransform => c.useConstTransform
  | .constTransform => c.constTransform
  | .allowStencil => c.allowStencil
  | .stencilSpan => c.stencilSpan
  | .arrsInStencil => c.arrsInStencil
  | .stencilSameDimsAll => c.stencilSameDimsAll
  | .stencilSameDimsOneArr => c.stencilSameDimsOneArr
  | .stencilReuseOffset => c.stencilReuseOffset
  | .stencilInDim => c.stencilInDim
  | .ubInDc => c.ubInDc

/-- The catalog with the given tables. -/
def ofFn (f : (t : TableId) → Table t.Outcome) : Catalog where
  loopSeqNum := f .loopSeqNum
  loopNestDepth := f .loopNestDepth
  scopeStmtNum := f .scopeStmtNum
  itersStep := f .itersStep
  stmtKindStruct := f .stmtKindStruct
  elseBr := f .elseBr
  stmtKindPop := f .stmtKindPop
  intType := f .intType
  newArrNum := f .newArrNum
  outKind := f .outKind
  arithNode := f .arithNode
  unaryOp := f .unaryOp
  binaryOp := f .binaryOp
  cLibCall := f .cLibCall
  cxxLibCall := f .cxxLibCall
  ispcLibCall := f .ispcLibCall
  loopEndKind := f .loopEndKind
  pragmaNum := f .pragmaNum
  pragmaKind := f .pragmaKind
  mutation := f .mutation
  foreach := f .foreach
  applySimilarOp := f .applySimilarOp
  similarOp := f .similarOp
  applyConstUse := f .applyConstUse
  constUse := f .constUse
  useSpecialConst := f .useSpecialConst
  specialConst := f .specialConst
  useLsbBitEnd := f .useLsbBitEnd
  useConstOffset := f .useConstOffset
  constOffset := f .constOffset
  posConstOffset := f .posConstOffset
  replaceInBuf := f .replaceInBuf
  reuseConst := f .reuseConst
  useConstTransform := f .useConstTransform
  constTransform := f .constTransform
  allowStencil := f .allowStencil
  stencilSpan := f .stencilSpan
  arrsInStencil := f .arrsInStencil
  stencilSameDimsAll := f .stencilSameDimsAll
  stencilSameDimsOneArr := f .stencilSameDimsOneArr
  stencilReuseOffset := f .stencilReuseOffset
  stencilInDim := f .stencilInDim
  ubInDc := f .ubInDc

@[simp] theorem table_ofFn (f : (t : TableId) → Table t.Outcome) (t : TableId) :
    (ofFn f).table t = f t := by
  cases t <;> rfl

@[simp] theorem ofFn_table (c : Catalog) : ofFn c.table = c := rfl

@[ext] theorem ext {a b : Catalog} (h : ∀ t, a.table t = b.table t) : a = b := by
  rw [← ofFn_table a, ← ofFn_table b, funext h]

/-- The catalog with another table under one name. -/
def set (c : Catalog) (t : TableId) (table : Table t.Outcome) : Catalog :=
  ofFn fun u => if h : t = u then h ▸ table else c.table u

@[simp] theorem table_set_self (c : Catalog) (t : TableId) (table : Table t.Outcome) :
    (c.set t table).table t = table := by
  simp [set]

@[simp] theorem table_set_of_ne (c : Catalog) {t u : TableId} (table : Table t.Outcome) (h : t ≠ u) :
    (c.set t table).table u = c.table u := by
  simp [set, h]

/-- Whether two catalogs have the same table under a name. -/
def sameTable (a b : Catalog) (t : TableId) : Bool :=
  a.table t == b.table t

/-- The names under which two catalogs differ, in declaration order. -/
def changed (a b : Catalog) : List TableId :=
  (Vocabulary.all : List TableId).filter fun t => !a.sameTable b t

/-- The total weight of every table, in declaration order. -/
def totals (c : Catalog) : List (TableId × Float) :=
  (Vocabulary.all : List TableId).map fun t => (t, (c.table t).total)

/-- The library functions of a dialect. -/
def libCall (c : Catalog) : Dialect → Table LibCall
  | .c => c.cLibCall
  | .cxx => c.cxxLibCall
  | .ispc => c.ispcLibCall

end Catalog

end FuzzPolicy
