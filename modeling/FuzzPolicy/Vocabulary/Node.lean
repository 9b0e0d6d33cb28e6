import FuzzPolicy.Vocabulary.Basic

/-!
# Nodes of the generated program

The kinds of expression and statement that the generator can put into a program, and the classes
that its limits speak of: leaves end an expression, loops and conditionals open a new scope.
-/

namespace FuzzPolicy

/-- A kind of node: the first nine are expressions, the others statements. -/
inductive NodeKind where
  /-- A literal constant. -/
  | const
  /-- A use of a scalar variable. -/
  | scalarVarUse
  /-- A use of an array element. -/
  | arrayUse
  /-- A use of a loop iterator. -/
  | iterUse
  /-- A conversion to another integer type. -/
  | typeCast
  /-- A unary operator and its operand. -/
  | unary
  /-- A binary operator and its operands. -/
  | binary
  /-- A conditional expression. -/
  | ternary
  /-- A call of a library function. -/
  | call
  /-- An assignment. -/
  | assign
  /-- A declaration. -/
  | decl
  /-- A sequence of loops, one after the other. -/
  | loopSeq
  /-- Loops nested in each other. -/
  | loopNest
  /-- A conditional with one or two branches. -/
  | ifElse
  /-- A place filled by a simple statement later. -/
  | stubStmt
  deriving DecidableEq, Repr

namespace NodeKind

instance : Vocabulary NodeKind where
  all := [const, scalarVarUse, arrayUse, iterUse, typeCast, unary, binary, ternary, call,
    assign, decl, loopSeq, loopNest, ifElse, stubStmt]
  name
    | const => "const"
    | scalarVarUse => "scalar_var_use"
    | arrayUse => "array_use"
    | iterUse => "iter_use"
    | typeCast => "type_cast"
    | unary => "unary"
    | binary => "binary"
    | ternary => "ternary"
    | call => "call"
    | assign => "assign"
    | decl => "decl"
    | loopSeq => "loop_seq"
    | loopNest => "loop_nest"
    | ifElse => "if_else"
    | stubStmt => "stub_stmt"
  mem_all a := by cases a <;> decide
  find_name a := by cases a <;> rfl

/-- An expression that has no operands. -/
def isLeaf : NodeKind → Bool
  | const | scalarVarUse | arrayUse | iterUse => true
  | _ => false

/-- A node that stands for a value. -/
def isExpr : NodeKind → Bool
  | const | scalarVarUse | arrayUse | iterUse | typeCast | unary | binary | ternary | call => true
  | _ => false

/-- A node that stands for an action. -/
def isStmt (k : NodeKind) : Bool :=
  !k.isExpr

/-- A statement that nests deeper loops. -/
def isLoop : NodeKind → Bool
  | loopSeq | loopNest => true
  | _ => false

/-- A statement that opens a scope of its own. -/
def isCompound : NodeKind → Bool
  | loopSeq | loopNest | ifElse => true
  | _ => false

end NodeKind

/-- Where a value of the program lives. -/
inductive DataKind where
  /-- A scalar variable. -/
  | var
  /-- An array. -/
  | arr
  /-- A loop iterator. -/
  | iter
  deriving DecidableEq, Repr

instance : Vocabulary DataKind where
  all := [.var, .arr, .iter]
  name
    | .var => "var"
    | .arr => "arr"
    | .iter => "iter"
  mem_all a := by cases a <;> decide
  find_name a := by cases a <;> rfl

/-- What bounds a loop. -/
inductive LoopEnd where
  /-- A literal. -/
  | const
  /-- A variable. -/
  | var
  /-- An expression. -/
  | expr
  deriving DecidableEq, Repr

instance : Vocabulary LoopEnd where
  all := [.const, .var, .expr]
  name
    | .const => "const"
    | .var => "var"
    | .expr => "expr"
  mem_all a := by cases a <;> decide
  find_name a := by cases a <;> rfl

/-- A hint to the compiler that may stand before a loop. -/
inductive Pragma where
  | clangVectorize
  | clangInterleave
  | clangVecPredicate
  | clangUnroll
  | gccIvdep
  | gccUnroll
  | ompSimd
  deriving DecidableEq, Repr

instance : Vocabulary Pragma where
  all := [.clangVectorize, .clangInterleave, .clangVecPredicate, .clangUnroll, .gccIvdep,
    .gccUnroll, .ompSimd]
  name
    | .clangVectorize => "clang_vectorize"
    | .clangInterleave => "clang_interleave"
    | .clangVecPredicate => "clang_vec_predicate"
    | .clangUnroll => "clang_unroll"
    | .gccIvdep => "gcc_ivdep"
    | .gccUnroll => "gcc_unroll"
    | .ompSimd => "omp_simd"
  mem_all a := by cases a <;> decide
  find_name a := by cases a <;> rfl

/-- Whether the code at hand can be executed. -/
inductive Region where
  /-- Code that runs. -/
  | live
  /-- Code that is never reached. -/
  | dead
  deriving DecidableEq, Repr

instance : Vocabulary Region where
  all := [.live, .dead]
  name
    | .live => "live"
    | .dead => "dead"
  mem_all a := by cases a <;> decide
  find_name a := by cases a <;> rfl

end FuzzPolicy
