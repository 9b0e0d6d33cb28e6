import FuzzPolicy.Vocabulary.IntType
import FuzzPolicy.Vocabulary.Mode
import FuzzPolicy.Vocabulary.Node

/-!
# The tables of the catalog

The generator makes its choices by forty-three weighted tables. This module names them and says for
each what is drawn from it. Thirteen sorts of outcome cover all of them, so whatever has to be done
for every table is done by cases on the sort.
-/

namespace FuzzPolicy

/-- What can be drawn from a table. -/
inductive OutcomeSort where
  /-- A number of things. -/
  | count
  /-- A yes or a no. -/
  | flag
  /-- A kind of node. -/
  | node
  /-- An integer type. -/
  | intType
  /-- A kind of variable. -/
  | data
  /-- A unary operator. -/
  | unary
  /-- A binary operator. -/
  | binary
  /-- A library function. -/
  | libCall
  /-- What bounds a loop. -/
  | loopEnd
  /-- A pragma. -/
  | pragma
  /-- A family of operators. -/
  | family
  /-- A way of using constants. -/
  | constUse
  /-- A special constant. -/
  | special
  deriving DecidableEq, Repr

namespace OutcomeSort

/-- The outcomes of a sort. -/
abbrev Carrier : OutcomeSort → Type
  | count => Nat
  | flag => Bool
  | node => NodeKind
  | intType => IntType
  | data => DataKind
  | unary => UnaryOp
  | binary => BinaryOp
  | libCall => LibCall
  | loopEnd => LoopEnd
  | pragma => Pragma
  | family => OperatorFamily
  | constUse => ConstUse
  | special => SpecialConst

instance instDecidableEqCarrier : (s : OutcomeSort) → DecidableEq s.Carrier
  | count => inferInstanceAs (DecidableEq Nat)
  | flag => inferInstanceAs (DecidableEq Bool)
  | node => inferInstanceAs (DecidableEq NodeKind)
  | intType => inferInstanceAs (DecidableEq IntType)
  | data => inferInstanceAs (DecidableEq DataKind)
  | unary => inferInstanceAs (DecidableEq UnaryOp)
  | binary => inferInstanceAs (DecidableEq BinaryOp)
  | libCall => inferInstanceAs (DecidableEq LibCall)
  | loopEnd => inferInstanceAs (DecidableEq LoopEnd)
  | pragma => inferInstanceAs (DecidableEq Pragma)
  | family => inferInstanceAs (DecidableEq OperatorFamily)
  | constUse => inferInstanceAs (DecidableEq ConstUse)
  | special => inferInstanceAs (DecidableEq SpecialConst)

end OutcomeSort

/-- The name of a table. -/
inductive TableId where
  | loopSeqNum
  | loopNestDepth
  | scopeStmtNum
  | itersStep
  | stmtKindStruct
  | elseBr
  | stmtKindPop
  | intType
  | newArrNum
  | outKind
  | arithNode
  | unaryOp
  | binaryOp
  | cLibCall
  | cxxLibCall
  | ispcLibCall
  | loopEndKind
  | pragmaNum
  | pragmaKind
  | mutation
  | foreach
  | applySimilarOp
  | similarOp
  | applyConstUse
  | constUse
  | useSpecialConst
  | specialConst
  | useLsbBitEnd
  | useConstOffset
  | constOffset
  | posConstOffset
  | replaceInBuf
  | reuseConst
  | useConstTransform
  | constTransform
  | allowStencil
  | stencilSpan
  | arrsInStencil
  | stencilSameDimsAll
  | stencilSameDimsOneArr
  | stencilReuseOffset
  | stencilInDim
  | ubInDc
  deriving DecidableEq, Repr

namespace TableId

instance : Vocabulary TableId where
  all := [loopSeqNum, loopNestDepth, scopeStmtNum, itersStep, stmtKindStruct, elseBr, stmtKindPop,
    intType, newArrNum, outKind, arithNode, unaryOp, binaryOp, cLibCall, cxxLibCall,
    ispcLibCall, loopEndKind, pragmaNum, pragmaKind, mutation, foreach, applySimilarOp,
    similarOp, applyConstUse, constUse, useSpecialConst, specialConst, useLsbBitEnd,
    useConstOffset, constOffset, posConstOffset, replaceInBuf, reuseConst, useConstTransform,
    constTransform, allowStencil, stencilSpan, arrsInStencil, stencilSameDimsAll,
    stencilSameDimsOneArr, stencilReuseOffset, stencilInDim, ubInDc]
  name
    | loopSeqNum => "loop_seq_num"
    | loopNestDepth => "loop_nest_depth"
    | scopeStmtNum => "scope_stmt_num"
    | itersStep => "iters_step"
    | stmtKindStruct => "stmt_kind_struct"
    | elseBr => "else_br"
    | stmtKindPop => "stmt_kind_pop"
    | intType => "int_type"
    | newArrNum => "new_arr_num"
    | outKind => "out_kind"
    | arithNode => "arith_node"
    | unaryOp => "unary_op"
    | binaryOp => "binary_op"
    | cLibCall => "c_lib_call"
    | cxxLibCall => "cxx_lib_call"
    | ispcLibCall => "ispc_lib_call"
    | loopEndKind => "loop_end_kind"
    | pragmaNum => "pragma_num"
    | pragmaKind => "pragma_kind"
    | mutation => "mutation"
    | foreach => "foreach"
    | applySimilarOp => "apply_similar_op"
    | similarOp => "similar_op"
    | applyConstUse => "apply_const_use"
    | constUse => "const_use"
    | useSpecialConst => "use_special_const"
    | specialConst => "special_const"
    | useLsbBitEnd => "use_lsb_bit_end"
    | useConstOffset => "use_const_offset"
    | constOffset => "const_offset"
    | posConstOffset => "pos_const_offset"
    | replaceInBuf => "replace_in_buf"
    | reuseConst => "reuse_const"
    | useConstTransform => "use_const_transform"
    | constTransform => "const_transform"
    | allowStencil => "allow_stencil"
    | stencilSpan => "stencil_span"
    | arrsInStencil => "arrs_in_stencil"
    | stencilSameDimsAll => "stencil_same_dims_all"
    | stencilSameDimsOneArr => "stencil_same_dims_one_arr"
    | stencilReuseOffset => "stencil_reuse_offset"
    | stencilInDim => "stencil_in_dim"
    | ubInDc => "ub_in_dc"
  mem_all a := by cases a <;> decide
  find_name a := by cases a <;> rfl

/-- What is drawn from the table. -/
abbrev sort : TableId → OutcomeSort
  | loopSeqNum | loopNestDepth | scopeStmtNum | itersStep | newArrNum
  | pragmaNum | constOffset | stencilSpan | arrsInStencil => .count
  | stmtKindStruct | stmtKindPop | arithNode => .node
  | intType => .intType
  | outKind => .data
  | unaryOp | constTransform => .unary
  | binaryOp => .binary
  | cLibCall | cxxLibCall | ispcLibCall => .libCall
  | loopEndKind => .loopEnd
  | pragmaKind => .pragma
  | similarOp => .family
  | constUse => .constUse
  | specialConst => .special
  | _ => .flag

/-- The outcomes of the table. -/
abbrev Outcome (t : TableId) : Type :=
  t.sort.Carrier

end TableId

end FuzzPolicy
