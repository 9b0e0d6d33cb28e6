import FuzzPolicy.Table.Range
import FuzzPolicy.Vocabulary.Basic

/-!
# Limits

Tables only bias what the generator does; limits are what makes it stop. This module has the limits
of a session as a structure, and beside it their ids: documents and messages name a limit by its id,
and `Limits.get` and `Limits.ofFn` go from one view to the other.
-/

namespace FuzzPolicy

/-- What kind of value a limit has. -/
inductive LimitSort where
  /-- A number of things. -/
  | count
  /-- A range for a number of things. -/
  | range
  /-- A probability. -/
  | probability
  deriving DecidableEq, Repr

/-- The values of a kind of limit. -/
abbrev LimitSort.Carrier : LimitSort → Type
  | count => Nat
  | range => CountRange
  | probability => Float

/-- Values of a kind of limit are compared as numbers. -/
instance LimitSort.instBEqCarrier : (s : LimitSort) → BEq s.Carrier
  | count => inferInstanceAs (BEq Nat)
  | range => inferInstanceAs (BEq CountRange)
  | probability => inferInstanceAs (BEq Float)

/-- The name of a limit. -/
inductive LimitId where
  | stmtNumLim
  | loopSeqNumLim
  | loopNestDepthLim
  | loopDepthLimit
  | ifElseDepthLimit
  | scopeStmtNum
  | itersEndLimit
  | inpVarsNum
  | newArrNum
  | maxArithDepth
  | constOffset
  | maxPragmaNum
  | maxStencilSpan
  | maxArrsInStencil
  | constBufSize
  | alternation
  deriving DecidableEq, Repr

namespace LimitId

instance : Vocabulary LimitId where
  all := [stmtNumLim, loopSeqNumLim, loopNestDepthLim, loopDepthLimit, ifElseDepthLimit, scopeStmtNum,
    itersEndLimit, inpVarsNum, newArrNum, maxArithDepth, constOffset, maxPragmaNum,
    maxStencilSpan, maxArrsInStencil, constBufSize, alternation]
  name
    | stmtNumLim => "stmt_num_lim"
    | loopSeqNumLim => "loop_seq_num_lim"
    | loopNestDepthLim => "loop_nest_depth_lim"
    | loopDepthLimit => "loop_depth_limit"
    | ifElseDepthLimit => "if_else_depth_limit"
    | scopeStmtNum => "scope_stmt_num"
    | itersEndLimit => "iters_end_limit"
    | inpVarsNum => "inp_vars_num"
    | newArrNum => "new_arr_num"
    | maxArithDepth => "max_arith_depth"
    | constOffset => "const_offset"
    | maxPragmaNum => "max_pragma_num"
    | maxStencilSpan => "max_stencil_span"
    | maxArrsInStencil => "max_arrs_in_stencil"
    | constBufSize => "const_buf_size"
    | alternation => "stencil_prob_weight_alternation"
  mem_all a := by cases a <;> decide
  find_name a := by cases a <;> rfl

/-- What kind of value the limit has. -/
abbrev sort : LimitId → LimitSort
  | scopeStmtNum | itersEndLimit | inpVarsNum | newArrNum | constOffset => .range
  | alternation => .probability
  | _ => .count

/-- The values that the limit takes. -/
abbrev Value (l : LimitId) : Type :=
  l.sort.Carrier

end LimitId

/-- The number of constants remembered if nothing else is said. -/
def defaultConstBufSize : Nat := 5

/-- The limits of a session. -/
structure Limits where
  /-- Statements in the whole program. -/
  stmtNumLim : Nat
  /-- Loops in one sequence of loops. -/
  loopSeqNumLim : Nat
  /-- Loops in one nest. -/
  loopNestDepthLim : Nat
  /-- Loops around a statement, over all scopes. -/
  loopDepthLimit : Nat
  /-- Conditionals around a statement. -/
  ifElseDepthLimit : Nat
  /-- Statements in one scope. -/
  scopeStmtNum : CountRange
  /-- Where a loop iterator ends. -/
  itersEndLimit : CountRange
  /-- Input variables of the program. -/
  inpVarsNum : CountRange
  /-- Arrays that a loop scope adds. -/
  newArrNum : CountRange
  /-- Levels of one expression. -/
  maxArithDepth : Nat
  /-- Distance of a constant from the one it is made of. -/
  constOffset : CountRange
  /-- Pragmas before one loop. -/
  maxPragmaNum : Nat
  /-- Distance of a stencil's neighbours. -/
  maxStencilSpan : Nat
  /-- Arrays in one stencil. -/
  maxArrsInStencil : Nat
  /-- Constants that are remembered. -/
  constBufSize : Nat
  /-- How likely a stencil repeats the one before the last. -/
  alternation : Float
  deriving BEq, Repr

namespace Limits

/-- The value of a limit. -/
def get (l : Limits) : (id : LimitId) → id.Value
  | .stmtNumLim => l.stmtNumLim
  | .loopSeqNumLim => l.loopSeqNumLim
  | .loopNestDepthLim => l.loopNestDepthLim
  | .loopDepthLimit => l.loopDepthLimit
  | .ifElseDepthLimit => l.ifElseDepthLimit
  | .scopeStmtNum => l.scopeStmtNum
  | .itersEndLimit => l.itersEndLimit
  | .inpVarsNum => l.inpVarsNum
  | .newArrNum => l.newArrNum
  | .maxArithDepth => l.maxArithDepth
  | .constOffset => l.constOffset
  | .maxPragmaNum => l.maxPragmaNum
  | .maxStencilSpan => l.maxStencilSpan
  | .maxArrsInStencil => l.maxArrsInStencil
  | .constBufSize => l.constBufSize
  | .alternation => l.alternation

/-- The limits with the given values. -/
def ofFn (f : (id : LimitId) → id.Value) : Limits where
  stmtNumLim := f .stmtNumLim
  loopSeqNumLim := f .loopSeqNumLim
  loopNestDepthLim := f .loopNestDepthLim
  loopDepthLimit := f .loopDepthLimit
  ifElseDepthLimit := f .ifElseDepthLimit
  scopeStmtNum := f .scopeStmtNum
  itersEndLimit := f .itersEndLimit
  inpVarsNum := f .inpVarsNum
  newArrNum := f .newArrNum
  maxArithDepth := f .maxArithDepth
  constOffset := f .constOffset
  maxPragmaNum := f .maxPragmaNum
  maxStencilSpan := f .maxStencilSpan
  maxArrsInStencil := f .maxArrsInStencil
  constBufSize := f .constBufSize
  alternation := f .alternation

@[simp] theorem get_ofFn (f : (id : LimitId) → id.Value) (id : LimitId) : (ofFn f).get id = f id := by
  cases id <;> rfl

/-- The limits of a session that says nothing about them. -/
def default : Limits where
  stmtNumLim := 1000
  loopSeqNumLim := 4
  loopNestDepthLim := 3
  loopDepthLimit := 5
  ifElseDepthLimit := 5
  scopeStmtNum := ⟨1, 5⟩
  itersEndLimit := ⟨30, 200⟩
  inpVarsNum := ⟨20, 60⟩
  newArrNum := ⟨1, 3⟩
  maxArithDepth := 5
  constOffset := ⟨1, 5⟩
  maxPragmaNum := 3
  maxStencilSpan := 4
  maxArrsInStencil := 4
  constBufSize := defaultConstBufSize
  alternation := 0.75

instance : Inhabited Limits := ⟨default⟩

/-- The greatest distance of a constant from the one it is made of. -/
def maxOffset (l : Limits) : Nat :=
  l.constOffset.max

end Limits

end FuzzPolicy
