import FuzzPolicy.Vocabulary.Basic

/-!
# Operators and library calls

The operators of the generated expressions, with the symbols they are printed as, and the library
functions, with the dialects in which they can be called.
-/

namespace FuzzPolicy

/-- An operator with one operand. -/
inductive UnaryOp where
  | plus
  | negate
  | logNot
  | bitNot
  deriving DecidableEq, Repr

namespace UnaryOp

instance : Vocabulary UnaryOp where
  all := [plus, negate, logNot, bitNot]
  name
    | plus => "plus"
    | negate => "negate"
    | logNot => "log_not"
    | bitNot => "bit_not"
  mem_all a := by cases a <;> decide
  find_name a := by cases a <;> rfl

/-- The operator as it stands in program text. -/
def symbol : UnaryOp → String
  | plus => "+"
  | negate => "-"
  | logNot => "!"
  | bitNot => "~"

end UnaryOp

/-- An operator with two operands. -/
inductive BinaryOp where
  | add
  | sub
  | mul
  | div
  | mod
  | lt
  | gt
  | le
  | ge
  | eq
  | ne
  | logAnd
  | logOr
  | bitAnd
  | bitOr
  | bitXor
  | shl
  | shr
  deriving DecidableEq, Repr

namespace BinaryOp

instance : Vocabulary BinaryOp where
  all := [add, sub, mul, div, mod, lt, gt, le, ge, eq, ne, logAnd, logOr, bitAnd, bitOr, bitXor,
    shl, shr]
  name
    | add => "add"
    | sub => "sub"
    | mul => "mul"
    | div => "div"
    | mod => "mod"
    | lt => "lt"
    | gt => "gt"
    | le => "le"
    | ge => "ge"
    | eq => "eq"
    | ne => "ne"
    | logAnd => "log_and"
    | logOr => "log_or"
    | bitAnd => "bit_and"
    | bitOr => "bit_or"
    | bitXor => "bit_xor"
    | shl => "shl"
    | shr => "shr"
  mem_all a := by cases a <;> decide
  find_name a := by cases a <;> rfl

/-- The operator as it stands in program text. -/
def symbol : BinaryOp → String
  | add => "+"
  | sub => "-"
  | mul => "*"
  | div => "/"
  | mod => "%"
  | lt => "<"
  | gt => ">"
  | le => "<="
  | ge => ">="
  | eq => "=="
  | ne => "!="
  | logAnd => "&&"
  | logOr => "||"
  | bitAnd => "&"
  | bitOr => "|"
  | bitXor => "^"
  | shl => "<<"
  | shr => ">>"

end BinaryOp

/-- A library function that an expression can call. -/
inductive LibCall where
  | min
  | max
  | select
  | any
  | all
  | none
  | redMin
  | redMax
  | redEq
  | extract
  deriving DecidableEq, Repr

namespace LibCall

instance : Vocabulary LibCall where
  all := [.min, .max, .select, .any, .all, .none, .redMin, .redMax, .redEq, .extract]
  name
    | .min => "min"
    | .max => "max"
    | .select => "select"
    | .any => "any"
    | .all => "all"
    | .none => "none"
    | .redMin => "red_min"
    | .redMax => "red_max"
    | .redEq => "red_eq"
    | .extract => "extract"
  mem_all a := by cases a <;> decide
  find_name a := by cases a <;> rfl

/-- Whether the result depends on the lanes beside the caller's own. -/
def isCrossLane : LibCall → Bool
  | .min | .max | .select => false
  | _ => true

end LibCall

/-- The language that the program is written in. -/
inductive Dialect where
  | c
  | cxx
  | ispc
  deriving DecidableEq, Repr

instance : Vocabulary Dialect where
  all := [.c, .cxx, .ispc]
  name
    | .c => "c"
    | .cxx => "cxx"
    | .ispc => "ispc"
  mem_all a := by cases a <;> decide
  find_name a := by cases a <;> rfl

end FuzzPolicy
