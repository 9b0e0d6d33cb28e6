import FuzzPolicy.Vocabulary.Operator

/-!
# Modes

A mode biases a whole session at once: towards one family of operators, or towards one way of using
constants. This module names the modes and the vocabularies that go with them.
-/

namespace FuzzPolicy

/-- A family of operators that optimisers treat alike. -/
inductive OperatorFamily where
  | additive
  | bitwise
  | logic
  | mul
  | bitSh
  | addMul
  deriving DecidableEq, Repr

namespace OperatorFamily

instance : Vocabulary OperatorFamily where
  all := [additive, bitwise, logic, mul, bitSh, addMul]
  name
    | additive => "additive"
    | bitwise => "bitwise"
    | logic => "logic"
    | mul => "mul"
    | bitSh => "bit_sh"
    | addMul => "add_mul"
  mem_all a := by cases a <;> decide
  find_name a := by cases a <;> rfl

/-- The unary operators of the family. -/
def unaryOps : OperatorFamily → List UnaryOp
  | additive | mul | addMul => [.plus, .negate]
  | bitwise | bitSh => [.bitNot]
  | logic => [.logNot]

/-- The binary operators of the family. -/
def binaryOps : OperatorFamily → List BinaryOp
  | additive => [.add, .sub]
  | bitwise => [.bitAnd, .bitOr, .bitXor]
  | logic => [.lt, .gt, .le, .ge, .eq, .ne, .logAnd, .logOr]
  | mul => [.mul, .div, .mod]
  | bitSh => [.shl, .shr]
  | addMul => [.add, .sub, .mul, .div, .mod]

end OperatorFamily

/-- A way of using constants that holds for a whole session. -/
inductive ConstUse where
  /-- Half of the constants are taken from those seen before. -/
  | halfDef
  /-- Constants are repeated as they are. -/
  | allSame
  /-- Constants are always new, and often special. -/
  | freshSpecial
  deriving DecidableEq, Repr

instance : Vocabulary ConstUse where
  all := [.halfDef, .allSame, .freshSpecial]
  name
    | .halfDef => "half_def"
    | .allSame => "all_same"
    | .freshSpecial => "fresh_special"
  mem_all a := by cases a <;> decide
  find_name a := by cases a <;> rfl

/-- A constant that stands out in its type. -/
inductive SpecialConst where
  | zero
  | min
  | max
  /-- A block of ones among zeros. -/
  | bitBlock
  /-- Ones at the end of the word. -/
  | endBits
  deriving DecidableEq, Repr

instance : Vocabulary SpecialConst where
  all := [.zero, .min, .max, .bitBlock, .endBits]
  name
    | .zero => "zero"
    | .min => "min"
    | .max => "max"
    | .bitBlock => "bit_block"
    | .endBits => "end_bits"
  mem_all a := by cases a <;> decide
  find_name a := by cases a <;> rfl

/-- How a full buffer of constants makes room. -/
inductive Eviction where
  /-- The oldest value leaves. -/
  | fifo
  /-- A value chosen at random leaves, and the new one takes its place. -/
  | randomReplace
  deriving DecidableEq, Repr

instance : Vocabulary Eviction where
  all := [.fifo, .randomReplace]
  name
    | .fifo => "fifo"
    | .randomReplace => "random_replace"
  mem_all a := by cases a <;> decide
  find_name a := by cases a <;> rfl

end FuzzPolicy
