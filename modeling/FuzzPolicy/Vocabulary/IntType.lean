import FuzzPolicy.Vocabulary.Basic

/-!
# Integer types

The integer types of the generated program, each with its width and the values it holds.
-/

namespace FuzzPolicy

/-- An integer type of the generated program. -/
inductive IntType where
  | bool
  | schar
  | uchar
  | short
  | ushort
  | int
  | uint
  | llong
  | ullong
  deriving DecidableEq, Repr

namespace IntType

instance : Vocabulary IntType where
  all := [bool, schar, uchar, short, ushort, int, uint, llong, ullong]
  name
    | bool => "bool"
    | schar => "schar"
    | uchar => "uchar"
    | short => "short"
    | ushort => "ushort"
    | int => "int"
    | uint => "uint"
    | llong => "llong"
    | ullong => "ullong"
  mem_all a := by cases a <;> decide
  find_name a := by cases a <;> rfl

/-- Whether the type holds negative values. -/
def isSigned : IntType → Bool
  | schar | short | int | llong => true
  | bool | uchar | ushort | uint | ullong => false

/-- The number of bits in which a value is kept. -/
def bits : IntType → Nat
  | bool => 1
  | schar | uchar => 8
  | short | ushort => 16
  | int | uint => 32
  | llong | ullong => 64

/-- The least value: a signed type gives half of its patterns to the negative numbers. -/
def minValue (t : IntType) : Int :=
  if t.isSigned then -Int.pow 2 (t.bits - 1) else 0

/-- The greatest value. -/
def maxValue (t : IntType) : Int :=
  if t.isSigned then Int.pow 2 (t.bits - 1) - 1 else Int.pow 2 t.bits - 1

end IntType

end FuzzPolicy
