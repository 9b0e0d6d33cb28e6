import FuzzPolicy.Decimal.Numeral

/-!
# Reading numerals

A numeral is read in one pass. Its digits are gathered in a number of 64 bits, that number is made a
double, and the double is multiplied or divided by a power of ten.

* Digits that do not fit any more are dropped. Those before the point still count for the size of the
  number, those behind it do not.
* The digits, the power of ten and the product or quotient are each rounded. So the double that is
  read may lie a little beside the one nearest to the numeral, and a double that is written with
  seventeen digits need not be the one that is read back. If the digits are below 2⁵³ and the power
  is at most 10²², only the last of the three steps can round, and the nearest double is read.
-/

namespace FuzzPolicy

namespace Decimal

/-- The double nearest to a power of ten. From 10³⁰⁹ on it is infinity. -/
def powerOfTen (k : Nat) : Float :=
  nearest (Nat.pow 10 (min k 309)) 1

/-- The digits as a double, multiplied or divided by a power of ten. No finite double is a power beyond
10³⁰⁸. A number that is multiplied by one becomes infinite. A number is divided by one in two steps, the
first by 10³⁰⁸; digits of 64 bits come to zero if the second is by as much. -/
def scaled (d : Decimal) : Float :=
  let x := nearest d.digits 1
  let k := d.exponent.natAbs
  if d.digits = 0 then x
  else if 0 ≤ d.exponent then x * powerOfTen k
  else if k ≤ 308 then x / powerOfTen k
  else x / powerOfTen 308 / powerOfTen (min (k - 308) 308)

end Decimal

namespace Numeral

/-- Appends digits to a number as long as it has 64 bits. Answers the number, and the digits that are
left over from the first that does not fit. -/
def gather : Nat → List Char → Nat × List Char
  | k, [] => (k, [])
  | k, c :: cs =>
    if snoc k c < Nat.pow 2 64 then gather (snoc k c) cs else (k, c :: cs)

/-- The magnitude of a numeral, as far as 64 bits hold its digits. -/
def leading (n : Numeral) : Decimal :=
  let scale : Int := match n.exponent with
    | none => 0
    | some e => e.value
  let (k, dropped) := gather 0 n.whole
  let (digits, rest) := gather k n.fraction
  ⟨digits, scale + dropped.length + rest.length - n.fraction.length⟩

/-- The double that a numeral is read as. A numeral keeps its sign also if it is zero. -/
def toFloat (n : Numeral) : Float :=
  if n.negative then -n.leading.scaled else n.leading.scaled

end Numeral

end FuzzPolicy
