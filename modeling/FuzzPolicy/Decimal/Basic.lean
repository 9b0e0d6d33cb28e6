/-!
# Decimals and doubles

A decimal is a whole number of some power of ten. A finite double is a whole number of 2⁻¹⁰⁷⁴, the
smallest positive one, so both are exact in `Nat` and a decimal is rounded to a double without any
intermediate error: `nearest` divides, rounds half to even at the 53rd bit, and writes the bits.

The bit pattern of a positive double orders like its value, and a pattern is `k · 2⁵² + m` for a
value of `m` units of `2 ^ (k - 1074)`. A significand that rounds up to 2⁵³ carries into the exponent
by itself, and so does a value past the greatest double into the pattern of infinity.
-/

namespace FuzzPolicy

/-- The bit pattern of the magnitude. -/
def pattern (x : Float) : Nat :=
  x.toBits.toNat % Nat.pow 2 63

/-- The number of units of 2⁻¹⁰⁷⁴ in the magnitude of a finite double. -/
def units (x : Float) : Nat :=
  let k := pattern x / Nat.pow 2 52
  if k = 0 then pattern x
  else (Nat.pow 2 52 + pattern x % Nat.pow 2 52) * Nat.pow 2 (k - 1)

/-- Whether the sign bit is set, as it is for -0.0. -/
def isNegative (x : Float) : Bool :=
  Nat.pow 2 63 ≤ x.toBits.toNat

/-- The whole number nearest to `num / den`; of two that are equally near, the even one. -/
def roundHalfEven (num den : Nat) : Nat :=
  let q := num / den
  let r := num % den
  if 2 * r < den then q
  else if den < 2 * r then q + 1
  else if q % 2 = 0 then q else q + 1

/-- The bit pattern of positive infinity. -/
def infinityPattern : Nat := 0x7ff0000000000000

/-- The bit pattern of the double nearest to `num / den`, for a positive `den`. -/
def nearestPattern (num den : Nat) : Nat :=
  let scaled := num * Nat.pow 2 1074
  let k := (scaled / den).log2 - 52
  min (k * Nat.pow 2 52 + roundHalfEven scaled (den * Nat.pow 2 k)) infinityPattern

/-- The double nearest to `num / den`, for a positive `den`. -/
def nearest (num den : Nat) : Float :=
  Float.ofBits (nearestPattern num den).toUInt64

/-- The number `digits · 10 ^ exponent`. -/
structure Decimal where
  digits : Nat
  exponent : Int
  deriving DecidableEq, Repr

namespace Decimal

/-- The nearest double. -/
def toFloat (d : Decimal) : Float :=
  if 0 ≤ d.exponent then nearest (d.digits * Nat.pow 10 d.exponent.toNat) 1
  else nearest d.digits (Nat.pow 10 (-d.exponent).toNat)

/-- The magnitude of a finite double, exactly. -/
def exact (x : Float) : Decimal :=
  ⟨units x * Nat.pow 5 1074, -1074⟩

/-- Takes at most the given number of zeros off the end of the digits. -/
def dropZeros : Nat → Decimal → Decimal
  | 0, d => d
  | n + 1, d =>
    if d.digits ≠ 0 ∧ d.digits % 10 = 0 then dropZeros n ⟨d.digits / 10, d.exponent + 1⟩ else d

/-- The same number, with digits that do not end in zero. -/
def trim (d : Decimal) : Decimal :=
  if d.digits = 0 then ⟨0, 0⟩ else d.dropZeros d.digits.log2

end Decimal

end FuzzPolicy
