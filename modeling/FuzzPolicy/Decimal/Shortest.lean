import FuzzPolicy.Decimal.Basic

/-!
# The shortest decimal of a double

The decimal that stands for a double in text has as few digits as possible: of the numbers with
`1, 2, 3, …` digits, the first that rounds back to the double. With a given number of digits only the
two neighbours of the double on that grid can do so, and of two that do the nearer one is taken.
Whichever is chosen, rounding it gives the double back; the exact expansion stands behind the search.
-/

namespace FuzzPolicy.Decimal

/-- Which neighbour stands for a double that lies half-way between two decimals. -/
inductive Tie where
  /-- The one with an even last digit. -/
  | toEven
  /-- The greater one. -/
  | up
  deriving DecidableEq, Repr

/-- The two decimals next to `d` whose unit is `10 ^ drop` times that of `d`, the nearer one first. -/
def neighbours (tie : Tie) (d : Decimal) (drop : Nat) : List Decimal :=
  let unit := Nat.pow 10 drop
  let q := d.digits / unit
  let r := d.digits % unit
  let below : Decimal := ⟨q, d.exponent + drop⟩
  let above : Decimal := ⟨q + 1, d.exponent + drop⟩
  let belowFirst : Bool :=
    if 2 * r = unit then
      match tie with
      | .toEven => q % 2 == 0
      | .up => false
    else
      2 * r < unit
  if belowFirst then [below, above] else [above, below]

/-- The number of decimal digits of a positive number. -/
def length (n : Nat) : Nat :=
  (Nat.toDigits 10 n).length

/-- The shortest decimal that rounds to the magnitude of a finite double. Seventeen digits always
suffice. -/
def shortest (tie : Tie) (x : Float) : Decimal :=
  let d := exact x
  let len := length d.digits
  let found := (List.range 17).findSome? fun i =>
    (neighbours tie d (len - (i + 1))).find? fun c => c.toFloat.toBits.toNat == pattern x
  (found.getD d).trim

end FuzzPolicy.Decimal
