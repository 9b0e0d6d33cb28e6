import FuzzPolicy.Decimal.Shortest

/-!
# Numerals

A numeral is a number as it stands in text: a sign, whole digits, digits after a point, an exponent.
`Numeral.render` writes one down.

How a double becomes a numeral is a matter of layout, and there are two: messages write every digit
in its place, documents change to an exponent for very large and very small numbers and always show
that the number is no integer.
-/

namespace FuzzPolicy

/-- The exponent of a numeral: a sign and digits. -/
structure Numeral.Exponent where
  negative : Bool
  digits : List Char
  deriving DecidableEq, Repr

/-- A number as it is written. Without a point there are no fraction digits. -/
structure Numeral where
  negative : Bool
  whole : List Char
  fraction : List Char
  exponent : Option Numeral.Exponent
  deriving DecidableEq, Repr

namespace Numeral

/-- The number with one more digit at its end. -/
def snoc (n : Nat) (c : Char) : Nat :=
  10 * n + (c.toNat - '0'.toNat)

/-- The number that a row of digits stands for. -/
def digitsValue (cs : List Char) : Nat :=
  cs.foldl snoc 0

/-- The digits of a number, most significant first. -/
def digitsOf (n : Nat) : List Char :=
  Nat.toDigits 10 n

/-- The signed value of an exponent. -/
def Exponent.value (e : Exponent) : Int :=
  if e.negative then -(digitsValue e.digits : Int) else digitsValue e.digits

/-- A natural number, as a numeral. -/
def ofNat (n : Nat) : Numeral :=
  ⟨false, digitsOf n, [], none⟩

/-- The characters of a numeral. A positive exponent is written with its sign. -/
def chars (n : Numeral) : List Char :=
  (if n.negative then ['-'] else []) ++ n.whole
    ++ (if n.fraction.isEmpty then [] else '.' :: n.fraction)
    ++ (match n.exponent with
      | none => []
      | some e => 'e' :: (if e.negative then '-' else '+') :: e.digits)

/-- The text of a numeral. -/
def render (n : Numeral) : String :=
  String.ofList n.chars

/-! ### Laying out a double -/

/-- How doubles are written. -/
structure Layout where
  /-- What becomes of a double half-way between two decimals. -/
  tie : Decimal.Tie
  /-- Whether a number is written without exponent, given the number of its digits before the point
  (negative for zeros between the point and the first digit). -/
  positional : Int → Bool
  /-- Whether a whole number gets a point and a zero. -/
  showsPoint : Bool

/-- Messages write every digit in its place and a whole number without a point. -/
def Layout.message : Layout where
  tie := .up
  positional _ := true
  showsPoint := false

/-- Documents write numbers from 10⁻⁵ to 10¹⁶ in their places, others with an exponent, and show a
point if there is no exponent. -/
def Layout.document : Layout where
  tie := .toEven
  positional places := -5 < places ∧ places ≤ 16
  showsPoint := true

/-- Zeros, as many as asked for. -/
def zeros (n : Nat) : List Char :=
  List.replicate n '0'

/-- Lays out a decimal. `places` is the number of digits before the point. -/
def ofDecimal (layout : Layout) (negative : Bool) (d : Decimal) : Numeral :=
  let digits := digitsOf d.digits
  let places : Int := digits.length + d.exponent
  if layout.positional places then
    if 0 ≤ d.exponent then
      ⟨negative, digits ++ zeros d.exponent.toNat, if layout.showsPoint then ['0'] else [], none⟩
    else if 0 < places then
      ⟨negative, digits.take places.toNat, digits.drop places.toNat, none⟩
    else
      ⟨negative, ['0'], zeros (-places).toNat ++ digits, none⟩
  else
    ⟨negative, digits.take 1, digits.drop 1,
      some ⟨places - 1 < 0, digitsOf (places - 1).natAbs⟩⟩

/-- The numeral of a finite double. -/
def ofFloat (layout : Layout) (x : Float) : Numeral :=
  ofDecimal layout (isNegative x) (Decimal.shortest layout.tie x)

end Numeral

/-- The text of a double in messages. -/
def messageText (x : Float) : String :=
  if x.isNaN then "NaN"
  else if x.isInf then (if isNegative x then "-inf" else "inf")
  else (Numeral.ofFloat .message x).render

end FuzzPolicy
