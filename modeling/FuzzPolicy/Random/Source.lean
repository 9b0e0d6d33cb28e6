/-!
# Random sources and draws

A random source is an endless row of 64-bit words and the number of words already taken from it.
Every decision of the library is a `Draw`: a function of the source, so a run is replayed by giving
it the same words again, and a law about draws is a law about every row of words.

Design points:

* Everything is built from `Draw.word`, which takes exactly one word. What a draw took can be read
  off the count in the source afterwards.
* A number below `n` is the high half of the 128-bit product of a word with `n`. A word whose
  product has a low half above the zone of `n` would make some numbers likelier than others, and is
  refused in favour of the next one.
* A row of words can be made up that is refused for ever. After `Draw.patience` refusals the next
  word is taken as it comes, so that every draw ends; the answer is below `n` all the same.
-/

namespace FuzzPolicy

/-- An endless row of words, and how many of them have been drawn. -/
structure Source where
  /-- The word at each position of the row. -/
  words : Nat → UInt64
  /-- The number of words drawn so far. -/
  drawn : Nat

/-- A value that depends on the words of a source, and the source left behind. -/
abbrev Draw (α : Type) := StateM Source α

namespace Draw

/-- The next word of the source. -/
def word : Draw UInt64 := fun s =>
  (s.words s.drawn, { s with drawn := s.drawn + 1 })

/-- The distance between neighbouring answers of `unit`, which is 2⁻⁵³. -/
def unitStep : Float :=
  Float.ofBits 0x3ca0000000000000

/-- The float in [0, 1) that the high 53 bits of a word stand for. -/
def unitOfWord (w : UInt64) : Float :=
  (w >>> 11).toFloat * unitStep

/-- A float in [0, 1), from one word. -/
def unit : Draw Float :=
  unitOfWord <$> word

/-- The greatest low half that is not refused: `n`, shifted up to 64 bits, less one. -/
def zone (n : Nat) : Nat :=
  n * Nat.pow 2 (63 - n.log2) - 1

/-- The number of words that a draw may refuse in a row. -/
def patience : Nat := 1024

/-- A number below `n`, refusing at most the given number of words. -/
def belowWithin (n : Nat) : Nat → Draw Nat
  | 0 => do
    let w ← word
    return w.toNat * n / Nat.pow 2 64
  | refusals + 1 => do
    let w ← word
    if w.toNat * n % Nat.pow 2 64 ≤ zone n then
      return w.toNat * n / Nat.pow 2 64
    else
      belowWithin n refusals

/-- A number below `n`, for `n` from 1 to 2⁶⁴. It takes at least one word, also for `n = 1`. -/
def below (n : Nat) : Draw Nat :=
  belowWithin n patience

/-- A number from `lo` to `hi`, both included, for `lo ≤ hi < 2⁶⁴`. -/
def between (lo hi : Nat) : Draw Nat := do
  return lo + (← below (hi - lo + 1))

/-- An integer from `lo` to `hi`, both included, for `lo ≤ hi` in the signed 64-bit range. If that
is the whole range, a word is read as the two's complement of the answer. -/
def intBetween (lo hi : Int) : Draw Int := do
  if hi - lo + 1 = Int.pow 2 64 then
    return (← word).toInt64.toInt
  else
    return lo + (← below (hi - lo + 1).toNat)

/-- The answers of a draw that is made so many times. -/
def replicate {α : Type} : Nat → Draw α → Draw (List α)
  | 0, _ => return []
  | n + 1, draw => do
    let a ← draw
    return a :: (← replicate n draw)

/-- The number of words, out of 2⁶⁴, for which an event of probability `p` happens. -/
def threshold (p : Float) : UInt64 :=
  (p * 18446744073709551616.0).toUInt64

/-- Whether an event of probability `p` happens. What is certain takes no word; what is impossible
takes one. -/
def chance (p : Float) : Draw Bool := do
  if p == 1.0 then
    return true
  else
    return (← word) < threshold p

end Draw

end FuzzPolicy
