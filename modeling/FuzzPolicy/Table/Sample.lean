import FuzzPolicy.Random.Source
import FuzzPolicy.Table.Basic

/-!
# Drawing from a table

A draw scales one float from [0, 1) to the total weight and walks the table until the running sum of
the positive weights exceeds it. Rounding can put the scaled float at the total itself; then the last
entry of positive weight is the answer.

The weights can be changed on the fly, for one draw, by a function of value and weight: entries for
which it answers something that is not finite and positive drop out. If nothing is left, there is no
answer, and no word is taken from the source.
-/

namespace FuzzPolicy.Table

variable {α : Type}

/-- Walks the entries until the running sum `acc` of positive weights exceeds `roll`. The value of
the last entry of positive weight seen so far is `last`. -/
def pick (roll : Float) (acc : Float) (last : α) : List (Entry α) → α
  | [] => last
  | e :: es =>
    if e.weight ≤ 0 then
      pick roll acc last es
    else if roll < acc + e.weight then
      e.value
    else
      pick roll (acc + e.weight) e.value es

/-- One draw among entries whose weights add up to `total`; `first` is the value of the first. -/
def roll (total : Float) (first : α) (es : List (Entry α)) : Draw α := do
  let u ← Draw.unit
  return pick (u * total) 0.0 first es

/-- A value, drawn by weight. -/
def sample (t : Table α) : Draw α :=
  roll t.total t.first.value t.entries

/-- The weight that a reweighting gives an entry: zero unless its answer is finite and positive. -/
def liveWeight (f : α → Float → Float) (e : Entry α) : Float :=
  let w := f e.value e.weight
  if w.isFinite && 0 < w then w else 0.0

/-- The entries under the weights of a reweighting. -/
def reweigh (t : Table α) (f : α → Float → Float) : List (Entry α) :=
  t.entries.map fun e => ⟨e.value, liveWeight f e⟩

/-- A value, drawn by the weights of a reweighting. -/
def sampleReweighted (t : Table α) (f : α → Float → Float) : Draw (Option α) := do
  let es := t.reweigh f
  let total := totalOf es
  if total ≤ 0 || !total.isFinite then
    return none
  else
    return some (← roll total t.first.value es)

/-- A value, drawn by weight among those that are wanted. -/
def sampleWhere (t : Table α) (keep : α → Bool) : Draw (Option α) :=
  t.sampleReweighted fun v w => if keep v then w else 0.0

end FuzzPolicy.Table
