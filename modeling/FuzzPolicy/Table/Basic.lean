import FuzzPolicy.Decimal.Numeral

/-!
# Weighted tables

A table is a non-empty list of values with weights. A value may stand in it more than once and then
carries the sum of its weights; an entry of weight zero is kept but never drawn.

`Table.ofEntries` accepts a list of entries exactly if a draw from it makes sense: there is an entry,
no weight is negative, infinite or not a number, and the weights add up to a positive finite float.
The sum runs from left to right and starts from -0.0, the neutral element of float addition.
-/

namespace FuzzPolicy

/-- A value and its weight. -/
structure Entry (α : Type) where
  value : α
  weight : Float
  deriving BEq, Repr

/-- Why a list of entries is no table. -/
inductive TableFault where
  /-- There is no entry. -/
  | empty
  /-- The weight at this place is negative, infinite or not a number. -/
  | invalidWeight (index : Nat) (weight : Float)
  /-- Nothing can be drawn. -/
  | nonPositiveTotal
  /-- The weights add up to infinity. -/
  | infiniteTotal
  deriving DecidableEq, Repr

namespace TableFault

/-- The text of a fault. -/
def message : TableFault → String
  | empty => "table has no entries"
  | invalidWeight index weight => s!"entry {index} has invalid weight {messageText weight}"
  | nonPositiveTotal => "total weight is not positive"
  | infiniteTotal => "total weight overflows"

end TableFault

/-- The sum of some floats, from left to right. -/
def sumFloats (ws : List Float) : Float :=
  ws.foldl (· + ·) (-0.0)

/-- The sum of the weights of some entries. -/
def totalOf {α : Type} (es : List (Entry α)) : Float :=
  sumFloats (es.map Entry.weight)

/-- A non-empty list of weighted values. -/
structure Table (α : Type) where
  entries : List (Entry α)
  nonempty : entries ≠ []
  deriving Repr

namespace Table

variable {α : Type}

/-- Two tables are the same if their entries are, weights being compared as numbers. -/
instance [BEq α] : BEq (Table α) where
  beq s t := s.entries == t.entries

/-! ### Making tables -/

/-- The place and weight of the first entry whose weight cannot be drawn by. -/
def firstInvalid (es : List (Entry α)) : Option (Nat × Float) :=
  (es.zipIdx.find? fun p => !p.1.weight.isFinite || p.1.weight < 0).map fun p => (p.2, p.1.weight)

/-- The table of some entries. -/
def ofEntries (es : List (Entry α)) : Except TableFault (Table α) :=
  if h : es = [] then
    .error .empty
  else
    match firstInvalid es with
    | some (index, weight) => .error (.invalidWeight index weight)
    | none =>
      if totalOf es ≤ 0 then .error .nonPositiveTotal
      else if (totalOf es).isFinite then .ok ⟨es, h⟩
      else .error .infiniteTotal

/-- The table of some values with their weights. -/
def ofPairs (ps : List (α × Float)) : Except TableFault (Table α) :=
  ofEntries (ps.map fun p => ⟨p.1, p.2⟩)

/-- The table in which every given value has weight one. -/
def uniform (vs : List α) : Except TableFault (Table α) :=
  ofPairs (vs.map fun v => (v, 1.0))

/-- The table that always gives one value. -/
def single (v : α) : Table α :=
  ⟨[⟨v, 1.0⟩], by simp⟩

/-- The table that gives either of two values equally often. -/
def even (v w : α) : Table α :=
  ⟨[⟨v, 1.0⟩, ⟨w, 1.0⟩], by simp⟩

/-- The table of `true` and `false` with the given weights. -/
def chance (yes no : Float) : Except TableFault (Table Bool) :=
  ofPairs [(true, yes), (false, no)]

/-- The table of the entries whose value is wanted. -/
def filter (t : Table α) (keep : α → Bool) : Except TableFault (Table α) :=
  ofEntries (t.entries.filter fun e => keep e.value)

/-! ### Looking into tables -/

/-- The first entry. -/
def first (t : Table α) : Entry α :=
  t.entries.head t.nonempty

/-- The number of entries. -/
def length (t : Table α) : Nat :=
  t.entries.length

/-- The sum of all weights. -/
def total (t : Table α) : Float :=
  totalOf t.entries

/-- The values of positive weight, in table order. -/
def support (t : Table α) : List α :=
  (t.entries.filter fun e => 0 < e.weight).map Entry.value

/-- The share of `true` in the total weight. -/
def trueProbability (t : Table Bool) : Float :=
  totalOf (t.entries.filter Entry.value) / t.total

end Table

end FuzzPolicy
