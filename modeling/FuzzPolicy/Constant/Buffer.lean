import FuzzPolicy.Table.Sample
import FuzzPolicy.Vocabulary.Mode

/-!
# The buffer of constants

A session remembers some of the constants it has made, so that they can be used again. The buffer has
a fixed capacity. A constant that is offered is kept as long as there is room; after that a table
decides whether it replaces another one, and the eviction policy which.
-/

namespace FuzzPolicy

/-- What became of a constant that was offered. -/
inductive Offer (α : Type) where
  /-- There was room for it. -/
  | inserted
  /-- It took the place of another. -/
  | replaced (old : α)
  /-- It was not kept. -/
  | rejected
  deriving DecidableEq, Repr

/-- Constants that are remembered, the oldest first as far as the eviction policy keeps order. -/
structure ConstBuffer (α : Type) where
  values : List α
  capacity : Nat
  eviction : Eviction
  deriving DecidableEq, Repr

namespace ConstBuffer

variable {α : Type}

/-- The empty buffer. -/
def empty (capacity : Nat) (eviction : Eviction) : ConstBuffer α :=
  ⟨[], capacity, eviction⟩

/-- The number of constants remembered. -/
def length (b : ConstBuffer α) : Nat :=
  b.values.length

/-- Whether no constant is remembered. -/
def isEmpty (b : ConstBuffer α) : Bool :=
  b.values.isEmpty

/-- Whether there is no more room. -/
def isFull (b : ConstBuffer α) : Bool :=
  b.capacity ≤ b.length

/-- The constant at a place. -/
def get? (b : ConstBuffer α) (index : Nat) : Option α :=
  b.values[index]?

/-- Puts a constant into a full buffer: behind the others in place of the oldest one, or where
another one was that is chosen at random. -/
def replaceWith (b : ConstBuffer α) (value : α) : Draw (Offer α × ConstBuffer α) :=
  match b.values with
  | [] => return (.rejected, b)
  | oldest :: others =>
    match b.eviction with
    | .fifo => return (.replaced oldest, { b with values := others ++ [value] })
    | .randomReplace => do
      let index ← Draw.below b.length
      return (.replaced (b.values.getD index oldest), { b with values := b.values.set index value })

/-- Offers a constant. The table is asked only if there is no more room. -/
def offer (b : ConstBuffer α) (replace : Table Bool) (value : α) :
    Draw (Offer α × ConstBuffer α) := do
  if b.capacity = 0 then
    return (.rejected, b)
  else if !b.isFull then
    return (.inserted, { b with values := b.values ++ [value] })
  else if ← replace.sample then
    b.replaceWith value
  else
    return (.rejected, b)

end ConstBuffer

end FuzzPolicy
