import FuzzPolicy.Document.Record
import FuzzPolicy.Limits.Basic

/-!
# Limits in documents

A range is written as a record of its two ends, and limits as a record with a field for each. Fields
that are not known are skipped in both.
-/

namespace FuzzPolicy

open Document

namespace CountRange

/-- The fields of a range. -/
inductive Field where
  | min
  | max
  deriving DecidableEq, Repr

instance : Vocabulary Field where
  all := [.min, .max]
  name
    | .min => "min"
    | .max => "max"
  mem_all a := by cases a <;> decide
  find_name a := by cases a <;> rfl

/-- How a range is written. -/
def format : Format Field where
  record := "LimitRange"
  closed := false
  Value _ := Nat
  read _ := readCount

/-- Reads a range. -/
def read (t : Tree) : Reading CountRange := do
  let ends ← format.readWhole t
  return ⟨ends .min, ends .max⟩

/-- The tree of a range. -/
def write (r : CountRange) : Tree :=
  ofFields [("min", ofCount r.min), ("max", ofCount r.max)]

end CountRange

namespace LimitSort

/-- Reads the value of a limit. -/
def read : (s : LimitSort) → Tree → Reading s.Carrier
  | count => readCount
  | range => CountRange.read
  | probability => readFloat

/-- The tree of the value of a limit. -/
def write : (s : LimitSort) → s.Carrier → Tree
  | count => ofCount
  | range => CountRange.write
  | probability => ofFloat

end LimitSort

namespace Limits

/-- How limits are written. -/
def format : Format LimitId where
  record := "Limits"
  closed := false
  Value := LimitId.Value
  read l := l.sort.read

/-- Reads limits. -/
def read (t : Tree) : Reading Limits := do
  return ofFn (← format.readWhole t)

/-- The tree of limits. -/
def write (l : Limits) : Tree :=
  ofFields ((Vocabulary.all : List LimitId).map fun id =>
    (Vocabulary.name id, id.sort.write (l.get id)))

end Limits

end FuzzPolicy
