import FuzzPolicy.Table.Basic

/-!
# Ranges of counts

A range is given by its least and its greatest count, both included. Ranges bound the counts that the
generator decides on, and a range of moderate width can be made a table in which every count of the
range has weight one.
-/

namespace FuzzPolicy

/-- The greatest number of entries in the table of a range. -/
def maxRangeLength : Nat := 4096

/-- What is wrong with a range. -/
inductive RangeFault where
  /-- The least count is above the greatest. -/
  | inverted (min max : Nat)
  /-- The range has too many counts for a table. -/
  | tooWide (min max : Nat)
  deriving DecidableEq, Repr

namespace RangeFault

/-- The text of a fault of the range with the given name. -/
def message (name : String) : RangeFault → String
  | inverted min max => s!"range `{name}` is inverted (min {min} > max {max})"
  | tooWide min max =>
    s!"range `{name}` spans {min}..={max}, wider than {maxRangeLength} entries"

end RangeFault

/-- The counts from `min` to `max`, both included. -/
structure CountRange where
  min : Nat
  max : Nat
  deriving DecidableEq, Repr

namespace CountRange

/-- The range of a count that has only an upper limit: from one, or zero if nothing else is
allowed. -/
def upTo (n : Nat) : CountRange :=
  ⟨Min.min n 1, n⟩

/-- Whether a count is in the range. -/
def contains (r : CountRange) (n : Nat) : Bool :=
  r.min ≤ n && n ≤ r.max

/-- The difference of the ends. -/
def width (r : CountRange) : Nat :=
  r.max - r.min

/-- A range must not be inverted. -/
def checkOrder (r : CountRange) : Except RangeFault Unit :=
  if r.max < r.min then .error (.inverted r.min r.max) else .ok ()

/-- A range that becomes a table must not be too wide. -/
def checkWidth (r : CountRange) : Except RangeFault Unit :=
  if maxRangeLength ≤ r.width then .error (.tooWide r.min r.max) else .ok ()

/-- The counts of the range, in order. -/
def toList (r : CountRange) : List Nat :=
  List.range' r.min (r.width + 1)

theorem contains_iff {r : CountRange} {n : Nat} : r.contains n = true ↔ r.min ≤ n ∧ n ≤ r.max := by
  simp [contains]

/-- The list has the counts of the range and no others, if the ends are in order. -/
theorem mem_toList_iff {r : CountRange} (h : r.min ≤ r.max) {n : Nat} :
    n ∈ r.toList ↔ r.contains n = true := by
  rw [toList, List.mem_range'_1, contains_iff, width]
  omega

@[simp] theorem length_toList (r : CountRange) : r.toList.length = r.width + 1 := by
  simp [toList]

theorem toList_ne_nil (r : CountRange) : r.toList ≠ [] := by
  simp [toList]

/-- The table in which every count of the range has weight one. -/
def table (r : CountRange) : Except RangeFault (Table Nat) :=
  match r.checkOrder, r.checkWidth with
  | .error fault, _ => .error fault
  | _, .error fault => .error fault
  | .ok (), .ok () =>
    .ok ⟨r.toList.map fun n => ⟨n, 1.0⟩, by simpa using r.toList_ne_nil⟩

end CountRange

end FuzzPolicy
