import FuzzPolicy.Catalog.TableId
import FuzzPolicy.Document.Record
import FuzzPolicy.Table.Basic

/-!
# Tables in documents

A table is written as an array of entries, and an entry as a record of a value and its weight. How
the value is written depends on what the table gives.
-/

namespace FuzzPolicy

open Document

namespace OutcomeSort

/-- Reads an outcome. -/
def read : (s : OutcomeSort) → Tree → Reading s.Carrier
  | count => readCount
  | flag => readBool
  | node | intType | data | unary | binary | libCall | loopEnd | pragma | family | constUse
  | special => readVariant

/-- The tree of an outcome. -/
def write : (s : OutcomeSort) → s.Carrier → Tree
  | count => ofCount
  | flag => .bool
  | node | intType | data | unary | binary | libCall | loopEnd | pragma | family | constUse
  | special => ofVariant

end OutcomeSort

namespace Entry

/-- The fields of an entry. -/
inductive Field where
  | value
  | weight
  deriving DecidableEq, Repr

instance : Vocabulary Field where
  all := [.value, .weight]
  name
    | .value => "value"
    | .weight => "weight"
  mem_all a := by cases a <;> decide
  find_name a := by cases a <;> rfl

/-- How an entry is written. -/
def format (s : OutcomeSort) : Format Field where
  record := "Probability"
  closed := false
  Value
    | .value => s.Carrier
    | .weight => Float
  read
    | .value => s.read
    | .weight => readFloat

/-- Reads an entry. -/
def read (s : OutcomeSort) (t : Tree) : Reading (Entry s.Carrier) := do
  let fields ← (format s).readWhole t
  return ⟨fields .value, fields .weight⟩

/-- The tree of an entry. -/
def write (s : OutcomeSort) (e : Entry s.Carrier) : Tree :=
  ofFields [("value", s.write e.value), ("weight", ofFloat e.weight)]

end Entry

/-- Reads the entries of a table. -/
def readEntries (s : OutcomeSort) : Tree → Reading (List (Entry s.Carrier)) :=
  readList (Entry.read s)

/-- The tree of the entries of a table. -/
def writeEntries (s : OutcomeSort) : List (Entry s.Carrier) → Tree :=
  ofList (Entry.write s)

end FuzzPolicy
