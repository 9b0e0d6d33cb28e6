import FuzzPolicy.Catalog.Document
import FuzzPolicy.Config.Overrides
import FuzzPolicy.Document.Printer
import FuzzPolicy.Limits.Document

/-!
# Override documents

A configuration is written as a document: a record of limits, tables and eviction policy. A field that
is missing or null gives nothing. A field that is not known is refused, so a misspelt name of a limit
or table never goes unnoticed.

`PolicyConfig.ofText` reads a document and `PolicyConfig.toText` writes one.
-/

namespace FuzzPolicy

open Document

namespace LimitOverrides

/-- How overridden limits are written. -/
def format : Format LimitId where
  record := "LimitOverrides"
  closed := true
  Value l := Option l.Value
  read l := readOption l.sort.read

/-- Reads overridden limits. -/
def read (t : Tree) : Reading LimitOverrides := do
  let draft ← format.readDraft t
  return ⟨fun l => (draft l).join⟩

/-- The tree of overridden limits. -/
def write (o : LimitOverrides) : Tree :=
  ofFields ((Vocabulary.all : List LimitId).map fun l =>
    (Vocabulary.name l, ofOption l.sort.write (o.value l)))

/-- Whether two configurations override the same limits by the same values. -/
def same (o p : LimitOverrides) : Bool :=
  (Vocabulary.all : List LimitId).all fun l => o.value l == p.value l

end LimitOverrides

namespace TableOverrides

/-- How overridden tables are written. -/
def format : Format TableId where
  record := "TableOverrides"
  closed := true
  Value t := Option (List (Entry t.Outcome))
  read t := readOption (readEntries t.sort)

/-- Reads overridden tables. -/
def read (t : Tree) : Reading TableOverrides := do
  let draft ← format.readDraft t
  return ⟨fun t => (draft t).join⟩

/-- The tree of overridden tables. -/
def write (o : TableOverrides) : Tree :=
  ofFields ((Vocabulary.all : List TableId).map fun t =>
    (Vocabulary.name t, ofOption (writeEntries t.sort) (o.entries t)))

/-- Whether two configurations override the same tables by the same entries. -/
def same (o p : TableOverrides) : Bool :=
  (Vocabulary.all : List TableId).all fun t => o.entries t == p.entries t

end TableOverrides

namespace PolicyConfig

/-- The fields of a configuration. -/
inductive Field where
  | limits
  | tables
  | eviction
  deriving DecidableEq, Repr

instance : Vocabulary Field where
  all := [.limits, .tables, .eviction]
  name
    | .limits => "limits"
    | .tables => "tables"
    | .eviction => "eviction"
  mem_all a := by cases a <;> decide
  find_name a := by cases a <;> rfl

/-- How a configuration is written. -/
def format : Format Field where
  record := "PolicyConfig"
  closed := true
  Value
    | .limits => LimitOverrides
    | .tables => TableOverrides
    | .eviction => Option Eviction
  read
    | .limits => LimitOverrides.read
    | .tables => TableOverrides.read
    | .eviction => readOption readVariant

/-- Reads a configuration. -/
def read (t : Tree) : Reading PolicyConfig := do
  let draft ← format.readDraft t
  return {
    limits := (draft .limits).getD LimitOverrides.blank
    tables := (draft .tables).getD TableOverrides.blank
    eviction := Option.join (draft .eviction) }

/-- The tree of a configuration. -/
def write (c : PolicyConfig) : Tree :=
  ofFields [("limits", c.limits.write), ("tables", c.tables.write),
    ("eviction", ofOption ofVariant c.eviction)]

/-- Whether two configurations say the same. -/
def same (c d : PolicyConfig) : Bool :=
  c.limits.same d.limits && c.tables.same d.tables && c.eviction == d.eviction

/-- Reads a configuration from the text of a document. -/
def ofText (text : String) : Reading PolicyConfig :=
  readText read text

/-- The text of a configuration. -/
def toText (c : PolicyConfig) : String :=
  render c.write

end PolicyConfig

end FuzzPolicy
