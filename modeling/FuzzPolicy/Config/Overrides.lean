import FuzzPolicy.Catalog.Basic
import FuzzPolicy.Catalog.Fault

/-!
# Overrides

A configuration gives values for some of the limits, entries for some of the tables and perhaps an
eviction policy. What it does not give keeps its default.

`LimitOverrides.apply` cannot fail; the limits are checked later. `TableOverrides.apply` makes the
given entries into tables, in declaration order, and stops at the first that make none.
-/

namespace FuzzPolicy

/-- Values for some of the limits. -/
structure LimitOverrides where
  value : (l : LimitId) → Option l.Value

namespace LimitOverrides

/-- Nothing is overridden. -/
def blank : LimitOverrides := ⟨fun _ => none⟩

/-- The default limits with the given values. -/
def apply (o : LimitOverrides) : Limits :=
  Limits.ofFn fun l => (o.value l).getD (Limits.default.get l)

end LimitOverrides

/-- Entries for some of the tables. -/
structure TableOverrides where
  entries : (t : TableId) → Option (List (Entry t.Outcome))

namespace TableOverrides

/-- Nothing is overridden. -/
def blank : TableOverrides := ⟨fun _ => none⟩

/-- The tables that are overridden, in declaration order. -/
def given (o : TableOverrides) : List TableId :=
  (Vocabulary.all : List TableId).filter fun t => (o.entries t).isSome

/-- The number of tables that are overridden. -/
def count (o : TableOverrides) : Nat :=
  o.given.length

/-- Puts the given entries for some tables into a catalog. If the entries for one make no table, the
tables before it have been replaced already. -/
def applyTo (o : TableOverrides) : List TableId → Catalog → Catalog × Option ConfigFault
  | [], c => (c, none)
  | t :: ts, c =>
    match o.entries t with
    | none => applyTo o ts c
    | some es =>
      match Table.ofEntries es with
      | .ok table => applyTo o ts (c.set t table)
      | .error fault => (c, some (.table t fault))

/-- Puts the given entries into a catalog, in declaration order. -/
def apply (o : TableOverrides) (c : Catalog) : Catalog × Option ConfigFault :=
  o.applyTo Vocabulary.all c

end TableOverrides

/-- What a configuration says. -/
structure PolicyConfig where
  limits : LimitOverrides
  tables : TableOverrides
  eviction : Option Eviction

end FuzzPolicy
