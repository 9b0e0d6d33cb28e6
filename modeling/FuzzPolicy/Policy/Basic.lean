import FuzzPolicy.Catalog.Defaults
import FuzzPolicy.Catalog.Validity
import FuzzPolicy.Limits.Validity
import FuzzPolicy.Policy.Mode

/-!
# Policies

A policy is everything that a session decides by: its limits, its tables as they are now and as they
were at first, and the modes that account for the difference. A policy is made of valid parts only:
`Policy.ofParts` checks the limits, and then the tables against them.
-/

namespace FuzzPolicy

/-- What a session decides by. -/
structure Policy where
  limits : Limits
  /-- The tables as they are now. -/
  tables : Catalog
  /-- The tables before any mode. -/
  baseline : Catalog
  eviction : Eviction
  operatorMode : Mode OperatorFamily
  constMode : Mode ConstUse
  /-- The choices of modes so far, the latest first. -/
  recent : List ModeRecord

namespace Policy

/-- The policy of some limits and tables, if they are valid. No mode has been chosen. -/
def ofParts (limits : Limits) (tables : Catalog) (eviction : Eviction) :
    Except ConfigFault Policy := do
  limits.validate
  tables.validate limits
  return {
    limits
    tables
    baseline := tables
    eviction
    operatorMode := .unset
    constMode := .unset
    recent := [] }

/-- The policy of some limits and the default tables. -/
def ofLimits (limits : Limits) : Except ConfigFault Policy := do
  limits.validate
  let tables ← Catalog.defaults limits
  ofParts limits tables .fifo

/-- The choices of modes so far, the oldest first. -/
def log (p : Policy) : List ModeRecord :=
  p.recent.reverse

/-- Where the choice of a mode of a kind stands. -/
def mode (p : Policy) : (k : ModeKind) → Mode k.Choice
  | .operators => p.operatorMode
  | .constants => p.constMode

/-- The policy in which a choice of mode stands otherwise. -/
def setMode (p : Policy) : (k : ModeKind) → Mode k.Choice → Policy
  | .operators, mode => { p with operatorMode := mode }
  | .constants, mode => { p with constMode := mode }

end Policy

end FuzzPolicy
