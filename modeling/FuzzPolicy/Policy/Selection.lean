import FuzzPolicy.Policy.Basic

/-!
# Choosing modes

A mode is chosen once per session, by `Policy.select`; asking again gives the same answer and takes
nothing from the source. `Policy.reselect` discards the choice and makes a new one.

A choice draws from the gate table and, if the gate is open, from the table of modes. Then the
dependent tables are replaced together and the choice is recorded, with the tables that it changed.
-/

namespace FuzzPolicy.Policy

/-- The policy after a choice: dependent tables, mode and log follow it. -/
def adopt (p : Policy) (k : ModeKind) (choice : Option k.Choice) (reselected : Bool) : Policy :=
  let tables := k.tablesAfter p.baseline p.tables choice
  let record : ModeRecord :=
    { kind := k, selected := choice, overwritten := p.tables.changed tables, reselected }
  { p with tables, recent := record :: p.recent }.setMode k (.ofChoice choice)

/-- A choice adds one record at the end of the log. -/
theorem log_adopt (p : Policy) (k : ModeKind) (choice : Option k.Choice) (reselected : Bool) :
    (p.adopt k choice reselected).log = p.log ++ [{
      kind := k
      selected := choice
      overwritten := p.tables.changed (k.tablesAfter p.baseline p.tables choice)
      reselected }] := by
  cases k <;> simp [adopt, setMode, log]

/-- Chooses a mode of a kind. -/
def roll (p : Policy) (k : ModeKind) (reselected : Bool) : Draw (Mode k.Choice × Policy) := do
  let choice ← k.choose p.tables
  return (.ofChoice choice, p.adopt k choice reselected)

/-- Chooses a mode of a kind, unless that has been done. -/
def select (p : Policy) (k : ModeKind) : Draw (Mode k.Choice × Policy) :=
  if (p.mode k).isUnset then p.roll k false else return (p.mode k, p)

/-- Chooses a mode of a kind, whatever was chosen before. -/
def reselect (p : Policy) (k : ModeKind) : Draw (Mode k.Choice × Policy) :=
  p.roll k true

end FuzzPolicy.Policy
