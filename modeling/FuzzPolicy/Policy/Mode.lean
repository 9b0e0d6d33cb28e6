import FuzzPolicy.Catalog.Basic

/-!
# Session modes

There are two kinds of mode. One keeps a session to a family of operators, the other to a way of
using constants. For each kind there is a gate table, which decides whether a mode applies at all, a
table of the modes, and the tables that depend on the mode.

What a mode makes of the dependent tables is worked out from the baseline, the tables as they were
before any mode, and never from what an earlier mode has left behind.
-/

namespace FuzzPolicy

/-- Where the choice of a mode stands. -/
inductive Mode (α : Type) where
  /-- No choice has been made. -/
  | unset
  /-- The choice was for no mode. -/
  | disabled
  /-- This mode was chosen. -/
  | active (mode : α)
  deriving DecidableEq, Repr

namespace Mode

variable {α : Type}

/-- Whether no choice has been made. -/
def isUnset : Mode α → Bool
  | unset => true
  | _ => false

/-- The mode that was chosen, if one was. -/
def active? : Mode α → Option α
  | active mode => some mode
  | _ => none

/-- The choice made by a draw that gave a mode or none. -/
def ofChoice : Option α → Mode α
  | some mode => active mode
  | none => disabled

end Mode

/-! ### Families of operators -/

/-- The tables that a family of operators rules. -/
structure OperatorTables where
  unary : Table UnaryOp
  binary : Table BinaryOp

/-- The entries of a table that belong to a family. If none of them can be drawn, the members of the
family are equally likely; a family without members would leave the table as it is. -/
def familyTable {α : Type} [DecidableEq α] (base : Table α) (family : List α) : Table α :=
  match base.filter fun v => family.contains v with
  | .ok table => table
  | .error _ =>
    match Table.uniform family with
    | .ok table => table
    | .error _ => base

/-- The operator tables under a family. -/
def operatorTables (family : OperatorFamily) (baseline : Catalog) : OperatorTables where
  unary := familyTable baseline.unaryOp family.unaryOps
  binary := familyTable baseline.binaryOp family.binaryOps

/-! ### Ways of using constants -/

/-- The tables that a way of using constants rules. -/
structure ConstTables where
  reuseConst : Table Bool
  useConstTransform : Table Bool
  useSpecialConst : Table Bool
  useConstOffset : Table Bool
  replaceInBuf : Table Bool

/-- A table that gives `true` three times out of four. -/
def mostlyTrue : Table Bool :=
  ⟨[⟨true, 3.0⟩, ⟨false, 1.0⟩], by simp⟩

/-- The tables about constants under a way of using them. -/
def constTables (use : ConstUse) (baseline : Catalog) : ConstTables :=
  match use with
  | .halfDef =>
    { reuseConst := .even true false
      useConstTransform := baseline.useConstTransform
      useSpecialConst := .even true false
      useConstOffset := baseline.useConstOffset
      replaceInBuf := baseline.replaceInBuf }
  | .allSame =>
    { reuseConst := .single true
      useConstTransform := .single false
      useSpecialConst := .single false
      useConstOffset := .single false
      replaceInBuf := .single false }
  | .freshSpecial =>
    { reuseConst := .single false
      useConstTransform := baseline.useConstTransform
      useSpecialConst := mostlyTrue
      useConstOffset := .even true false
      replaceInBuf := .single true }

namespace Catalog

/-- The operator tables of a catalog. -/
def operators (c : Catalog) : OperatorTables :=
  ⟨c.unaryOp, c.binaryOp⟩

/-- The catalog with other operator tables. -/
def withOperators (c : Catalog) (o : OperatorTables) : Catalog :=
  { c with unaryOp := o.unary, binaryOp := o.binary }

/-- The tables of a catalog that a way of using constants rules. -/
def constants (c : Catalog) : ConstTables where
  reuseConst := c.reuseConst
  useConstTransform := c.useConstTransform
  useSpecialConst := c.useSpecialConst
  useConstOffset := c.useConstOffset
  replaceInBuf := c.replaceInBuf

/-- The catalog with other tables about constants. -/
def withConstants (c : Catalog) (o : ConstTables) : Catalog :=
  { c with
    reuseConst := o.reuseConst
    useConstTransform := o.useConstTransform
    useSpecialConst := o.useSpecialConst
    useConstOffset := o.useConstOffset
    replaceInBuf := o.replaceInBuf }

end Catalog

/-! ### The two kinds of mode -/

/-- A kind of mode. -/
inductive ModeKind where
  /-- Similar operators. -/
  | operators
  /-- The use of constants. -/
  | constants
  deriving DecidableEq, Repr

namespace ModeKind

instance : Vocabulary ModeKind where
  all := [operators, constants]
  name
    | operators => "similar_operators"
    | constants => "const_use"
  mem_all a := by cases a <;> decide
  find_name a := by cases a <;> rfl

/-- The modes of a kind. -/
abbrev Choice : ModeKind → Type
  | operators => OperatorFamily
  | constants => ConstUse

instance instVocabularyChoice : (k : ModeKind) → Vocabulary k.Choice
  | operators => inferInstanceAs (Vocabulary OperatorFamily)
  | constants => inferInstanceAs (Vocabulary ConstUse)

/-- The tables that a mode of the kind may change. -/
def dependents : ModeKind → List TableId
  | operators => [.unaryOp, .binaryOp]
  | constants =>
    [.reuseConst, .useConstTransform, .useSpecialConst, .useConstOffset, .replaceInBuf]

/-- The table that decides whether a mode of the kind applies. -/
def gate : ModeKind → Catalog → Table Bool
  | operators, c => c.applySimilarOp
  | constants, c => c.applyConstUse

/-- The table of the modes of the kind. -/
def choices : (k : ModeKind) → Catalog → Table k.Choice
  | operators, c => c.similarOp
  | constants, c => c.constUse

/-- The tables after a choice: what the mode makes of the baseline, or the baseline itself, in place
of the dependent tables. -/
def tablesAfter (baseline current : Catalog) : (k : ModeKind) → Option k.Choice → Catalog
  | operators, some family => current.withOperators (operatorTables family baseline)
  | operators, none => current.withOperators baseline.operators
  | constants, some use => current.withConstants (constTables use baseline)
  | constants, none => current.withConstants baseline.constants

/-- A choice of a mode of the kind, or of none. -/
def choose (k : ModeKind) (c : Catalog) : Draw (Option k.Choice) := do
  if ← (k.gate c).sample then
    return some (← (k.choices c).sample)
  else
    return none

end ModeKind

/-- What happened at a choice of mode. -/
structure ModeRecord where
  kind : ModeKind
  /-- The mode that was chosen, if one was. -/
  selected : Option kind.Choice
  /-- The tables that are not as they were before. -/
  overwritten : List TableId
  /-- Whether an earlier choice was discarded. -/
  reselected : Bool

/-- The name of the mode that was chosen, if one was. -/
def ModeRecord.selectedName (r : ModeRecord) : Option String :=
  r.selected.map Vocabulary.name

end FuzzPolicy
