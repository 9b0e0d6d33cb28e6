import FuzzPolicy.Catalog.Basic
import FuzzPolicy.Catalog.Fault

/-!
# Valid catalogs

A catalog fits some limits if the tables of statement kinds give statements only and the table of
expression kinds expressions only, and if every table whose counts are bounded by a limit gives some
count within the bound. Entries of weight zero do not matter, as they are never drawn.
-/

namespace FuzzPolicy.Catalog

/-- The tables of node kinds, with what they may give. -/
def placements (c : Catalog) : List (TableId × Table NodeKind × (NodeKind → Bool)) :=
  [(.stmtKindStruct, c.stmtKindStruct, NodeKind.isStmt),
    (.stmtKindPop, c.stmtKindPop, NodeKind.isStmt),
    (.arithNode, c.arithNode, NodeKind.isExpr)]

/-- A table of node kinds that must have none that does not fit. -/
def checkPlacement (t : TableId) (table : Table NodeKind) (fits : NodeKind → Bool) :
    Except ConfigFault Unit :=
  match table.support.find? fun k => !fits k with
  | some kind => .error (.misplacedKind t kind)
  | none => .ok ()

/-- The tables of counts, with the limits that bound them and the counts that are within. -/
def bounds (c : Catalog) (l : Limits) : List (TableId × Table Nat × LimitId × CountRange) :=
  [(.loopSeqNum, c.loopSeqNum, .loopSeqNumLim, ⟨0, l.loopSeqNumLim⟩),
    (.loopNestDepth, c.loopNestDepth, .loopNestDepthLim, ⟨0, l.loopNestDepthLim⟩),
    (.scopeStmtNum, c.scopeStmtNum, .scopeStmtNum, l.scopeStmtNum),
    (.constOffset, c.constOffset, .constOffset, l.constOffset),
    (.pragmaNum, c.pragmaNum, .maxPragmaNum, ⟨0, l.maxPragmaNum⟩),
    (.stencilSpan, c.stencilSpan, .maxStencilSpan, ⟨1, l.maxStencilSpan⟩),
    (.arrsInStencil, c.arrsInStencil, .maxArrsInStencil, ⟨1, l.maxArrsInStencil⟩)]

/-- A table of counts must give one that is within the limit. -/
def checkBound (t : TableId) (table : Table Nat) (limit : LimitId) (range : CountRange) :
    Except ConfigFault Unit :=
  if table.support.any range.contains then .ok () else .error (.outOfBounds t limit range.max)

/-- The first fault of the catalog under some limits, if it has one. -/
def validate (c : Catalog) (l : Limits) : Except ConfigFault Unit := do
  c.placements.forM fun (t, table, fits) => checkPlacement t table fits
  (c.bounds l).forM fun (t, table, limit, range) => checkBound t table limit range

end FuzzPolicy.Catalog
