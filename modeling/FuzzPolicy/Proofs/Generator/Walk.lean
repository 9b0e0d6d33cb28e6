import Mathlib
import FuzzPolicy.Policy.Decision

/-!
# The walk of the generator

The generator fills a program from the outside in. A scope takes a number of statements; a loop or a
conditional among them opens further scopes, and any other statement an expression, whose nodes have
further nodes below them. All of this recursion is driven by what the policy decides, and nothing in it
counts down. So the walk is written as a partial function, as the least solution of its equations:
where it would go on for ever it has no outcome.

The walk keeps a record of the scopes and nodes it has come to, so that what it did can be said
afterwards.
-/

namespace FuzzPolicy

/-- Where a scope stands. -/
structure Place where
  /-- The loops around it. -/
  loopDepth : Nat
  /-- The conditionals around it. -/
  ifElseDepth : Nat
  /-- The scopes around it. -/
  nesting : Nat
  deriving DecidableEq, Repr

namespace Place

/-- The place of the whole program. -/
def outermost : Place := ⟨0, 0, 0⟩

/-- The scope inside of some more loops. -/
def inLoops (here : Place) (loops : Nat) : Place :=
  ⟨here.loopDepth + loops, here.ifElseDepth, here.nesting + 1⟩

/-- The scope inside of one more conditional. -/
def inIfElse (here : Place) : Place :=
  ⟨here.loopDepth, here.ifElseDepth + 1, here.nesting + 1⟩

/-- What the policy is told about a place. -/
def context (here : Place) (stmtCount : Nat) : ScopeContext :=
  ⟨here.loopDepth, here.ifElseDepth, stmtCount⟩

end Place

/-- How far the generator has come. -/
structure Progress where
  /-- The statements of the program so far. -/
  stmts : Nat
  /-- The scopes that were opened. -/
  scopes : List Place
  /-- The depths of the nodes of all expressions. -/
  nodes : List Nat
  source : Source

/-- How many operands the nodes of expressions have that are no leaves: from one to three, on whatever
grounds. -/
structure Arity where
  operands : NodeKind → Progress → Nat
  operands_pos : ∀ k w, 1 ≤ operands k w
  operands_le : ∀ k w, operands k w ≤ 3

/-- The operands that the operators have. -/
def Arity.usual : Arity where
  operands
    | .unary, _ | .typeCast, _ => 1
    | .ternary, _ => 3
    | _, _ => 2
  operands_pos k _ := by cases k <;> simp
  operands_le k _ := by cases k <;> simp

instance : Inhabited Arity := ⟨.usual⟩

/-- What the generator does, if it comes to an end. -/
abbrev Walk := StateT Progress Option

namespace Walk

/-- Makes a draw. -/
def draw {α : Type} (d : Draw α) : Walk α := fun w =>
  some ((d w.source).1, { w with source := (d w.source).2 })

/-- Goes into a scope. -/
def openScope (here : Place) : Walk Unit :=
  modify fun w => { w with scopes := here :: w.scopes }

/-- Counts a statement. -/
def countStmt : Walk Unit :=
  modify fun w => { w with stmts := w.stmts + 1 }

/-- Comes to a node of an expression. -/
def visitNode (depth : Nat) : Walk Unit :=
  modify fun w => { w with nodes := depth :: w.nodes }

end Walk

namespace Policy

/-! ### Expressions -/

mutual

/-- Fills in a node of an expression and everything below it. -/
def walkNode (p : Policy) (a : Arity) (depth : Nat) : Walk Unit := do
  Walk.visitNode depth
  let kind ← Walk.draw (p.chooseArithNode depth)
  if kind.isLeaf then
    return ()
  else
    p |>.walkOperands a (depth + 1) (a.operands kind (← get))
partial_fixpoint

/-- Fills in so many nodes next to each other. -/
def walkOperands (p : Policy) (a : Arity) (depth n : Nat) : Walk Unit := do
  if n = 0 then
    return ()
  else
    p |>.walkNode a depth
    p |>.walkOperands a depth (n - 1)
partial_fixpoint

end

/-! ### Statements -/

mutual

/-- Fills in a scope. -/
def walkScope (p : Policy) (a : Arity) (here : Place) : Walk Unit := do
  Walk.openScope here
  let stmts := (← get).stmts
  p |>.walkStmts a here (← Walk.draw (p.chooseScopeStmtNum (here.context stmts)))
partial_fixpoint

/-- Fills in so many statements, or fewer if the program has all its statements before. -/
def walkStmts (p : Policy) (a : Arity) (here : Place) (n : Nat) : Walk Unit := do
  if n = 0 then
    return ()
  else if p.limits.stmtNumLim ≤ (← get).stmts then
    return ()
  else
    p |>.walkStmt a here
    p |>.walkStmts a here (n - 1)
partial_fixpoint

/-- Fills in a statement and everything inside of it. -/
def walkStmt (p : Policy) (a : Arity) (here : Place) : Walk Unit := do
  let stmts := (← get).stmts
  let kind ← Walk.draw (p.chooseStmtKind (here.context stmts))
  Walk.countStmt
  match kind with
  | .loopNest =>
    let depth ← Walk.draw (p.chooseLoopNestDepth here.loopDepth)
    if 0 < depth then p |>.walkScope a (here.inLoops depth) else return ()
  | .loopSeq => p |>.walkScopes a (here.inLoops 1) (← Walk.draw p.chooseLoopSeqNum)
  | .ifElse => p |>.walkScope a here.inIfElse
  | _ => p.walkNode a 0
partial_fixpoint

/-- Fills in so many scopes next to each other. -/
def walkScopes (p : Policy) (a : Arity) (here : Place) (n : Nat) : Walk Unit := do
  if n = 0 then
    return ()
  else
    p |>.walkScope a here
    p |>.walkScopes a here (n - 1)
partial_fixpoint

end

/-- Fills in a program, with the words of a source. -/
def walk (p : Policy) (a : Arity) (s : Source) : Option Progress :=
  Prod.snd <$> p.walkScope a .outermost { stmts := 0, scopes := [], nodes := [], source := s }

end Policy

end FuzzPolicy
