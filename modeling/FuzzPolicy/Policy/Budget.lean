import FuzzPolicy.Policy.Basic

/-!
# Budgets

A budget counts how much of a limit has been used. It never counts past the limit, and giving back
more than was used does no harm.
-/

namespace FuzzPolicy

/-- Whether there is room under a limit. -/
inductive LimitCheck where
  /-- There is. -/
  | proceed
  /-- There is not. -/
  | reached
  deriving DecidableEq, Repr

/-- How much of a limit has been used. -/
structure Budget where
  limit : Nat
  used : Nat
  deriving DecidableEq, Repr

namespace Budget

/-- The budget of a limit of which nothing has been used. -/
def ofLimit (limit : Nat) : Budget := ⟨limit, 0⟩

/-- Whether something is left. -/
def check (b : Budget) : LimitCheck :=
  if b.limit ≤ b.used then .reached else .proceed

/-- Uses one, if something is left. -/
def consume (b : Budget) : LimitCheck × Budget :=
  match b.check with
  | .proceed => (.proceed, { b with used := b.used + 1 })
  | .reached => (.reached, b)

/-- Gives one back, if something was used. -/
def release (b : Budget) : Budget :=
  { b with used := b.used - 1 }

/-- What is left. -/
def remaining (b : Budget) : Nat :=
  b.limit - b.used

end Budget

namespace Policy

/-- The budget of statements in the program. -/
def stmtBudget (p : Policy) : Budget := .ofLimit p.limits.stmtNumLim

/-- The budget of loops around a statement. -/
def loopDepthBudget (p : Policy) : Budget := .ofLimit p.limits.loopDepthLimit

/-- The budget of conditionals around a statement. -/
def ifElseDepthBudget (p : Policy) : Budget := .ofLimit p.limits.ifElseDepthLimit

/-- The budget of levels of an expression. -/
def arithDepthBudget (p : Policy) : Budget := .ofLimit p.limits.maxArithDepth

end Policy

end FuzzPolicy
