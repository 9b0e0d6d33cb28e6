import FuzzPolicy.Policy.Budget
import FuzzPolicy.Proofs.Guarded.Basic
import FuzzPolicy.Proofs.Policy.Validity

/-!
# Differences of counts

Counts are subtracted in two places. The width of a range is the difference of its ends, so it may be
asked for only when the ends are known to be in order: validation checks the order of all ranges before
the width of any, and a range that becomes a table is checked in that order as well. What is left of a
budget is the difference of its limit and what has been used, which no call ever takes beyond the limit.
So no limits make validation go wrong, also those that it refuses.
-/

namespace FuzzPolicy

open Checks

/-! ### Checks -/

/-- A check that stops where an operation is used outside its domain. -/
abbrev GuardedCheck (ε α : Type) := ExceptT ε (Except Misuse) α

namespace GuardedCheck

variable {α β ε : Type}

/-- A check in which nothing is misused, whether it passes or not. -/
def ofCheck (x : Except ε α) : GuardedCheck ε α := ExceptT.mk (.ok x)

/-- What comes after a check is used only if the check passes. -/
theorem ofCheck_bind_congr {x : Except ε α} {f : α → GuardedCheck ε β} {g : α → Except ε β}
    (hf : ∀ a, x = .ok a → f a = ofCheck (g a)) : ofCheck x >>= f = ofCheck (x >>= g) := by
  cases x with
  | error e => rfl
  | ok a => exact hf a rfl

theorem forM_ofCheck {xs : List α} {f : α → GuardedCheck ε Unit} {g : α → Except ε Unit}
    (h : ∀ x ∈ xs, f x = ofCheck (g x)) : xs.forM f = ofCheck (xs.forM g) := by
  induction xs with
  | nil => rfl
  | cons x xs ih =>
      rw [List.forall_mem_cons] at h
      change (f x >>= fun _ => xs.forM f) = ofCheck (g x >>= fun _ => xs.forM g)
      rw [h.1]
      exact ofCheck_bind_congr fun _ _ => ih h.2

end GuardedCheck

/-! ### Ranges -/

namespace Guarded

open GuardedCheck

/-- The check of the width of a range. -/
def checkWidth (r : CountRange) : GuardedCheck RangeFault Unit := do
  let width ← Misuse.difference r.max r.min
  if maxRangeLength ≤ width then
    throw (.tooWide r.min r.max)

/-- The table of a range: its order is checked before its width. -/
def table (r : CountRange) : GuardedCheck RangeFault (Table Nat) := do
  ofCheck r.checkOrder
  checkWidth r
  return ⟨r.toList.map fun n => ⟨n, 1.0⟩, mt List.map_eq_nil_iff.mp r.toList_ne_nil⟩

/-- The width exists if the ends are in order. -/
theorem checkWidth_of_le {r : CountRange} (h : r.min ≤ r.max) : checkWidth r = ofCheck r.checkWidth := by
  unfold checkWidth
  rw [Misuse.difference_of_le h]
  change (if maxRangeLength ≤ r.width then throw (RangeFault.tooWide r.min r.max) else pure ()) = _
  rw [CountRange.checkWidth, apply_ite ofCheck]
  rfl

/-- No range makes the making of its table go wrong. -/
theorem table_eq (r : CountRange) : table r = ofCheck r.table := by
  cases horder : r.checkOrder with
  | error fault =>
      rw [table, CountRange.table, horder]
      rfl
  | ok _ =>
      rw [table, CountRange.table, checkWidth_of_le (CountRange.checkOrder_eq_ok_iff.mp horder), horder]
      cases r.checkWidth <;> rfl

/-! ### Limits -/

/-- Validation of limits: the order of all ranges is checked before any width. -/
def validate (l : Limits) : GuardedCheck ConfigFault Unit := do
  ofCheck (l.ranges.forM fun r => Limits.ofRange r.1 r.2.checkOrder)
  ofCheck (l.sizes.forM fun size => Limits.checkSize size.1 size.2)
  l.tableRanges.forM fun r => ExceptT.mk (Limits.ofRange r.1 <$> (checkWidth r.2).run)
  if 0.0 ≤ l.alternation ∧ l.alternation ≤ 1.0 then
    return ()
  else
    throw (.invalidProbability .alternation l.alternation)

/-- **Validation never goes wrong**, whether it accepts the limits or not. -/
theorem validate_eq (l : Limits) : validate l = ofCheck l.validate := by
  unfold validate Limits.validate
  refine ofCheck_bind_congr fun _ horder => ofCheck_bind_congr fun _ _ => ?_
  -- The widths are asked for only here, where the ranges have passed the check of their order.
  have hranges : ∀ r ∈ l.ranges, r.2.min ≤ r.2.max := fun r hr =>
    CountRange.checkOrder_eq_ok_iff.mp (Limits.ofRange_eq_ok_iff.mp (forM_eq_ok_iff.mp horder r hr))
  rw [forM_ofCheck fun r hr => congrArg (fun x => ExceptT.mk (Limits.ofRange r.1 <$> x.run))
    (checkWidth_of_le (Limits.tableRanges_order hranges r hr))]
  refine ofCheck_bind_congr fun _ _ => ?_
  split <;> rfl

end Guarded

/-! ### Budgets -/

/-- A call on a budget. -/
inductive BudgetCall where
  | check
  | consume
  | release
  deriving DecidableEq, Repr

namespace Budget

/-- The budget after a call. -/
def call (b : Budget) : BudgetCall → Budget
  | .check => b
  | .consume => b.consume.2
  | .release => b.release

/-- The budget after some calls. -/
def after (b : Budget) : List BudgetCall → Budget :=
  List.foldl call b

/-- No call takes a budget beyond its limit. -/
theorem used_le_call {b : Budget} (h : b.used ≤ b.limit) (c : BudgetCall) :
    (b.call c).used ≤ (b.call c).limit := by
  cases c with
  | check => exact h
  | consume =>
      unfold call consume check
      by_cases hleft : b.limit ≤ b.used
      · rw [if_pos hleft]
        exact h
      · rw [if_neg hleft]
        exact Nat.lt_of_not_le hleft
  | release => exact Nat.le_trans (Nat.sub_le _ _) h

theorem used_le_after {b : Budget} (h : b.used ≤ b.limit) (calls : List BudgetCall) :
    (b.after calls).used ≤ (b.after calls).limit := by
  induction calls generalizing b with
  | nil => exact h
  | cons c calls ih => exact ih (used_le_call h c)

end Budget

namespace Guarded

/-- What is left of a budget. -/
def remaining (b : Budget) : Except Misuse Nat :=
  Misuse.difference b.limit b.used

/-- After any calls on a new budget, what is left of it exists. -/
theorem remaining_after (limit : Nat) (calls : List BudgetCall) :
    remaining ((Budget.ofLimit limit).after calls) = .ok ((Budget.ofLimit limit).after calls).remaining :=
  Misuse.difference_of_le (Budget.used_le_after (Nat.zero_le limit) calls)

end Guarded

end FuzzPolicy
