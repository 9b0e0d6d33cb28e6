import FuzzPolicy.Proofs.Guarded.Count
import FuzzPolicy.Proofs.Policy.Ceilings

/-!
# Budgets agree with decisions

The same limits are kept twice. A budget counts what has been used and refuses at its limit; a decision is
told how much has been used and compares that with the limit itself. A generator that counts with budgets
and tells the decisions what they say must not be told by one that there is room and by the other that
there is none. So what budgets refuse, decisions do not choose, and what decisions choose, budgets grant:
`Policy.budgets_agree`.

A budget is known by its limit and by what has been used of it, which is never more. All that it answers
follows from that, and so does how many calls in a row it grants: `Budget.grants_iff`.
-/

namespace FuzzPolicy

/-! ### What a budget answers -/

namespace Budget

variable {b : Budget}

theorem check_eq_reached_iff : b.check = .reached ↔ b.limit ≤ b.used := by
  unfold check
  by_cases h : b.limit ≤ b.used
  · rw [if_pos h]
    exact ⟨fun _ => h, fun _ => rfl⟩
  · rw [if_neg h]
    exact ⟨nofun, fun hn => absurd hn h⟩

theorem check_eq_proceed_iff : b.check = .proceed ↔ b.used < b.limit := by
  unfold check
  by_cases h : b.limit ≤ b.used
  · rw [if_pos h]
    exact ⟨nofun, fun hn => absurd h (Nat.not_le.mpr hn)⟩
  · rw [if_neg h]
    exact ⟨fun _ => Nat.lt_of_not_le h, fun _ => rfl⟩

theorem consume_of_lt (h : b.used < b.limit) :
    b.consume = (.proceed, { b with used := b.used + 1 }) := by
  unfold consume
  rw [check_eq_proceed_iff.mpr h]

theorem consume_of_le (h : b.limit ≤ b.used) : b.consume = (.reached, b) := by
  unfold consume
  rw [check_eq_reached_iff.mpr h]

/-- No call changes the limit. -/
theorem limit_call (b : Budget) (c : BudgetCall) : (b.call c).limit = b.limit := by
  cases c with
  | check => rfl
  | consume =>
      change b.consume.2.limit = b.limit
      rcases Nat.lt_or_ge b.used b.limit with h | h
      · rw [consume_of_lt h]
      · rw [consume_of_le h]
  | release => rfl

theorem limit_after (b : Budget) (calls : List BudgetCall) : (b.after calls).limit = b.limit := by
  induction calls generalizing b with
  | nil => rfl
  | cons c calls ih => exact (ih (b.call c)).trans (b.limit_call c)

/-- Looking at a budget leaves no trace: without the checks a run ends in the same budget. -/
theorem after_without_checks (b : Budget) (calls : List BudgetCall) :
    b.after (calls.filter (· ≠ .check)) = b.after calls := by
  induction calls generalizing b with
  | nil => rfl
  | cons c calls ih =>
      cases c with
      | check => exact ih b
      | consume => exact ih (b.call .consume)
      | release => exact ih (b.call .release)

/-- What a call answers. Giving back has no answer. -/
def answer (b : Budget) : BudgetCall → Option LimitCheck
  | .check => some b.check
  | .consume => some b.consume.1
  | .release => none

/-- What some calls in a row answer. -/
def answers (b : Budget) : List BudgetCall → List (Option LimitCheck)
  | [] => []
  | c :: calls => b.answer c :: (b.call c).answers calls

/-- Whether so many calls in a row that use one are all granted. -/
def Grants (b : Budget) (n : Nat) : Prop :=
  b.answers (List.replicate n .consume) = List.replicate n (some .proceed)

/-- **A budget grants what is left of it and no more.** -/
theorem grants_iff {n : Nat} : b.Grants n ↔ n ≤ b.remaining := by
  induction n generalizing b with
  | zero => exact ⟨fun _ => Nat.zero_le _, fun _ => rfl⟩
  | succ n ih =>
      have hstep : b.Grants (n + 1) ↔ b.consume.1 = .proceed ∧ b.consume.2.Grants n := by
        unfold Grants
        rw [List.replicate_succ, List.replicate_succ, answers, List.cons.injEq]
        exact and_congr_left fun _ => Option.some_inj
      rw [hstep, ih]
      rcases Nat.lt_or_ge b.used b.limit with h | h
      · rw [consume_of_lt h]
        unfold remaining
        constructor
        · rintro ⟨-, hle⟩
          have hle' : n ≤ b.limit - (b.used + 1) := hle
          omega
        · intro hle
          refine ⟨rfl, ?_⟩
          change n ≤ b.limit - (b.used + 1)
          omega
      · rw [consume_of_le h]
        unfold remaining
        constructor
        · rintro ⟨hgranted, -⟩
          cases hgranted
        · intro hle
          omega

/-- A budget that is kept to a limit. -/
structure Kept (b : Budget) (limit : Nat) : Prop where
  limit_eq : b.limit = limit
  used_le : b.used ≤ limit
  remaining_add_used : b.remaining + b.used = limit
  check_reached_iff : b.check = .reached ↔ b.used = limit
  consume_reached_iff : b.consume.1 = .reached ↔ b.used = limit
  consume_unchanged_iff : b.consume.2 = b ↔ b.used = limit
  call_check : b.call .check = b
  grants_iff : ∀ n, b.Grants n ↔ n ≤ b.remaining

theorem kept_of_le {limit : Nat} (hlimit : b.limit = limit) (hused : b.used ≤ limit) :
    b.Kept limit := by
  have hfull : b.limit ≤ b.used ↔ b.used = limit := by omega
  refine ⟨hlimit, hused, ?_, check_eq_reached_iff.trans hfull, ?_, ?_, rfl, fun _ => grants_iff⟩
  · unfold remaining
    omega
  · rcases Nat.lt_or_ge b.used b.limit with h | h
    · rw [consume_of_lt h]
      exact ⟨nofun, fun heq => by omega⟩
    · rw [consume_of_le h]
      exact ⟨fun _ => hfull.mp h, fun _ => rfl⟩
  · rcases Nat.lt_or_ge b.used b.limit with h | h
    · rw [consume_of_lt h]
      constructor
      · intro heq
        have hnext : b.used + 1 = b.used := congrArg Budget.used heq
        omega
      · intro heq
        omega
    · rw [consume_of_le h]
      exact ⟨fun _ => hfull.mp h, fun _ => rfl⟩

/-- **Whatever is called, a new budget is kept to its limit.** -/
theorem kept_after (limit : Nat) (calls : List BudgetCall) :
    ((ofLimit limit).after calls).Kept limit := by
  have hlimit : ((ofLimit limit).after calls).limit = limit := limit_after _ calls
  have hused : (ofLimit limit).used ≤ (ofLimit limit).limit := Nat.zero_le limit
  have hle := used_le_after hused calls
  rw [hlimit] at hle
  exact kept_of_le hlimit hle

end Budget

/-! ### The budgets of a generator -/

/-- What a generator keeps a budget of. -/
inductive BudgetKind where
  /-- The statements of the program. -/
  | stmts
  /-- The loops around a statement. -/
  | loops
  /-- The conditionals around a statement. -/
  | conditionals
  /-- The levels of an expression. -/
  | levels
  deriving DecidableEq, Repr

/-- The budgets that a generator counts with. -/
abbrev Budgets := BudgetKind → Budget

/-- Where a generator stands if its budgets are right. -/
def Budgets.context (b : Budgets) : ScopeContext where
  loopDepth := (b .loops).used
  ifElseDepth := (b .conditionals).used
  stmtCount := (b .stmts).used

namespace Policy

variable {p q : Policy} {b : Budgets}

/-- The budgets of a policy, of which nothing has been used. -/
def budgets (p : Policy) : Budgets
  | .stmts => p.stmtBudget
  | .loops => p.loopDepthBudget
  | .conditionals => p.ifElseDepthBudget
  | .levels => p.arithDepthBudget

/-- The budgets of a policy after some calls on each. -/
def spent (p : Policy) (calls : BudgetKind → List BudgetCall) : Budgets :=
  fun k => (p.budgets k).after (calls k)

/-- The limit that a policy sets. -/
def limitOf (p : Policy) : BudgetKind → Nat
  | .stmts => p.limits.stmtNumLim
  | .loops => p.limits.loopDepthLimit
  | .conditionals => p.limits.ifElseDepthLimit
  | .levels => p.limits.maxArithDepth

theorem spent_kept (p : Policy) (calls : BudgetKind → List BudgetCall) (k : BudgetKind) :
    (p.spent calls k).Kept (p.limitOf k) := by
  cases k <;> exact Budget.kept_after _ _

/-! ### Decisions by what budgets say -/

/-- A scope is never given more statements than the program has left. -/
theorem always_chooseScopeStmtNum_le (ctx : ScopeContext) :
    (p.chooseScopeStmtNum ctx).Always (· ≤ p.limits.stmtNumLim - ctx.stmtCount) := by
  refine Table.always_drawn_or _ (fun n _ hkeep => ?_) (Nat.min_le_right _ _)
  exact Nat.le_trans (CountRange.contains_iff.mp hkeep).2 (Nat.min_le_right _ _)

/-- What the decisions of a policy promise to a generator that stands where its budgets say. -/
structure AgreesWith (q : Policy) (b : Budgets) : Prop where
  /-- Where no loop is left, none is chosen. -/
  loops : (b .loops).check = .reached →
    (q.chooseStmtKind b.context).Always fun k => k.isLoop = false
  conditionals : (b .conditionals).check = .reached →
    (q.chooseStmtKind b.context).Always (· ≠ .ifElse)
  stmts : (b .stmts).check = .reached → ∀ s, q.chooseStmtKind b.context s = (.stubStmt, s)
  /-- A nest of loops can be entered as deep as it was chosen. -/
  nest : (q.chooseLoopNestDepth (b .loops).used).Always (b .loops).Grants
  /-- A scope can be filled with as many statements as were chosen. -/
  scope : (q.chooseScopeStmtNum b.context).Always (b .stmts).Grants
  levels : (b .levels).check = .reached →
    (q.chooseArithNode (b .levels).used).Always fun k => k.isLeaf = true

/-- If budgets have the limits of a policy, they agree with its decisions. -/
theorem agreesWith_of_limits (h : ∀ k, (b k).limit = q.limitOf k) : q.AgreesWith b where
  loops hreached := by
    refine always_chooseStmtKind_allowed.mono fun k hk => ?_
    rw [Budget.check_eq_reached_iff, h] at hreached
    by_contra hloop
    rw [Bool.not_eq_false] at hloop
    exact absurd (loopDepth_lt_of_allowsKind hk hloop) (Nat.not_lt.mpr hreached)
  conditionals hreached := by
    refine always_chooseStmtKind_allowed.mono fun k hk => ?_
    rw [Budget.check_eq_reached_iff, h] at hreached
    rintro rfl
    exact absurd (ifElseDepth_lt_of_allowsKind hk) (Nat.not_lt.mpr hreached)
  stmts hreached := by
    rw [Budget.check_eq_reached_iff, h] at hreached
    exact chooseStmtKind_of_full hreached
  nest := by
    refine (always_chooseLoopNestDepth_le _).mono fun n hn => Budget.grants_iff.mpr ?_
    rw [Budget.remaining, h]
    exact Nat.le_trans hn (Nat.min_le_right _ _)
  scope := by
    refine (always_chooseScopeStmtNum_le _).mono fun n hn => Budget.grants_iff.mpr ?_
    rw [Budget.remaining, h]
    exact hn
  levels hreached := by
    rw [Budget.check_eq_reached_iff, h] at hreached
    exact always_chooseArithNode_isLeaf hreached

/-- **Budgets and decisions agree.** Whatever is called on the budgets of a policy, each is kept to its
limit and not changed by checks, and what they say of themselves is true to the decisions of the policy,
also after any choices of modes. -/
theorem budgets_agree (p : Policy) (calls : BudgetKind → List BudgetCall)
    (modes : List (ModeCall × Source)) :
    (∀ k, (p.spent calls k).Kept (p.limitOf k)) ∧
    (∀ k, p.spent calls k = p.spent (fun k => (calls k).filter (· ≠ .check)) k) ∧
    (p.after modes).AgreesWith (p.spent calls) := by
  refine ⟨p.spent_kept calls, fun k => ?_, agreesWith_of_limits fun k => ?_⟩
  · exact ((p.budgets k).after_without_checks (calls k)).symm
  · rw [(p.spent_kept calls k).limit_eq]
    cases k <;> rw [limitOf, limitOf, after_limits]

/-- The default policy, when the conditionals are used up and one loop is left. -/
theorem budgets_agree_default : ∃ p : Policy, p.Accepted ∧ ∃ calls,
    p.spent calls .conditionals = ⟨5, 5⟩ ∧ p.spent calls .loops = ⟨5, 4⟩ ∧
    ((p.chooseStmtKind (p.spent calls).context).Always (· ≠ .ifElse)) ∧
    (p.chooseLoopNestDepth 4).Always (p.spent calls .loops).Grants ∧
    ¬ (p.spent calls .loops).Grants 2 := by
  let calls : BudgetKind → List BudgetCall
    | .conditionals => .release :: List.replicate 6 .consume
    | .loops => List.replicate 7 .consume ++ [.release, .check]
    | _ => []
  obtain ⟨tables, p, hp, hspent⟩ := exists_default
    (fun p => p.spent calls .conditionals = ⟨5, 5⟩ ∧ p.spent calls .loops = ⟨5, 4⟩)
    (by decide +kernel)
  obtain ⟨hconditionals, hloops⟩ := of_decide_eq_true hspent
  obtain ⟨hkept, -, hagrees⟩ := budgets_agree p calls []
  have hreached : (p.spent calls .conditionals).check = .reached := by
    rw [hconditionals]
    rfl
  have hnest := hagrees.nest
  rw [hloops] at hnest
  refine ⟨p, .inl ⟨_, _, _, hp⟩, calls, hconditionals, hloops, hagrees.conditionals hreached, ?_, ?_⟩
  · rw [hloops]
    exact hnest
  · rw [(hkept .loops).grants_iff, hloops]
    decide

end Policy

end FuzzPolicy
