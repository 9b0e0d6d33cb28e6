import FuzzPolicy.Policy.Selection
import FuzzPolicy.Proofs.Policy.Accepted

/-!
# Runs of mode calls

However often modes are chosen and chosen again, the tables of a policy are what its baseline and its
two current modes make them: `Policy.Follows`, which one choice keeps and so does every run of choices.
A choice replaces all tables that depend on its kind and works them out from the baseline, so it leaves
nothing behind of the choice before. The two kinds rule different tables, so the order in which
choices of the two are mixed does not matter.
-/

namespace FuzzPolicy

/-! ### Calls and runs -/

/-- A call that may choose a mode. -/
inductive ModeCall where
  | select (kind : ModeKind)
  | reselect (kind : ModeKind)
  deriving DecidableEq, Repr

namespace Policy

/-- The policy after a call. -/
def call (p : Policy) : ModeCall → Draw Policy
  | .select k => Prod.snd <$> p.select k
  | .reselect k => Prod.snd <$> p.reselect k

/-- The policy after some calls, each of which draws from a source of its own. -/
def after (p : Policy) : List (ModeCall × Source) → Policy
  | [] => p
  | (c, s) :: calls => after (p.call c s).1 calls

/-- Calls in a row are calls from the policy that was reached. -/
theorem after_append (p : Policy) (calls more : List (ModeCall × Source)) :
    p.after (calls ++ more) = (p.after calls).after more := by
  induction calls generalizing p with
  | nil => rfl
  | cons c calls ih => exact ih (p.call c.1 c.2).1

/-- A call makes a choice, or it changes nothing. -/
theorem call_cases (p : Policy) (c : ModeCall) (s : Source) :
    (p.call c s).1 = p ∨ ∃ k choice reselected, (p.call c s).1 = p.adopt k choice reselected := by
  cases c with
  | select k =>
      cases hset : (p.mode k).isUnset with
      | false =>
          refine .inl ?_
          change (p.select k s).1.2 = p
          unfold select
          rw [hset]
          rfl
      | true =>
          refine .inr ⟨k, (k.choose p.tables s).1, false, ?_⟩
          change (p.select k s).1.2 = _
          unfold select
          rw [hset]
          rfl
  | reselect k => exact .inr ⟨k, (k.choose p.tables s).1, true, rfl⟩

/-- What every choice keeps, every run keeps. -/
theorem after_induction {motive : Policy → Prop}
    (adopt : ∀ p k choice reselected, motive p → motive (p.adopt k choice reselected))
    {p : Policy} (hp : motive p) (calls : List (ModeCall × Source)) : motive (p.after calls) := by
  induction calls generalizing p with
  | nil => exact hp
  | cons c calls ih =>
      obtain ⟨c, s⟩ := c
      refine ih ?_
      -- A call on a mode that is set changes nothing; any other is one choice.
      rcases p.call_cases c s with h | ⟨k, choice, reselected, h⟩
      · rw [h]
        exact hp
      · rw [h]
        exact adopt p k choice reselected hp

/-! ### What a choice leaves as it is -/

@[simp] theorem adopt_limits (p : Policy) (k : ModeKind) (choice : Option k.Choice) (r : Bool) :
    (p.adopt k choice r).limits = p.limits := by
  cases k <;> rfl

@[simp] theorem adopt_baseline (p : Policy) (k : ModeKind) (choice : Option k.Choice) (r : Bool) :
    (p.adopt k choice r).baseline = p.baseline := by
  cases k <;> rfl

@[simp] theorem adopt_eviction (p : Policy) (k : ModeKind) (choice : Option k.Choice) (r : Bool) :
    (p.adopt k choice r).eviction = p.eviction := by
  cases k <;> rfl

@[simp] theorem adopt_tables (p : Policy) (k : ModeKind) (choice : Option k.Choice) (r : Bool) :
    (p.adopt k choice r).tables = k.tablesAfter p.baseline p.tables choice := by
  cases k <;> rfl

theorem after_limits (p : Policy) (calls : List (ModeCall × Source)) :
    (p.after calls).limits = p.limits :=
  after_induction (motive := fun q => q.limits = p.limits)
    (fun q k choice r h => (adopt_limits q k choice r).trans h) rfl calls

theorem after_baseline (p : Policy) (calls : List (ModeCall × Source)) :
    (p.after calls).baseline = p.baseline :=
  after_induction (motive := fun q => q.baseline = p.baseline)
    (fun q k choice r h => (adopt_baseline q k choice r).trans h) rfl calls

theorem after_eviction (p : Policy) (calls : List (ModeCall × Source)) :
    (p.after calls).eviction = p.eviction :=
  after_induction (motive := fun q => q.eviction = p.eviction)
    (fun q k choice r h => (adopt_eviction q k choice r).trans h) rfl calls

end Policy

/-! ### The tables that two modes make of a baseline -/

namespace Catalog

/-- The operator tables under a mode of operators. -/
def operatorsUnder (baseline : Catalog) : Mode OperatorFamily → OperatorTables
  | .active family => operatorTables family baseline
  | .unset | .disabled => baseline.operators

/-- The tables about constants under a mode of using them. -/
def constantsUnder (baseline : Catalog) : Mode ConstUse → ConstTables
  | .active use => constTables use baseline
  | .unset | .disabled => baseline.constants

/-- The tables that two modes make of a baseline. -/
def under (baseline : Catalog) (operators : Mode OperatorFamily) (constants : Mode ConstUse) :
    Catalog :=
  (baseline.withOperators (baseline.operatorsUnder operators)).withConstants
    (baseline.constantsUnder constants)

/-- Without modes the tables are the baseline. -/
theorem under_unset (baseline : Catalog) : baseline.under .unset .unset = baseline := rfl

/-- A choice of operators replaces the mode of operators and nothing else. -/
theorem tablesAfter_operators (baseline : Catalog) (o : Mode OperatorFamily) (c : Mode ConstUse)
    (choice : Option OperatorFamily) :
    ModeKind.tablesAfter baseline (baseline.under o c) .operators choice =
      baseline.under (.ofChoice choice) c := by
  cases choice <;> rfl

/-- A choice of constants replaces the mode of constants and nothing else. -/
theorem tablesAfter_constants (baseline : Catalog) (o : Mode OperatorFamily) (c : Mode ConstUse)
    (choice : Option ConstUse) :
    ModeKind.tablesAfter baseline (baseline.under o c) .constants choice =
      baseline.under o (.ofChoice choice) := by
  cases choice <;> rfl

/-- A table that depends on no mode is that of the baseline. -/
theorem table_under {baseline : Catalog} {o : Mode OperatorFamily} {c : Mode ConstUse} {t : TableId}
    (ho : t ∉ ModeKind.operators.dependents) (hc : t ∉ ModeKind.constants.dependents) :
    (baseline.under o c).table t = baseline.table t := by
  -- Seven names are dependent and excluded; the other fields are carried over unchanged.
  cases t <;> first | rfl | exact absurd (by decide) ho | exact absurd (by decide) hc

end Catalog

namespace Policy

/-! ### The invariant -/

/-- The tables are those that the modes make of the baseline. -/
def Follows (p : Policy) : Prop :=
  p.tables = p.baseline.under p.operatorMode p.constMode

theorem follows_adopt (p : Policy) (k : ModeKind) (choice : Option k.Choice) (r : Bool)
    (h : p.Follows) : (p.adopt k choice r).Follows := by
  unfold Follows at h ⊢
  rw [adopt_tables, adopt_baseline, h]
  cases k with
  | operators => exact p.baseline.tablesAfter_operators _ _ choice
  | constants => exact p.baseline.tablesAfter_constants _ _ choice

/-- Every run keeps the tables in step with the modes. -/
theorem follows_after {p : Policy} (h : p.Follows) (calls : List (ModeCall × Source)) :
    (p.after calls).Follows :=
  after_induction follows_adopt h calls

/-- An accepted policy starts without modes. -/
theorem Accepted.follows {p : Policy} (h : p.Accepted) : p.Follows := by
  obtain ⟨limits, tables, eviction, hp⟩ := h.parts
  obtain ⟨-, -, rfl⟩ := ofParts_eq_ok_iff.mp hp
  exact (tables.under_unset).symm

/-- After any run the tables are what its modes make of the baseline. -/
theorem tables_after {p : Policy} (h : p.Accepted) (calls : List (ModeCall × Source)) :
    (p.after calls).tables =
      p.baseline.under (p.after calls).operatorMode (p.after calls).constMode := by
  have hfollows : (p.after calls).Follows := follows_after h.follows calls
  rwa [Follows, after_baseline] at hfollows

/-- No run changes a table that depends on no mode. -/
theorem table_after {p : Policy} (h : p.Accepted) (calls : List (ModeCall × Source)) {t : TableId}
    (ho : t ∉ ModeKind.operators.dependents) (hc : t ∉ ModeKind.constants.dependents) :
    (p.after calls).tables.table t = p.baseline.table t := by
  rw [tables_after h calls]
  exact Catalog.table_under ho hc

/-- A mode that has been chosen is not chosen again, and nothing is drawn. -/
theorem select_of_mode_ne_unset {p : Policy} {k : ModeKind} (h : p.mode k ≠ .unset) (s : Source) :
    p.select k s = ((p.mode k, p), s) := by
  have hset : (p.mode k).isUnset = false := by
    cases hm : p.mode k with
    | unset => exact absurd hm h
    | disabled => rfl
    | active mode => rfl
  unfold select
  rw [hset]
  rfl

/-! ### Runs from an accepted policy -/

/-- **The tables follow the modes.** After any calls on an accepted policy, limits, baseline and
eviction are as they were made. The tables that a kind of mode rules are worked out from the baseline
if a mode of the kind is active, and are those of the baseline if not; no other table has changed. So
two runs that end in the same modes end in the same tables. A mode that is set is answered again
without a draw. -/
theorem tables_follow_modes {p : Policy} (h : p.Accepted) (calls : List (ModeCall × Source)) :
    (p.after calls).limits = p.limits ∧
    (p.after calls).baseline = p.baseline ∧
    (p.after calls).eviction = p.eviction ∧
    (∀ family, (p.after calls).operatorMode = .active family →
      (p.after calls).tables.operators = operatorTables family p.baseline) ∧
    ((p.after calls).operatorMode = .unset ∨ (p.after calls).operatorMode = .disabled →
      (p.after calls).tables.operators = p.baseline.operators) ∧
    (∀ use, (p.after calls).constMode = .active use →
      (p.after calls).tables.constants = constTables use p.baseline) ∧
    ((p.after calls).constMode = .unset ∨ (p.after calls).constMode = .disabled →
      (p.after calls).tables.constants = p.baseline.constants) ∧
    (∀ t, t ∉ ModeKind.operators.dependents → t ∉ ModeKind.constants.dependents →
      (p.after calls).tables.table t = p.baseline.table t) ∧
    (∀ calls', (p.after calls').operatorMode = (p.after calls).operatorMode →
      (p.after calls').constMode = (p.after calls).constMode →
      (p.after calls').tables = (p.after calls).tables) ∧
    ∀ k, (p.after calls).mode k ≠ .unset → ∀ s,
      (p.after calls).select k s = (((p.after calls).mode k, p.after calls), s) := by
  have hoperators : (p.after calls).tables.operators =
      p.baseline.operatorsUnder (p.after calls).operatorMode := by
    rw [tables_after h calls]
    rfl
  have hconstants : (p.after calls).tables.constants =
      p.baseline.constantsUnder (p.after calls).constMode := by
    rw [tables_after h calls]
    rfl
  refine ⟨p.after_limits calls, p.after_baseline calls, p.after_eviction calls, ?_, ?_, ?_, ?_, ?_,
    ?_, ?_⟩
  · intro family hmode
    rw [hoperators, hmode]
    rfl
  · rintro (hmode | hmode) <;> rw [hoperators, hmode] <;> rfl
  · intro use hmode
    rw [hconstants, hmode]
    rfl
  · rintro (hmode | hmode) <;> rw [hconstants, hmode] <;> rfl
  · intro t ho hc
    exact table_after h calls ho hc
  · intro calls' ho hc
    rw [tables_after h calls', tables_after h calls, ho, hc]
  · intro k hset s
    exact select_of_mode_ne_unset hset s

/-- A run on the default policy that makes both modes active, the one of operators twice. -/
theorem tables_follow_modes_default : ∃ p : Policy, p.Accepted ∧
    ∃ calls, (p.after calls).operatorMode = .active .additive ∧
      (p.after calls).tables.operators = operatorTables .additive p.baseline ∧
      (p.after calls).constMode = .active .halfDef ∧
      (p.after calls).tables.constants = constTables .halfDef p.baseline := by
  let zeros : Source := ⟨fun _ => 0, 0⟩
  let calls : List (ModeCall × Source) :=
    [(.select .operators, zeros), (.select .constants, zeros), (.reselect .operators, zeros)]
  obtain ⟨tables, p, hp, hmodes⟩ := exists_default
    (fun p => (p.after calls).operatorMode = .active .additive ∧
      (p.after calls).constMode = .active .halfDef) (by decide +kernel)
  obtain ⟨hoperator, hconst⟩ := of_decide_eq_true hmodes
  have haccepted : p.Accepted := .inl ⟨_, _, _, hp⟩
  obtain ⟨-, -, -, hoperators, -, hconstants, -⟩ := tables_follow_modes haccepted calls
  exact ⟨p, haccepted, calls, hoperator, hoperators _ hoperator, hconst, hconstants _ hconst⟩

end Policy

end FuzzPolicy
