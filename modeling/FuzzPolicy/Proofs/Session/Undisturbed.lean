import FuzzPolicy.Proofs.Policy.Ceilings
import FuzzPolicy.Proofs.Policy.ModeLog
import FuzzPolicy.Proofs.Session.Constants

/-!
# Operations that do not disturb a run

Some operations look at a session and leave it as it is: a question whose answer is fixed by a limit or
by the lack of anything to draw, a stencil for arrays without dimensions, a mode that has been chosen
before. They take no word from the source, `Session.perform_of_idle`, and in a session that has its modes
an operation that is idle once stays idle, `Session.Bootstrapped.idle_run_iff`. So any of them can be left
out of a run, wherever it stands between the others, and nobody can tell: `Session.undisturbed`.
-/

namespace FuzzPolicy

/-! ### Questions that draw nothing -/

namespace Policy

variable {p q : Policy}

/-- A question whose answer does not depend on the source. -/
inductive Settled (p : Policy) : Question → Prop
  | allowUb : p.Settled (.allowUb .live)
  /-- The program has all its statements. -/
  | stmtKind {ctx : ScopeContext} (full : p.limits.stmtNumLim ≤ ctx.stmtCount) :
      p.Settled (.stmtKind ctx)
  /-- No number of the table is in the range and within what is left. -/
  | scopeStmtNum {ctx : ScopeContext} (none : ∀ n ∈ p.tables.scopeStmtNum.support,
      ¬ (p.limits.scopeStmtNum.min ≤ n ∧
        n ≤ min p.limits.scopeStmtNum.max (p.limits.stmtNumLim - ctx.stmtCount))) :
      p.Settled (.scopeStmtNum ctx)
  /-- There is no room for any depth of the table. -/
  | loopNestDepth {d : Nat} (none : ∀ n ∈ p.tables.loopNestDepth.support,
      ¬ n ≤ min p.limits.loopNestDepthLim (p.limits.loopDepthLimit - d)) :
      p.Settled (.loopNestDepth d)
  /-- An expression has to end and the table has no leaf. -/
  | arithNode {depth : Nat} (last : p.limits.maxArithDepth ≤ depth)
      (none : ∀ k ∈ p.tables.arithNode.support, k.isLeaf = false) : p.Settled (.arithNode depth)

/-- **A settled question takes nothing from the source.** -/
theorem ask_of_settled {question : Question} (h : p.Settled question) (s : Source) :
    (p.ask question s).2 = s := by
  cases h with
  | allowUb => rfl
  | @stmtKind ctx full =>
      show (p.chooseStmtKind ctx s).2 = s
      rw [chooseStmtKind_of_full full]
  | @scopeStmtNum ctx none =>
      have hdrawn : p.chooseScopeStmtNum ctx s =
          (min p.limits.scopeStmtNum.min (p.limits.stmtNumLim - ctx.stmtCount), s) := by
        refine Table.drawn_or_of_none (fun n hn => ?_) s
        rw [← Bool.not_eq_true, CountRange.contains_iff]
        exact none n hn
      exact congrArg Prod.snd hdrawn
  | @loopNestDepth d none =>
      have hdrawn : p.chooseLoopNestDepth d s =
          (min p.limits.loopNestDepthLim (p.limits.loopDepthLimit - d), s) :=
        Table.drawn_or_of_none (fun n hn => decide_eq_false (none n hn)) s
      exact congrArg Prod.snd hdrawn
  | @arithNode depth last none =>
      have hdrawn : p.chooseArithNode depth s = (.const, s) := by
        unfold chooseArithNode
        rw [if_pos last]
        exact Table.drawn_or_of_none none s
      exact congrArg Prod.snd hdrawn

/-- What is settled depends on the limits and on tables that no mode rules. -/
theorem Settled.of_eq {question : Question} (h : p.Settled question) (hlimits : q.limits = p.limits)
    (htables : ∀ t, t ∉ ModeKind.operators.dependents → t ∉ ModeKind.constants.dependents →
      q.tables.table t = p.tables.table t) : q.Settled question := by
  cases h with
  | allowUb => exact .allowUb
  | stmtKind full =>
      rw [← hlimits] at full
      exact .stmtKind full
  | scopeStmtNum none =>
      have htable : q.tables.scopeStmtNum = p.tables.scopeStmtNum :=
        htables .scopeStmtNum (by decide) (by decide)
      rw [← hlimits, ← htable] at none
      exact .scopeStmtNum none
  | loopNestDepth none =>
      have htable : q.tables.loopNestDepth = p.tables.loopNestDepth :=
        htables .loopNestDepth (by decide) (by decide)
      rw [← hlimits, ← htable] at none
      exact .loopNestDepth none
  | arithNode last none =>
      have htable : q.tables.arithNode = p.tables.arithNode :=
        htables .arithNode (by decide) (by decide)
      rw [← hlimits] at last
      rw [← htable] at none
      exact .arithNode last none

/-- No choice of mode changes a table that depends on no mode, whatever the policy. -/
theorem table_after_eq (p : Policy) (calls : List (ModeCall × Source)) {t : TableId}
    (ho : t ∉ ModeKind.operators.dependents) (hc : t ∉ ModeKind.constants.dependents) :
    (p.after calls).tables.table t = p.tables.table t := by
  refine after_induction (motive := fun q => q.tables.table t = p.tables.table t)
    (fun q k choice r h => ?_) rfl calls
  have hk : t ∉ k.dependents := by
    cases k with
    | operators => exact ho
    | constants => exact hc
  rw [adopt_tables, ModeKind.table_tablesAfter hk, h]

/-- **No choice of mode settles a question or opens it again.** -/
theorem settled_after_iff (p : Policy) (calls : List (ModeCall × Source)) {question : Question} :
    (p.after calls).Settled question ↔ p.Settled question := by
  constructor
  · intro h
    exact h.of_eq (p.after_limits calls).symm fun t ho hc => (p.table_after_eq calls ho hc).symm
  · intro h
    exact h.of_eq (p.after_limits calls) fun t ho hc => p.table_after_eq calls ho hc

/-! ### Modes that have been chosen -/

theorem mode_adopt_ne_unset (p : Policy) {k k' : ModeKind} (choice : Option k'.Choice) (r : Bool)
    (h : k ≠ k' → p.mode k ≠ .unset) : (p.adopt k' choice r).mode k ≠ .unset := by
  by_cases hk : k' = k
  · subst hk
    rw [mode_adopt_self]
    cases choice <;> exact nofun
  · rw [mode_adopt_of_ne p choice r hk]
    exact h (Ne.symm hk)

/-- A mode that has been chosen stays so, although it may be another one later. -/
theorem mode_after_ne_unset {k : ModeKind} (h : p.mode k ≠ .unset)
    (calls : List (ModeCall × Source)) : (p.after calls).mode k ≠ .unset :=
  after_induction (motive := fun q => q.mode k ≠ .unset)
    (fun q _ choice r hq => q.mode_adopt_ne_unset choice r fun _ => hq) h calls

theorem mode_call_select_ne_unset (p : Policy) (k : ModeKind) (s : Source) :
    (p.call (.select k) s).1.mode k ≠ .unset := by
  by_cases h : p.mode k = .unset
  · have hcall : (p.call (.select k) s).1 = p.adopt k (k.choose p.tables s).1 false := by
      show (p.select k s).1.2 = _
      unfold select
      rw [h]
      rfl
    rw [hcall]
    exact p.mode_adopt_ne_unset _ false fun hk => absurd rfl hk
  · have hcall : (p.call (.select k) s).1 = p := by
      show (p.select k s).1.2 = p
      rw [select_of_mode_ne_unset h]
    rw [hcall]
    exact h

end Policy

namespace Session

variable {s : Session} {op : Operation}

/-! ### Idle operations -/

/-- An operation that leaves the session as it is. -/
inductive Idle (s : Session) : Operation → Prop
  | ask {question : Question} (settled : s.policy.Settled question) : s.Idle (.ask question)
  | bootstrap (chosen : ∀ k, s.policy.mode k ≠ .unset) : s.Idle .bootstrap
  | select {k : ModeKind} (chosen : s.policy.mode k ≠ .unset) : s.Idle (.select k)
  | planStencil : s.Idle (.planStencil 0)

theorem select_of_mode_ne_unset {k : ModeKind} (h : s.policy.mode k ≠ .unset) :
    s.select k = (s.policy.mode k, s) := by
  unfold select drawPolicy
  rw [Policy.select_of_mode_ne_unset h]

/-- **An idle operation changes nothing**, neither what the session remembers nor its place in the
source. -/
theorem perform_of_idle (h : s.Idle op) : (s.perform op).2 = s := by
  cases h with
  | @ask question settled =>
      show { s with source := (s.policy.ask question s.source).2 } = s
      rw [Policy.ask_of_settled settled]
  | bootstrap chosen =>
      show s.bootstrap.2 = s
      unfold bootstrap
      rw [select_of_mode_ne_unset (chosen .operators)]
      dsimp only
      rw [select_of_mode_ne_unset (chosen .constants)]
  | select chosen =>
      show (s.select _).2 = s
      rw [select_of_mode_ne_unset chosen]
  | planStencil => rfl

/-! ### Sessions that have their modes -/

/-- Whether both modes of a session have been chosen. -/
def Bootstrapped (s : Session) : Prop :=
  ∀ k, s.policy.mode k ≠ .unset

theorem bootstrapped_bootstrap (s : Session) : s.bootstrap.2.Bootstrapped := by
  intro k
  let operators := s.select .operators
  cases k with
  | operators =>
      exact Policy.mode_after_ne_unset (s.policy.mode_call_select_ne_unset .operators s.source)
        [(.select .constants, operators.2.source)]
  | constants =>
      exact operators.2.policy.mode_call_select_ne_unset .constants operators.2.source

namespace Bootstrapped

theorem perform (h : s.Bootstrapped) (op : Operation) : (s.perform op).2.Bootstrapped := by
  intro k
  obtain ⟨modes, hpolicy⟩ := s.perform_policy op
  rw [hpolicy]
  exact Policy.mode_after_ne_unset (h k) modes

/-- An operation makes no other idle, and no idle one anything else. -/
theorem idle_perform_iff (h : s.Bootstrapped) (before : Operation) :
    (s.perform before).2.Idle op ↔ s.Idle op := by
  obtain ⟨modes, hpolicy⟩ := s.perform_policy before
  constructor
  · intro hidle
    cases hidle with
    | ask settled =>
        rw [hpolicy, Policy.settled_after_iff] at settled
        exact .ask settled
    | bootstrap chosen => exact .bootstrap h
    | select chosen => exact .select (h _)
    | planStencil => exact .planStencil
  · intro hidle
    cases hidle with
    | ask settled =>
        rw [← s.policy.settled_after_iff modes, ← hpolicy] at settled
        exact .ask settled
    | bootstrap chosen => exact .bootstrap (h.perform before)
    | select chosen => exact .select (h.perform before _)
    | planStencil => exact .planStencil

/-- **What is idle at one point of a run is idle at every point.** -/
theorem idle_run_iff (h : s.Bootstrapped) (ops : List Operation) :
    (s.run ops).2.Idle op ↔ s.Idle op := by
  induction ops generalizing s with
  | nil => exact Iff.rfl
  | cons before ops ih => exact (ih (h.perform before)).trans (h.idle_perform_iff before)

end Bootstrapped

/-! ### Leaving operations out -/

/-- A row without the places that are marked. -/
def leavingOut {α : Type} : List α → List Bool → List α
  | [], _ => []
  | a :: as, [] => a :: as
  | a :: as, out :: outs => if out then leavingOut as outs else a :: leavingOut as outs

/-- **Idle operations can be left out.** The others give the same answers, and the session is the same in
the end. -/
theorem Bootstrapped.run_leavingOut (h : s.Bootstrapped) (ops : List Operation) (out : List Bool)
    (hidle : ∀ c ∈ ops.zip out, c.2 = true → s.Idle c.1) :
    s.run (leavingOut ops out) = (leavingOut (s.run ops).1 out, (s.run ops).2) := by
  induction ops generalizing s out with
  | nil => rfl
  | cons op ops ih =>
      cases out with
      | nil => rfl
      | cons marked outs =>
          rw [List.zip_cons_cons, List.forall_mem_cons] at hidle
          obtain ⟨hop, hrest⟩ := hidle
          -- What is idle now is idle in the next state too.
          have hnext := ih (h.perform op) outs fun c hc hmarked =>
            (h.idle_perform_iff op).mpr (hrest c hc hmarked)
          cases marked with
          | true =>
              rw [perform_of_idle (hop rfl)] at hnext
              rw [run_cons, perform_of_idle (hop rfl)]
              exact hnext
          | false =>
              show s.run (op :: leavingOut ops outs) = _
              rw [run_cons, run_cons, hnext]
              rfl

/-- **Questions that must not disturb a run do not.** In a session that has its modes, on any policy and
wherever its source stands, the operations that are idle are so at every point of every run, another
choice of modes among them. Any of them can be left out of any run: every other operation gives the same
answer, and policy, buffer, stencils and the place in the source are the same in the end. Undefined
behaviour is never allowed in code that runs. -/
theorem undisturbed (s : Session) :
    (s.bootstrap.2.Idle .bootstrap ∧ ∀ k, s.bootstrap.2.Idle (.select k)) ∧
    (∀ ops op, (s.bootstrap.2.run ops).2.Idle op ↔ s.bootstrap.2.Idle op) ∧
    (∀ ops out, (∀ c ∈ ops.zip out, c.2 = true → s.bootstrap.2.Idle c.1) →
      s.bootstrap.2.run (leavingOut ops out) =
        (leavingOut (s.bootstrap.2.run ops).1 out, (s.bootstrap.2.run ops).2)) ∧
    ∀ ops, ((s.run ops).2.perform (.ask (.allowUb .live))).1 = .flag false := by
  have h : s.bootstrap.2.Bootstrapped := s.bootstrapped_bootstrap
  exact ⟨⟨.bootstrap h, fun k => .select (h k)⟩, fun ops op => h.idle_run_iff ops,
    h.run_leavingOut, fun ops => rfl⟩

/-- A session on the default policy that plans a constant, chooses its mode anew and plans another one does
so as if it had not been asked, in a program that is full and inside five loops, for more. -/
theorem undisturbed_default :
    let ops : List Operation := [.ask (.allowUb .live), .planConst, .planStencil 0,
      .ask (.stmtKind ⟨5, 0, 1000⟩), .ask (.scopeStmtNum ⟨5, 0, 1000⟩), .reselect .constants,
      .bootstrap, .ask (.loopNestDepth 5), .planConst]
    let out := [true, false, true, true, true, false, true, true, false]
    leavingOut ops out = [.planConst, .reselect .constants, .planConst] ∧
    ∃ p : Policy, p.Accepted ∧
      (new p 7 0).bootstrap.2.run (leavingOut ops out) =
        (leavingOut ((new p 7 0).bootstrap.2.run ops).1 out,
          ((new p 7 0).bootstrap.2.run ops).2) := by
  intro ops out
  obtain ⟨tables, p, hp, hcheck⟩ := Policy.exists_default
    (fun p => p.limits.stmtNumLim ≤ 1000 ∧
      (∀ n ∈ p.tables.scopeStmtNum.support, ¬ (p.limits.scopeStmtNum.min ≤ n ∧
        n ≤ min p.limits.scopeStmtNum.max (p.limits.stmtNumLim - 1000))) ∧
      ∀ n ∈ p.tables.loopNestDepth.support,
        ¬ n ≤ min p.limits.loopNestDepthLim (p.limits.loopDepthLimit - 5)) (by decide +kernel)
  obtain ⟨hfull, hstmts, hloops⟩ := of_decide_eq_true hcheck
  let s : Session := (new p 7 0).bootstrap.2
  have hidle {question : Question} (h : p.Settled question) : s.Idle (.ask question) := by
    obtain ⟨modes, hpolicy⟩ := (new p 7 0).perform_policy .bootstrap
    refine .ask ?_
    show ((new p 7 0).perform .bootstrap).2.policy.Settled question
    rw [hpolicy]
    exact (Policy.settled_after_iff p modes).mpr h
  obtain ⟨⟨hbootstrap, -⟩, -, hleft, -⟩ := undisturbed (new p 7 0)
  refine ⟨rfl, p, .inl ⟨_, _, _, hp⟩, hleft ops out ?_⟩
  simp only [ops, out, List.zip_cons_cons, List.zip_nil_left, List.forall_mem_cons]
  exact ⟨fun _ => hidle .allowUb, nofun, fun _ => .planStencil, fun _ => hidle (.stmtKind hfull),
    fun _ => hidle (.scopeStmtNum hstmts), nofun, fun _ => hbootstrap,
    fun _ => hidle (.loopNestDepth hloops), nofun, nofun⟩

end Session

end FuzzPolicy
