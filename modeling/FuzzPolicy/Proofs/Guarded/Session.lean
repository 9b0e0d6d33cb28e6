import FuzzPolicy.Proofs.Guarded.Count
import FuzzPolicy.Proofs.Guarded.Stencil

/-!
# Nothing is misused

Sessions with guarded operations in them. What a decision needs to be in its domain is known where it is
made, with two exceptions: the ranges that counts are drawn from and the probability that a stencil is
taken again come from the limits. So all that has to be carried along a run is that the limits are valid,
and no operation changes them. From there on guarded and plain runs are the same: `Guarded.run_eq`, and
for all calls on an accepted policy `Policy.nothing_misused`.
-/

namespace FuzzPolicy

/-! ### Modes -/

namespace Guarded

def choose (k : ModeKind) (c : Catalog) : Guarded (Option k.Choice) := do
  if ← sample (k.gate c) then
    return some (← sample (k.choices c))
  else
    return none

def rollMode (p : Policy) (k : ModeKind) (reselected : Bool) : Guarded (Mode k.Choice × Policy) := do
  let choice ← choose k p.tables
  return (.ofChoice choice, p.adopt k choice reselected)

def select (p : Policy) (k : ModeKind) : Guarded (Mode k.Choice × Policy) :=
  if (p.mode k).isUnset then rollMode p k false else return (p.mode k, p)

/-- The policy after a call. -/
def call (p : Policy) : ModeCall → Guarded Policy
  | .select k => Prod.snd <$> select p k
  | .reselect k => Prod.snd <$> rollMode p k true

theorem choose_eq (k : ModeKind) (c : Catalog) : choose k c = ofDraw (k.choose c) := by
  rw [choose, sample_eq, sample_eq]
  exact ofDraw_bind_congr fun applies => ofDraw_ite_congr (fun _ => rfl) fun _ => rfl

theorem rollMode_eq (p : Policy) (k : ModeKind) (reselected : Bool) :
    rollMode p k reselected = ofDraw (p.roll k reselected) := by
  rw [rollMode, choose_eq]
  rfl

theorem select_eq (p : Policy) (k : ModeKind) : select p k = ofDraw (p.select k) :=
  ofDraw_ite_congr (fun _ => rollMode_eq p k false) fun _ => rfl

theorem call_eq (p : Policy) (c : ModeCall) : call p c = ofDraw (p.call c) := by
  cases c with
  | select k => exact map_of_eq _ (select_eq p k)
  | reselect k => exact map_of_eq _ (rollMode_eq p k true)

end Guarded

theorem Policy.call_limits (p : Policy) (c : ModeCall) (s : Source) :
    (p.call c s).1.limits = p.limits :=
  p.after_limits [(c, s)]

/-! ### Operations of a session -/

namespace Guarded

variable {α : Type}

/-- Makes a guarded draw from the session's source. -/
def draw (s : Session) (d : Guarded α) : Except Misuse (α × Session) := do
  let (a, source) ← d s.source
  return (a, { s with source })

/-- Makes a guarded draw that gives a new policy as well. -/
def drawPolicy (s : Session) (d : Guarded (α × Policy)) : Except Misuse (α × Session) := do
  let ((a, policy), source) ← d s.source
  return (a, { s with policy, source })

def recordConst (s : Session) (value : Int) : Except Misuse (Offer Int × Session) := do
  let ((offer, consts), source) ← offerConst s.policy s.consts value s.source
  return (offer, { s with consts, source })

/-- Performs an operation. The draw of a constant that is recorded is not one of the library's, so how
it is made is the caller's affair. -/
def perform (s : Session) : Session.Operation → Except Misuse (Answer × Session)
  | .ask question => draw s (ask s.policy question)
  | .bootstrap => do
    let (operators, s) ← drawPolicy s (select s.policy .operators)
    let (constants, s) ← drawPolicy s (select s.policy .constants)
    return (.modes ⟨operators, constants⟩, s)
  | .select kind => do
    let (mode, s) ← drawPolicy s (select s.policy kind)
    return (.mode kind mode, s)
  | .reselect kind => do
    let (mode, s) ← drawPolicy s (rollMode s.policy kind true)
    return (.mode kind mode, s)
  | .planConst => do
    let (plan, s) ← draw s (planConst s.policy s.consts.length)
    return (.constPlan plan, s)
  | .planStencil arrayDims => do
    let ((plan, stencil), source) ← planStencil s.policy arrayDims s.stencil s.source
    return (.stencil plan, { s with stencil, source })
  | .recordConst value => do
    let (offer, s) ← recordConst s value
    return (.offer offer, s)
  | .drawConst d => do
    let (value, s) ← draw s (ofDraw d)
    let (offer, s) ← recordConst s value
    return (.drawn value offer, s)
  | .word => do
    let (w, s) ← draw s (ofDraw .word)
    return (.word w, s)

/-- Performs some operations in order. -/
def run (s : Session) : List Session.Operation → Except Misuse (List Answer × Session)
  | [] => return ([], s)
  | op :: ops => do
    let (answer, s) ← perform s op
    let (answers, s) ← run s ops
    return (answer :: answers, s)

theorem recordConst_eq (s : Session) (value : Int) :
    recordConst s value = .ok (s.recordConst value) := by
  rw [recordConst, offerConst_eq]
  rfl

/-- No operation goes wrong while the limits are valid. -/
theorem perform_eq {s : Session} (hl : s.policy.limits.validate = .ok ()) (op : Session.Operation) :
    perform s op = .ok (s.perform op) := by
  cases op with
  | ask question =>
      rw [perform, ask_eq hl]
      rfl
  | bootstrap =>
      rw [perform, select_eq]
      -- The second choice is made by the policy that the first one leaves.
      change (do
        let (constants, t) ← drawPolicy (s.select .operators).2
          (select (s.select .operators).2.policy .constants)
        return (Answer.modes ⟨(s.select .operators).1, constants⟩, t)) = _
      rw [select_eq]
      rfl
  | select kind =>
      rw [perform, select_eq]
      rfl
  | reselect kind =>
      rw [perform, rollMode_eq]
      rfl
  | planConst =>
      rw [perform, planConst_eq]
      rfl
  | planStencil arrayDims =>
      rw [perform, planStencil_eq hl]
      rfl
  | recordConst value =>
      rw [perform, recordConst_eq]
      rfl
  | drawConst d =>
      change (do
        let (offer, t) ← recordConst (s.draw d).2 (s.draw d).1
        return (Answer.drawn (s.draw d).1 offer, t)) = _
      rw [recordConst_eq]
      rfl
  | word => rfl

end Guarded

/-- No operation changes the limits. -/
theorem Session.perform_limits (s : Session) (op : Session.Operation) :
    (s.perform op).2.policy.limits = s.policy.limits := by
  cases op with
  | bootstrap =>
      exact (Policy.call_limits _ (.select .constants) _).trans
        (Policy.call_limits _ (.select .operators) _)
  | select kind => exact Policy.call_limits _ (.select kind) _
  | reselect kind => exact Policy.call_limits _ (.reselect kind) _
  | _ => rfl

/-- **No run goes wrong while the limits are valid**, and they stay so. -/
theorem Guarded.run_eq {s : Session} (hl : s.policy.limits.validate = .ok ())
    (ops : List Session.Operation) : Guarded.run s ops = .ok (s.run ops) := by
  induction ops generalizing s with
  | nil => rfl
  | cons op ops ih =>
      have hnext : (s.perform op).2.policy.limits.validate = .ok () := by
        rw [s.perform_limits op]
        exact hl
      rw [Guarded.run, Guarded.perform_eq hl]
      change (do
        let (answers, t) ← Guarded.run (s.perform op).2 ops
        return ((s.perform op).1 :: answers, t)) = _
      rw [ih hnext]
      rfl

/-! ### All calls -/

namespace Policy

/-- **No call uses an operation outside its domain.** With guarded operations in them, validation of
limits, tables of ranges and budgets answer what the plain ones do, whether they accept what they are
given or not. So does every call on an accepted policy, with any arguments and any source, after any
choices of modes: questions, choices of modes, offers to any buffer and stencils for any arrays after any
history. And so does every run of operations of every session that has such a policy. -/
theorem nothing_misused :
    (∀ l : Limits, Guarded.validate l = .ofCheck l.validate) ∧
    (∀ r : CountRange, Guarded.table r = .ofCheck r.table) ∧
    (∀ limit calls, Guarded.remaining ((Budget.ofLimit limit).after calls) =
      .ok ((Budget.ofLimit limit).after calls).remaining) ∧
    ∀ p : Policy, p.Accepted → ∀ calls,
      (∀ question, Guarded.ask (p.after calls) question = .ofDraw ((p.after calls).ask question)) ∧
      (∀ c, Guarded.call (p.after calls) c = .ofDraw ((p.after calls).call c)) ∧
      (∀ (α : Type) (b : ConstBuffer α) value,
        Guarded.offerConst (p.after calls) b value = .ofDraw ((p.after calls).offerConst b value)) ∧
      (∀ arrayDims h, Guarded.planStencil (p.after calls) arrayDims h =
        .ofDraw ((p.after calls).planStencil arrayDims h)) ∧
      ∀ s : Session, s.policy = p.after calls → ∀ ops, Guarded.run s ops = .ok (s.run ops) := by
  refine ⟨Guarded.validate_eq, Guarded.table_eq, Guarded.remaining_after, fun p hp calls => ?_⟩
  have hl : (p.after calls).limits.validate = .ok () := by
    obtain ⟨limits, tables, eviction, hparts⟩ := hp.parts
    obtain ⟨hlimits, -, rfl⟩ := ofParts_eq_ok_iff.mp hparts
    rw [after_limits]
    exact hlimits
  refine ⟨Guarded.ask_eq hl, Guarded.call_eq _, fun α b value => Guarded.offerConst_eq b value,
    Guarded.planStencil_eq hl, fun s hs ops => Guarded.run_eq ?_ ops⟩
  rw [hs]
  exact hl

/-- The default policy, a session with it, and limits that are refused for an inverted range. -/
theorem nothing_misused_default :
    (∃ p : Policy, p.Accepted ∧ ∃ s : Session, s.policy = p ∧
      (∃ source, Guarded.ask p .iterEnd s.source = .ok (.count 30, source)) ∧
      (∃ plan h source, Guarded.planStencil p 3 s.stencil s.source = .ok ((some plan, h), source)) ∧
      ∃ answers t, Guarded.run s [.planStencil 3, .recordConst 7, .planConst] = .ok (answers, t) ∧
        answers.length = 3) ∧
    Guarded.validate { Limits.default with newArrNum := ⟨3, 1⟩ } =
      .ofCheck (.error (.range "new_arr_num" (.inverted 3 1))) := by
  obtain ⟨hvalidate, -, -, hpolicies⟩ := nothing_misused
  refine ⟨?_, (hvalidate _).trans rfl⟩
  let zeros : Source := ⟨fun _ => 0, 0⟩
  obtain ⟨tables, p, hp, hrun⟩ := exists_default
    (fun p => (p.chooseIterEnd zeros).1 = 30 ∧ (p.planStencil 3 .empty zeros).1.1.isSome)
    (by decide +kernel)
  obtain ⟨hcount, hsome⟩ := of_decide_eq_true hrun
  obtain ⟨plan, hplan⟩ := Option.isSome_iff_exists.mp hsome
  have haccepted : p.Accepted := .inl ⟨_, _, _, hp⟩
  obtain ⟨hask, -, -, hstencil, hsession⟩ := hpolicies p haccepted []
  let s : Session := { Session.new p 0 0 with source := zeros }
  refine ⟨p, haccepted, s, rfl, ⟨(p.chooseIterEnd zeros).2, ?_⟩,
    ⟨plan, (p.planStencil 3 .empty zeros).1.2, (p.planStencil 3 .empty zeros).2, ?_⟩,
    (s.run [.planStencil 3, .recordConst 7, .planConst]).1,
    (s.run [.planStencil 3, .recordConst 7, .planConst]).2, hsession s rfl _, s.length_run _⟩
  · rw [← hcount]
    exact congrFun (hask .iterEnd) zeros
  · rw [← hplan]
    exact congrFun (hstencil 3 .empty) zeros

end Policy

end FuzzPolicy
