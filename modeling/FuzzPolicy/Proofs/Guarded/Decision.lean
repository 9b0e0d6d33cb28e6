import FuzzPolicy.Proofs.Guarded.Basic
import FuzzPolicy.Proofs.Policy.Validity
import FuzzPolicy.Session.Operation

/-!
# Guarded decisions

The decisions of a policy with guarded operations in them. Every draw from a table looks up the first
entry, two decisions draw a count from a range of the limits, a plan for a constant draws a place in the
buffer, and a full buffer may replace the constant at a place that is drawn. The first entry is there
because a table has one; the ranges are in order because the limits are valid; a place is drawn only where
there is a constant.
-/

namespace FuzzPolicy.Guarded

variable {α : Type}

/-! ### Tables -/

/-- One draw among the entries of a table under some weights. The value of the first entry is the answer
if nothing has positive weight. -/
def roll (t : Table α) (total : Float) (es : List (Entry α)) : Guarded α := do
  let u ← ofDraw .unit
  let first ← Misuse.element t.entries 0
  return Table.pick (u * total) 0.0 first.value es

/-- A value, drawn by weight. -/
def sample (t : Table α) : Guarded α :=
  roll t t.total t.entries

/-- A value, drawn by the weights of a reweighting. -/
def sampleReweighted (t : Table α) (f : α → Float → Float) : Guarded (Option α) := do
  let es := t.reweigh f
  let total := totalOf es
  if total ≤ 0 || !total.isFinite then
    return none
  else
    return some (← roll t total es)

/-- A value, drawn by weight among those that are wanted. -/
def sampleWhere (t : Table α) (keep : α → Bool) : Guarded (Option α) :=
  sampleReweighted t fun v w => if keep v then w else 0.0

theorem element_entries_zero (t : Table α) : Misuse.element t.entries 0 = .ok t.first := by
  refine Misuse.element_of_getElem? ?_
  rw [← List.head?_eq_getElem?]
  exact List.head?_eq_some_head t.nonempty

/-- A table has a first entry, whatever the weights are. -/
theorem roll_eq (t : Table α) (total : Float) (es : List (Entry α)) :
    roll t total es = ofDraw (Table.roll total t.first.value es) := by
  unfold roll
  rw [element_entries_zero]
  rfl

@[simp] theorem sample_eq (t : Table α) : sample t = ofDraw t.sample :=
  roll_eq t t.total t.entries

@[simp] theorem sampleReweighted_eq (t : Table α) (f : α → Float → Float) :
    sampleReweighted t f = ofDraw (t.sampleReweighted f) := by
  refine ofDraw_ite_congr (fun _ => rfl) fun _ => ?_
  rw [roll_eq]
  rfl

@[simp] theorem sampleWhere_eq (t : Table α) (keep : α → Bool) :
    sampleWhere t keep = ofDraw (t.sampleWhere keep) :=
  sampleReweighted_eq t _

/-! ### Decisions within limits -/

section Decisions

variable (p : Policy)

def chooseStmtKind (ctx : ScopeContext) : Guarded NodeKind := do
  if p.limits.stmtNumLim ≤ ctx.stmtCount then
    return .stubStmt
  else
    return (← sampleWhere p.tables.stmtKindStruct (p.allowsKind ctx)).getD .stubStmt

def chooseLoopNestDepth (loopDepth : Nat) : Guarded Nat := do
  let bound := p.loopNestBound loopDepth
  return (← sampleWhere p.tables.loopNestDepth fun n => n ≤ bound).getD bound

def chooseLoopSeqNum : Guarded Nat := do
  let bound := p.limits.loopSeqNumLim
  return (← sampleWhere p.tables.loopSeqNum fun n => n ≤ bound).getD bound

def chooseScopeStmtNum (ctx : ScopeContext) : Guarded Nat := do
  let range := p.limits.scopeStmtNum
  let remaining := p.limits.stmtNumLim - ctx.stmtCount
  let allowed : CountRange := ⟨range.min, min range.max remaining⟩
  return (← sampleWhere p.tables.scopeStmtNum allowed.contains).getD (min range.min remaining)

def chooseArithNode (depth : Nat) : Guarded NodeKind := do
  let table : Table NodeKind := p.tables.arithNode
  if p.limits.maxArithDepth ≤ depth then
    return (← sampleWhere table NodeKind.isLeaf).getD .const
  else
    return (← sampleReweighted table (Policy.arithWeight depth)).getD .const

/-- Where a loop iterator ends: the range of the limits must have a count. -/
def chooseIterEnd : Guarded Nat :=
  between p.limits.itersEndLimit.min p.limits.itersEndLimit.max

/-- The number of input variables: the range of the limits must have a count. -/
def chooseInpVarsNum : Guarded Nat :=
  between p.limits.inpVarsNum.min p.limits.inpVarsNum.max

def chooseNewArrNum : Guarded Nat := do
  let range := p.limits.newArrNum
  return (← sampleWhere p.tables.newArrNum range.contains).getD range.max

def choosePragmas : Guarded (List Pragma) := do
  let bound := p.limits.maxPragmaNum
  let count := (← sampleWhere p.tables.pragmaNum fun n => n ≤ bound).getD 0
  let kinds : List Pragma ← replicate count (sample p.tables.pragmaKind)
  return kinds.eraseDups

def allowUb : Region → Guarded Bool
  | .live => return false
  | .dead => sample p.tables.ubInDc

variable {p}

theorem chooseStmtKind_eq (ctx : ScopeContext) :
    chooseStmtKind p ctx = ofDraw (p.chooseStmtKind ctx) := by
  refine ofDraw_ite_congr (fun _ => rfl) fun _ => ?_
  rw [sampleWhere_eq]
  rfl

theorem chooseLoopNestDepth_eq (loopDepth : Nat) :
    chooseLoopNestDepth p loopDepth = ofDraw (p.chooseLoopNestDepth loopDepth) := by
  rw [chooseLoopNestDepth, sampleWhere_eq]
  rfl

theorem chooseLoopSeqNum_eq : chooseLoopSeqNum p = ofDraw p.chooseLoopSeqNum := by
  rw [chooseLoopSeqNum, sampleWhere_eq]
  rfl

theorem chooseScopeStmtNum_eq (ctx : ScopeContext) :
    chooseScopeStmtNum p ctx = ofDraw (p.chooseScopeStmtNum ctx) := by
  rw [chooseScopeStmtNum, sampleWhere_eq]
  rfl

theorem chooseArithNode_eq (depth : Nat) :
    chooseArithNode p depth = ofDraw (p.chooseArithNode depth) := by
  refine ofDraw_ite_congr (fun _ => ?_) fun _ => ?_
  · rw [sampleWhere_eq]
    rfl
  · rw [sampleReweighted_eq]
    rfl

theorem chooseNewArrNum_eq : chooseNewArrNum p = ofDraw p.chooseNewArrNum := by
  rw [chooseNewArrNum, sampleWhere_eq]
  rfl

theorem choosePragmas_eq : choosePragmas p = ofDraw p.choosePragmas := by
  rw [choosePragmas, sampleWhere_eq]
  refine ofDraw_bind_congr fun drawn => ?_
  simp only [sample_eq, replicate_ofDraw]
  rfl

theorem allowUb_eq (region : Region) : allowUb p region = ofDraw (p.allowUb region) := by
  cases region with
  | live => rfl
  | dead => exact sample_eq _

/-- The ends of the range are in order, as the limits are valid. -/
theorem between_range {l : Limits} (hl : l.validate = .ok ()) {r : LimitId × CountRange}
    (hr : r ∈ l.ranges) : between r.2.min r.2.max = ofDraw (.between r.2.min r.2.max) :=
  between_of_le ((Limits.validate_eq_ok_iff.mp hl).1 r hr)

theorem chooseIterEnd_eq (hl : p.limits.validate = .ok ()) :
    chooseIterEnd p = ofDraw p.chooseIterEnd :=
  between_range hl (r := (.itersEndLimit, p.limits.itersEndLimit)) (by simp [Limits.ranges])

theorem chooseInpVarsNum_eq (hl : p.limits.validate = .ok ()) :
    chooseInpVarsNum p = ofDraw p.chooseInpVarsNum :=
  between_range hl (r := (.inpVarsNum, p.limits.inpVarsNum)) (by simp [Limits.ranges])

end Decisions

/-! ### Constants -/

section Constants

variable (p : Policy)

/-- Plans the use of one of so many remembered constants: there has to be one. -/
def planReuse (buffered : Nat) : Guarded ConstSource := do
  let index ← below buffered
  if ← sample p.tables.useConstTransform then
    return .reuse index (some (← sample p.tables.constTransform))
  else
    return .reuse index none

def planNew : Guarded ConstSource := do
  if ← sample p.tables.useSpecialConst then
    return .special (← sample p.tables.specialConst)
  else
    return .fresh

def planOffset : Guarded (Option ConstOffset) := do
  if ← sample p.tables.useConstOffset then
    let range := p.limits.constOffset
    let magnitude := (← sampleWhere p.tables.constOffset range.contains).getD range.min
    let positive ← sample p.tables.posConstOffset
    return some { magnitude, positive }
  else
    return none

def planConst (buffered : Nat) : Guarded ConstPlan := do
  let wanted : Bool ← sample p.tables.reuseConst
  let source ← if wanted && 0 < buffered then planReuse p buffered else planNew p
  let offset ← planOffset p
  let lsbEnd ← sample p.tables.useLsbBitEnd
  return { source, offset, lsbEnd, exhausted := wanted && buffered == 0 }

/-- Puts a constant into a full buffer. A place that is drawn must be in the buffer. -/
def replaceWith (b : ConstBuffer α) (value : α) : Guarded (Offer α × ConstBuffer α) :=
  match b.eviction with
  | .fifo =>
    match b.values with
    | [] => return (.rejected, b)
    | oldest :: others => return (.replaced oldest, { b with values := others ++ [value] })
  | .randomReplace => do
    let index ← below b.length
    let old ← Misuse.element b.values index
    let values ← Misuse.replaced b.values index value
    return (.replaced old, { b with values })

def offer (b : ConstBuffer α) (replace : Table Bool) (value : α) :
    Guarded (Offer α × ConstBuffer α) := do
  if b.capacity = 0 then
    return (.rejected, b)
  else if !b.isFull then
    return (.inserted, { b with values := b.values ++ [value] })
  else if ← sample replace then
    replaceWith b value
  else
    return (.rejected, b)

def offerConst (b : ConstBuffer α) (value : α) : Guarded (Offer α × ConstBuffer α) :=
  offer b p.tables.replaceInBuf value

variable {p}

theorem planReuse_eq {buffered : Nat} (h : 0 < buffered) :
    planReuse p buffered = ofDraw (p.planReuse buffered) := by
  rw [planReuse, below_of_pos h, sample_eq, sample_eq]
  refine ofDraw_bind_congr fun index => ofDraw_bind_congr fun transforms => ?_
  exact ofDraw_ite_congr (fun _ => rfl) fun _ => rfl

theorem planNew_eq : planNew p = ofDraw p.planNew := by
  rw [planNew, sample_eq, sample_eq]
  exact ofDraw_bind_congr fun special => ofDraw_ite_congr (fun _ => rfl) fun _ => rfl

theorem planOffset_eq : planOffset p = ofDraw p.planOffset := by
  rw [planOffset, sample_eq, sample_eq]
  refine ofDraw_bind_congr fun apart => ofDraw_ite_congr (fun _ => ?_) fun _ => rfl
  simp only [sampleWhere_eq]
  rfl

/-- A place is drawn only if a constant is remembered. -/
theorem planConst_eq (buffered : Nat) : planConst p buffered = ofDraw (p.planConst buffered) := by
  rw [planConst, sample_eq, sample_eq, planNew_eq, planOffset_eq]
  refine ofDraw_bind_congr fun wanted => ofDraw_ite_congr (fun hreuse => ?_) fun _ => rfl
  rw [Bool.and_eq_true, decide_eq_true_eq] at hreuse
  rw [planReuse_eq hreuse.2]
  rfl

/-- A place below the length of a buffer has a constant. -/
theorem replaceWith_eq {b : ConstBuffer α} (h : b.values ≠ []) (value : α) :
    replaceWith b value = ofDraw (b.replaceWith value) := by
  obtain ⟨values, capacity, eviction⟩ := b
  cases values with
  | nil => exact absurd rfl h
  | cons oldest others =>
      cases eviction with
      | fifo => rfl
      | randomReplace =>
          have hlen : 0 < (oldest :: others).length := Nat.succ_pos _
          change (below (oldest :: others).length >>= fun index => _) = _
          rw [below_of_pos hlen]
          -- Both lookups use the place that was drawn, which is below the length.
          refine ofDraw_bind_of_always (Draw.always_below_lt hlen) fun index hindex => ?_
          have helement : (oldest :: others)[index]? = some ((oldest :: others).getD index oldest) := by
            rw [List.getD_eq_getElem _ _ hindex, List.getElem?_eq_getElem hindex]
          rw [Misuse.element_of_getElem? helement, Misuse.replaced_of_lt hindex]
          rfl

/-- A full buffer with room for something is not empty. -/
theorem offer_eq (b : ConstBuffer α) (replace : Table Bool) (value : α) :
    offer b replace value = ofDraw (b.offer replace value) := by
  refine ofDraw_ite_congr (fun _ => rfl) fun hcapacity => ?_
  refine ofDraw_ite_congr (fun _ => rfl) fun hfull => ?_
  rw [sample_eq]
  refine ofDraw_bind_congr fun replaces => ofDraw_ite_congr (fun _ => ?_) fun _ => rfl
  -- A capacity that is not zero is reached, so there is something to replace.
  refine replaceWith_eq ?_ value
  intro hnil
  have hle : b.capacity ≤ b.values.length := by
    rw [Bool.not_eq_true, Bool.not_eq_false'] at hfull
    exact of_decide_eq_true hfull
  rw [hnil] at hle
  exact hcapacity (Nat.le_zero.mp hle)

theorem offerConst_eq (b : ConstBuffer α) (value : α) :
    offerConst p b value = ofDraw (p.offerConst b value) :=
  offer_eq b _ value

end Constants

/-! ### Questions and modes -/

/-- The policy's answer to a question. -/
def ask (p : Policy) : Question → Guarded Answer
  | .outcome table => .outcome table <$> sample (p.tables.table table)
  | .stmtKind ctx => .kind <$> chooseStmtKind p ctx
  | .scopeStmtNum ctx => .count <$> chooseScopeStmtNum p ctx
  | .loopNestDepth loopDepth => .count <$> chooseLoopNestDepth p loopDepth
  | .loopSeqNum => .count <$> chooseLoopSeqNum p
  | .arithNode depth => .kind <$> chooseArithNode p depth
  | .libCall dialect => .libCall <$> sample (p.tables.libCall dialect)
  | .iterEnd => .count <$> chooseIterEnd p
  | .inpVarsNum => .count <$> chooseInpVarsNum p
  | .newArrNum => .count <$> chooseNewArrNum p
  | .pragmas => .pragmas <$> choosePragmas p
  | .allowUb region => .flag <$> allowUb p region
  | .constPlan buffered => .constPlan <$> planConst p buffered

/-- **No question to a policy with valid limits goes wrong.** -/
theorem ask_eq {p : Policy} (hl : p.limits.validate = .ok ()) (question : Question) :
    ask p question = ofDraw (p.ask question) := by
  cases question with
  | outcome table => exact map_of_eq _ (sample_eq _)
  | stmtKind ctx => exact map_of_eq _ (chooseStmtKind_eq ctx)
  | scopeStmtNum ctx => exact map_of_eq _ (chooseScopeStmtNum_eq ctx)
  | loopNestDepth loopDepth => exact map_of_eq _ (chooseLoopNestDepth_eq loopDepth)
  | loopSeqNum => exact map_of_eq _ chooseLoopSeqNum_eq
  | arithNode depth => exact map_of_eq _ (chooseArithNode_eq depth)
  | libCall dialect => exact map_of_eq _ (sample_eq _)
  | iterEnd => exact map_of_eq _ (chooseIterEnd_eq hl)
  | inpVarsNum => exact map_of_eq _ (chooseInpVarsNum_eq hl)
  | newArrNum => exact map_of_eq _ chooseNewArrNum_eq
  | pragmas => exact map_of_eq _ choosePragmas_eq
  | allowUb region => exact map_of_eq _ (allowUb_eq region)
  | constPlan buffered => exact map_of_eq _ (planConst_eq buffered)

end FuzzPolicy.Guarded
