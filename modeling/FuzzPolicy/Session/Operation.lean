import FuzzPolicy.Session.Basic

/-!
# Runs of a session

Whatever is asked of a session is an operation, and what it says is an answer; a run performs some
operations in order. What holds of all sessions is said of all runs.

A question is an operation that leaves the policy and what the session remembers alone, and only draws
from the source.
-/

namespace FuzzPolicy

/-- A question to the policy. -/
inductive Question where
  /-- A draw from a table, within no limits. -/
  | outcome (table : TableId)
  | stmtKind (ctx : ScopeContext)
  | scopeStmtNum (ctx : ScopeContext)
  | loopNestDepth (loopDepth : Nat)
  | loopSeqNum
  | arithNode (depth : Nat)
  | libCall (dialect : Dialect)
  | iterEnd
  | inpVarsNum
  | newArrNum
  | pragmas
  | allowUb (region : Region)
  /-- A plan for a constant when so many are remembered. -/
  | constPlan (buffered : Nat)
  deriving DecidableEq, Repr

/-- What an operation says. -/
inductive Answer where
  | outcome (table : TableId) (value : table.Outcome)
  | kind (kind : NodeKind)
  | count (n : Nat)
  | libCall (call : LibCall)
  | pragmas (kinds : List Pragma)
  | flag (b : Bool)
  | mode (kind : ModeKind) (mode : Mode kind.Choice)
  | modes (modes : Session.Modes)
  | constPlan (plan : ConstPlan)
  | stencil (plan : Option StencilPlan)
  | offer (offer : Offer Int)
  /-- A constant that was drawn, and what became of it. -/
  | drawn (value : Int) (offer : Offer Int)
  | word (w : UInt64)

/-- The policy's answer to a question. -/
def Policy.ask (p : Policy) : Question → Draw Answer
  | .outcome table => .outcome table <$> (p.tables.table table).sample
  | .stmtKind ctx => .kind <$> p.chooseStmtKind ctx
  | .scopeStmtNum ctx => .count <$> p.chooseScopeStmtNum ctx
  | .loopNestDepth loopDepth => .count <$> p.chooseLoopNestDepth loopDepth
  | .loopSeqNum => .count <$> p.chooseLoopSeqNum
  | .arithNode depth => .kind <$> p.chooseArithNode depth
  | .libCall dialect => .libCall <$> p.chooseLibCall dialect
  | .iterEnd => .count <$> p.chooseIterEnd
  | .inpVarsNum => .count <$> p.chooseInpVarsNum
  | .newArrNum => .count <$> p.chooseNewArrNum
  | .pragmas => .pragmas <$> p.choosePragmas
  | .allowUb region => .flag <$> p.allowUb region
  | .constPlan buffered => .constPlan <$> p.planConst buffered

namespace Session

/-- Something that is asked of a session. -/
inductive Operation where
  /-- A question to the policy. -/
  | ask (question : Question)
  | bootstrap
  | select (kind : ModeKind)
  | reselect (kind : ModeKind)
  /-- A plan for a constant, given those that the session remembers. -/
  | planConst
  | planStencil (arrayDims : Nat)
  | recordConst (value : Int)
  /-- A constant that the caller draws from the session's source, in a way of its own, and records. -/
  | drawConst (draw : Draw Int)
  /-- A word of the source. -/
  | word

/-- A constant below `hi` and not below `lo`, drawn as a signed word and recorded. -/
def Operation.recordDrawn (lo hi : Int) : Operation :=
  .drawConst (.intBetween lo (hi - 1))

/-- Performs an operation. -/
def perform (s : Session) : Operation → Answer × Session
  | .ask question => s.draw (s.policy.ask question)
  | .bootstrap =>
    let (modes, s) := s.bootstrap
    (.modes modes, s)
  | .select kind =>
    let (mode, s) := s.select kind
    (.mode kind mode, s)
  | .reselect kind =>
    let (mode, s) := s.reselect kind
    (.mode kind mode, s)
  | .planConst =>
    let (plan, s) := s.planConst
    (.constPlan plan, s)
  | .planStencil arrayDims =>
    let (plan, s) := s.planStencil arrayDims
    (.stencil plan, s)
  | .recordConst value =>
    let (offer, s) := s.recordConst value
    (.offer offer, s)
  | .drawConst draw =>
    let (value, s) := s.draw draw
    let (offer, s) := s.recordConst value
    (.drawn value offer, s)
  | .word =>
    let (w, s) := s.draw Draw.word
    (.word w, s)

/-- Performs some operations in order. -/
def run (s : Session) : List Operation → List Answer × Session
  | [] => ([], s)
  | op :: ops =>
    let (answer, s) := s.perform op
    let (answers, s) := s.run ops
    (answer :: answers, s)

theorem run_cons (s : Session) (op : Operation) (ops : List Operation) :
    s.run (op :: ops) =
      ((s.perform op).1 :: ((s.perform op).2.run ops).1, ((s.perform op).2.run ops).2) := rfl

@[simp] theorem length_run (s : Session) (ops : List Operation) :
    (s.run ops).1.length = ops.length := by
  induction ops generalizing s with
  | nil => rfl
  | cons op ops ih => simp [run_cons, ih]

end Session

end FuzzPolicy
