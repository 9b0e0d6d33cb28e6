import FuzzPolicy.Constant.Plan
import FuzzPolicy.Policy.Decision
import FuzzPolicy.Policy.Selection
import FuzzPolicy.Random.ChaCha
import FuzzPolicy.Stencil.Plan

/-!
# Sessions

A session generates one program. It has a policy of its own, a random source, the constants it
remembers and the stencils it remembers. Its source is that of its seed, the master seed of the run
plus its id, so a session can be replayed without the sessions before it.
-/

namespace FuzzPolicy

/-- The state in which one program is generated. -/
structure Session where
  id : UInt64
  seed : UInt64
  policy : Policy
  source : Source
  consts : ConstBuffer Int
  stencil : StencilHistory

namespace Session

/-- The seed of a session. It wraps around at 2⁶⁴. -/
def seedOf (master id : UInt64) : UInt64 :=
  master + id

/-- A new session with a policy like the template. -/
def new (template : Policy) (master id : UInt64) : Session where
  id
  seed := seedOf master id
  policy := template
  source := Source.ofSeed (seedOf master id)
  consts := template.newConstBuffer
  stencil := .empty

variable {α : Type}

/-- Makes a draw from the session's source. -/
def draw (s : Session) (d : Draw α) : α × Session :=
  let (a, source) := d s.source
  (a, { s with source })

/-- Makes a draw that gives a new policy as well. -/
def drawPolicy (s : Session) (d : Draw (α × Policy)) : α × Session :=
  let ((a, policy), source) := d s.source
  (a, { s with policy, source })

/-- The modes of a session. -/
structure Modes where
  operators : Mode OperatorFamily
  constants : Mode ConstUse
  deriving DecidableEq, Repr

/-- The modes as they are. -/
def modes (s : Session) : Modes :=
  ⟨s.policy.operatorMode, s.policy.constMode⟩

/-- Chooses a mode, unless that has been done. -/
def select (s : Session) (k : ModeKind) : Mode k.Choice × Session :=
  s.drawPolicy (s.policy.select k)

/-- Chooses a mode anew. -/
def reselect (s : Session) (k : ModeKind) : Mode k.Choice × Session :=
  s.drawPolicy (s.policy.reselect k)

/-- Chooses both modes. It comes before everything that depends on them. -/
def bootstrap (s : Session) : Modes × Session :=
  let (operators, s) := s.select .operators
  let (constants, s) := s.select .constants
  (⟨operators, constants⟩, s)

/-- Plans the next constant. -/
def planConst (s : Session) : ConstPlan × Session :=
  s.draw (s.policy.planConst s.consts.length)

/-- Takes note of a constant that was made. -/
def recordConst (s : Session) (value : Int) : Offer Int × Session :=
  let ((offer, consts), source) := s.policy.offerConst s.consts value s.source
  (offer, { s with consts, source })

/-- Plans a stencil for arrays with so many dimensions. -/
def planStencil (s : Session) (arrayDims : Nat) : Option StencilPlan × Session :=
  let ((plan, stencil), source) := s.policy.planStencil arrayDims s.stencil s.source
  (plan, { s with stencil, source })

/-- Whether undefined behaviour is allowed. -/
def allowUb (s : Session) (region : Region) : Bool × Session :=
  s.draw (s.policy.allowUb region)

end Session

/-- The sessions with ids below a number, with their modes chosen. -/
def bootstrapSessions (template : Policy) (master : UInt64) (count : Nat) : List Session :=
  (List.range count).map fun id => (Session.new template master id.toUInt64).bootstrap.2

end FuzzPolicy
