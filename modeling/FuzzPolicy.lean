import FuzzPolicy.Policy.Budget
import FuzzPolicy.Proofs.Binary64.Whole
import FuzzPolicy.Proofs.Catalog.Changed
import FuzzPolicy.Proofs.Catalog.Difference
import FuzzPolicy.Proofs.Config.Faithful
import FuzzPolicy.Proofs.Config.RoundTrip
import FuzzPolicy.Proofs.Constant.Buffer
import FuzzPolicy.Proofs.Constant.Offset
import FuzzPolicy.Proofs.Constant.Plan
import FuzzPolicy.Proofs.Constant.Use
import FuzzPolicy.Proofs.Generator.Termination
import FuzzPolicy.Proofs.Guarded.Session
import FuzzPolicy.Proofs.Policy.Budgets
import FuzzPolicy.Proofs.Policy.DrawnCounts
import FuzzPolicy.Proofs.Policy.Families
import FuzzPolicy.Proofs.Policy.FromLimits
import FuzzPolicy.Proofs.Policy.ModeLog
import FuzzPolicy.Proofs.Policy.Pragmas
import FuzzPolicy.Proofs.Policy.WellFormed
import FuzzPolicy.Proofs.Session.ConstUse
import FuzzPolicy.Proofs.Session.Constants
import FuzzPolicy.Proofs.Session.Replay
import FuzzPolicy.Proofs.Session.Room
import FuzzPolicy.Proofs.Session.Undisturbed
import FuzzPolicy.Proofs.Session.Verbatim
import FuzzPolicy.Proofs.Stencil.Masks
import FuzzPolicy.Proofs.Stencil.Sharing
import FuzzPolicy.Proofs.Stencil.Tail
import FuzzPolicy.Proofs.Table.Filter
import FuzzPolicy.Proofs.Table.Range
import FuzzPolicy.Proofs.Table.Walk
import FuzzPolicy.Session.Operation
