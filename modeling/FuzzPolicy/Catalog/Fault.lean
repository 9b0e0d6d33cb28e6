import FuzzPolicy.Catalog.TableId
import FuzzPolicy.Limits.Basic

/-!
# Faults of a configuration

Why some limits and tables make no policy. A fault says which limit or table is at fault and how; its
text is given by `ConfigFault.message`.
-/

namespace FuzzPolicy

/-- What is wrong with some limits or tables. -/
inductive ConfigFault where
  /-- The entries given for a table make no table. -/
  | table (table : TableId) (fault : TableFault)
  /-- The range with this name is at fault. -/
  | range (name : String) (fault : RangeFault)
  /-- A limit that must not be zero is zero. -/
  | zeroLimit (limit : LimitId)
  /-- A limit that must be a probability is none. -/
  | invalidProbability (limit : LimitId) (value : Float)
  /-- A table has a node kind that cannot stand where the table is used. -/
  | misplacedKind (table : TableId) (kind : NodeKind)
  /-- Nothing that the table gives is within the limit. -/
  | outOfBounds (table : TableId) (limit : LimitId) (bound : Nat)
  deriving DecidableEq, Repr

namespace ConfigFault

open Vocabulary (name)

/-- The text of a fault. -/
def message : ConfigFault → String
  | table t fault => s!"table `{name t}`: {fault.message}"
  | range r fault => fault.message r
  | zeroLimit l => s!"limit `{name l}` must be at least 1"
  | invalidProbability l value =>
    s!"`{name l}` must be a probability in [0, 1], got {messageText value}"
  | misplacedKind t kind => s!"table `{name t}` cannot hold node kind `{name kind}`"
  | outOfBounds t l bound =>
    s!"table `{name t}` has no positive entry within the `{name l}` bound of {bound}"

end ConfigFault

end FuzzPolicy
