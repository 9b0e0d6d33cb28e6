import FuzzPolicy.Config.Document
import FuzzPolicy.Policy.Basic

/-!
# From a configuration to a policy

The limits of a configuration are applied and checked, the default tables are made under them, the
given tables replace theirs, and the whole is checked as a policy is. The first check that fails is
the fault.
-/

namespace FuzzPolicy

/-- The policy that a configuration names. -/
def PolicyConfig.build (c : PolicyConfig) : Except ConfigFault Policy := do
  let limits := c.limits.apply
  limits.validate
  let defaults ← Catalog.defaults limits
  match c.tables.apply defaults with
  | (tables, none) => Policy.ofParts limits tables (c.eviction.getD .fifo)
  | (_, some fault) => throw fault

/-- Why an override document names no policy. -/
inductive OverrideFault where
  /-- The document cannot be read as text. -/
  | unreadable
  /-- The text is no document of a configuration. -/
  | document (fault : Document.Fault)
  /-- The configuration has a fault. -/
  | invalid (fault : ConfigFault)
  deriving DecidableEq, Repr

namespace OverrideFault

/-- The text of a fault, where there is more to say than its kind. -/
def message : OverrideFault → Option String
  | unreadable => none
  | document (.text _) => none
  | document (.data mismatch) => some s!"override document is not valid: {mismatch.message}"
  | invalid fault => some fault.message

end OverrideFault

/-- The outcome of reading, as that of reading an override document. -/
def Document.Reading.toOverride {α : Type} : Document.Reading α → Except OverrideFault α
  | .ok a => .ok a
  | .error fault => .error (.document fault)

/-- The configuration in a file with the given bytes; there are none if there is no such file. -/
def PolicyConfig.ofFile : Option ByteArray → Except OverrideFault PolicyConfig
  | none => .error .unreadable
  | some bytes =>
    match String.fromUTF8? bytes with
    | none => .error .unreadable
    | some text => (PolicyConfig.ofText text).toOverride

/-- The policy that an override document names. -/
def Policy.ofText (text : String) : Except OverrideFault Policy := do
  let config ← (PolicyConfig.ofText text).toOverride
  match config.build with
  | .ok policy => return policy
  | .error fault => throw (.invalid fault)

end FuzzPolicy
