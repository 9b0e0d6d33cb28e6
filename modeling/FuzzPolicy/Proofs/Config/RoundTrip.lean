import FuzzPolicy.Proofs.Config.Readers
import FuzzPolicy.Proofs.Document.RoundTrip

/-!
# Configurations and limits are read back

A configuration is written with every field, null where it gives nothing. Reading the text gives the same
configuration: a null is read as nothing given, and what is given comes back under its own name. The same
holds of limits.

What this needs of the numbers is named by `Numbers`, which says something of every natural number in a value
and something of every double. That names need no escapes is checked for each vocabulary.
-/

namespace FuzzPolicy

open Document

variable (word : Nat → Prop) (real : Float → Prop)

/-! ### The numbers in a value -/

/-- What is said of the numbers in the value of a limit. -/
def LimitSort.Numbers : (s : LimitSort) → s.Carrier → Prop
  | .count, n => word n
  | .range, r => word r.min ∧ word r.max
  | .probability, x => real x

/-- What is said of the number in an outcome, if it is one. -/
def OutcomeSort.Numbers : (s : OutcomeSort) → s.Carrier → Prop
  | .count, n => word n
  | _, _ => True

/-- The numbers in a configuration are as said: every natural number and every double. -/
structure PolicyConfig.Numbers (c : PolicyConfig) : Prop where
  limits : ∀ l v, c.limits.value l = some v → l.sort.Numbers word real v
  tables : ∀ t es, c.tables.entries t = some es →
    ∀ e ∈ es, t.sort.Numbers word e.value ∧ real e.weight

/-- The numbers in some limits are as said. -/
def Limits.Numbers (l : Limits) : Prop :=
  ∀ id : LimitId, id.sort.Numbers word real (l.get id)

/-! ### Limits -/

/-- The end of a range that a field holds. -/
def CountRange.value (r : CountRange) : Field → Nat
  | .min => r.min
  | .max => r.max

theorem CountRange.carries {r : CountRange} (hmin : r.min < 2 ^ 64) (hmax : r.max < 2 ^ 64) :
    Carries CountRange.read r.write r := by
  have hends : Carries format.readWhole r.write r.value := by
    refine Format.carries_whole (fun f => ofCount (r.value f)) (by decide) (by decide) fun f => ?_
    cases f with
    | min => exact carries_ofCount hmin
    | max => exact carries_ofCount hmax
  exact hends.map fun ends : Field → Nat => (⟨ends .min, ends .max⟩ : CountRange)

theorem LimitSort.carries {s : LimitSort} {v : s.Carrier}
    (h : s.Numbers (· < 2 ^ 64) ReadsBack v) : Carries s.read (s.write v) v := by
  cases s with
  | count => exact carries_ofCount h
  | range => exact CountRange.carries h.1 h.2
  | probability => exact carries_ofFloat h

theorem LimitSort.write_ne_null {s : LimitSort} {v : s.Carrier}
    (h : s.Numbers (· < 2 ^ 64) ReadsBack v) : s.write v ≠ .null := by
  intro hnull
  cases s with
  | count => cases hnull
  | range => cases hnull
  | probability =>
    rw [write, ofFloat, if_pos h.finite] at hnull
    cases hnull

theorem Limits.carries {l : Limits} (h : l.Numbers (· < 2 ^ 64) ReadsBack) :
    Carries Limits.read l.write l := by
  have hvalues : Carries format.readWhole l.write l.get :=
    Format.carries_whole _ (by decide +kernel) (by decide) fun id => LimitSort.carries (h id)
  exact hvalues.map Limits.ofFn

/-! ### Tables -/

theorem OutcomeSort.carries {s : OutcomeSort} {v : s.Carrier} (h : s.Numbers (· < 2 ^ 64) v) :
    Carries s.read (s.write v) v := by
  cases s with
  | count => exact carries_ofCount h
  | flag => exact carries_bool v
  | node | intType | data | unary | binary | libCall | loopEnd | pragma | family | constUse
  | special => exact carries_ofVariant (by decide +kernel) v

/-- What a field of an entry holds. -/
def Entry.part {s : OutcomeSort} (e : Entry s.Carrier) : (f : Field) → (format s).Value f
  | .value => e.value
  | .weight => e.weight

/-- The tree of what a field of an entry holds. -/
def Entry.writePart {s : OutcomeSort} (e : Entry s.Carrier) : Field → Tree
  | .value => s.write e.value
  | .weight => ofFloat e.weight

theorem Entry.carries {s : OutcomeSort} {e : Entry s.Carrier}
    (hvalue : s.Numbers (· < 2 ^ 64) e.value) (hweight : ReadsBack e.weight) :
    Carries (Entry.read s) (Entry.write s e) e := by
  have hfields : Carries (format s).readWhole (Entry.write s e) e.part := by
    refine Format.carries_whole e.writePart (by decide) (by decide) fun f => ?_
    cases f with
    | value => exact OutcomeSort.carries hvalue
    | weight => exact carries_ofFloat hweight
  exact hfields.map fun fields => (⟨fields .value, fields .weight⟩ : Entry s.Carrier)

/-! ### Configurations -/

namespace PolicyConfig

variable {c : PolicyConfig}

theorem carries_limits (h : c.Numbers (· < 2 ^ 64) ReadsBack) :
    Carries LimitOverrides.read c.limits.write c.limits := by
  have hdraft : Carries LimitOverrides.format.readDraft c.limits.write
      (fun l => some (c.limits.value l)) :=
    Format.carries_draft _ (by decide +kernel) (by decide) fun l => carries_ofOption fun v hv =>
      ⟨LimitSort.carries (h.limits l v hv), LimitSort.write_ne_null (h.limits l v hv)⟩
  exact hdraft.map fun draft => LimitOverrides.mk fun l => (draft l).join

theorem carries_tables (h : c.Numbers (· < 2 ^ 64) ReadsBack) :
    Carries TableOverrides.read c.tables.write c.tables := by
  have hdraft : Carries TableOverrides.format.readDraft c.tables.write
      (fun t => some (c.tables.entries t)) := by
    refine Format.carries_draft _ (by decide +kernel) (by decide) fun t =>
      carries_ofOption fun es hes => ?_
    refine ⟨carries_ofList fun e he => ?_, nofun⟩
    obtain ⟨hvalue, hweight⟩ := h.tables t es hes e he
    exact Entry.carries hvalue hweight
  exact hdraft.map fun draft => TableOverrides.mk fun t => (draft t).join

/-- What a field of a configuration holds. -/
def part (c : PolicyConfig) : (f : Field) → format.Value f
  | .limits => c.limits
  | .tables => c.tables
  | .eviction => c.eviction

/-- The tree of what a field of a configuration holds. -/
def writePart (c : PolicyConfig) : Field → Tree
  | .limits => c.limits.write
  | .tables => c.tables.write
  | .eviction => ofOption ofVariant c.eviction

theorem carries (h : c.Numbers (· < 2 ^ 64) ReadsBack) : Carries read c.write c := by
  have hdraft : Carries format.readDraft c.write (fun f => some (c.part f)) := by
    refine Format.carries_draft c.writePart (by decide) (by decide) fun f => ?_
    cases f with
    | limits => exact carries_limits h
    | tables => exact carries_tables h
    | eviction => exact carries_ofOption fun e _ => ⟨carries_ofVariant (by decide) e, nofun⟩
  exact hdraft.map fun draft => PolicyConfig.mk ((draft .limits).getD LimitOverrides.blank)
    ((draft .tables).getD TableOverrides.blank) (Option.join (draft .eviction))

/-- **Documents are read back.** The text of a configuration is read as the same configuration, and the
text of limits as the same limits, if every natural number in them has 64 bits and every double is
finite and is read from its own numeral. What is not given stays so. -/
theorem ofText_toText :
    (∀ c : PolicyConfig, c.Numbers (· < 2 ^ 64) ReadsBack → ofText c.toText = .ok c) ∧
    ∀ l : Limits, l.Numbers (· < 2 ^ 64) ReadsBack →
      readText Limits.read (render l.write) = .ok l :=
  ⟨fun _ h => (carries h).readText strict_read,
    fun _ h => (Limits.carries h).readText Limits.strict_read⟩

/-- A configuration with a range up to the greatest word, a negative zero, a weight whose text has
seventeen digits and the greatest double, and the default limits. -/
theorem ofText_toText_words : ∃ c : PolicyConfig,
    c.limits.value .constOffset = some ⟨0, 2 ^ 64 - 1⟩ ∧
    c.limits.value .alternation = some (-0.0) ∧
    c.tables.entries .intType =
      some [⟨.schar, 0.30000000000000004⟩, ⟨.ullong, 1.7976931348623157e308⟩] ∧
    ofText c.toText = .ok c ∧
    readText Limits.read (render Limits.default.write) = .ok .default := by
  let c : PolicyConfig :=
    { limits := ⟨fun
        | .constOffset => some ⟨0, 2 ^ 64 - 1⟩
        | .alternation => some (-0.0)
        | _ => none⟩
      tables := ⟨fun
        | .intType => some [⟨.schar, 0.30000000000000004⟩, ⟨.ullong, 1.7976931348623157e308⟩]
        | _ => none⟩
      eviction := some .randomReplace }
  have hlimits (l : LimitId) (v : l.Value) (hv : c.limits.value l = some v) :
      l.sort.Numbers (· < 2 ^ 64) ReadsBack v := by
    cases l with
    | constOffset =>
      obtain rfl := Option.some.inj hv
      exact ⟨by decide, by decide⟩
    | alternation =>
      obtain rfl := Option.some.inj hv
      exact ⟨by decide +kernel, by decide +kernel⟩
    | _ => cases hv
  have htables (t : TableId) (es : List (Entry t.Outcome)) (hes : c.tables.entries t = some es) :
      ∀ e ∈ es, t.sort.Numbers (· < 2 ^ 64) e.value ∧ ReadsBack e.weight := by
    cases t with
    | intType =>
      obtain rfl := Option.some.inj hes
      refine List.forall_mem_cons.mpr ⟨⟨trivial, ?_⟩, List.forall_mem_singleton.mpr ⟨trivial, ?_⟩⟩
      · exact ⟨by decide +kernel, by decide +kernel⟩
      · exact ⟨by decide +kernel, by decide +kernel⟩
    | _ => cases hes
  have hdefault : Limits.default.Numbers (· < 2 ^ 64) ReadsBack := by
    intro id
    cases id with
    | alternation => exact ⟨by decide +kernel, by decide +kernel⟩
    | scopeStmtNum | itersEndLimit | inpVarsNum | newArrNum | constOffset =>
      exact ⟨by decide, by decide⟩
    | _ => exact Nat.le_of_ble_eq_true rfl
  exact ⟨c, rfl, rfl, rfl, ofText_toText.1 c ⟨hlimits, htables⟩, ofText_toText.2 _ hdefault⟩

end PolicyConfig

end FuzzPolicy
