import FuzzPolicy.Proofs.Catalog.Changed
import FuzzPolicy.Proofs.Policy.WellFormed

/-!
# The log of modes

Every choice of a mode leaves a record behind. So the log of a policy can be read in two ways. As a
history it has one record for each choice that was made, in order, and the record tells which tables have
changed between just before and just after the choice: `Policy.log_reports`. And it tells how things stand:
the last record of a kind names the mode, and if there is none, no choice has been made:
`Policy.toldIn_log`. As the tables follow the modes, the baseline and the log are enough to know all tables.

Both are seen on one choice first. A call that makes none, since there is a mode already, changes nothing.
-/

namespace FuzzPolicy

open Vocabulary (name)

/-! ### Choices in a run -/

namespace ModeCall

/-- The kind of mode that a call is about. -/
def kind : ModeCall → ModeKind
  | .select k | .reselect k => k

/-- Whether an earlier choice would be discarded. -/
def again : ModeCall → Bool
  | .select _ => false
  | .reselect _ => true

end ModeCall

/-- A choice of a mode in a run: the policy just before, the call, and the policy just after. -/
structure ModeChange where
  before : Policy
  call : ModeCall
  after : Policy

namespace Policy

/-- Whether a call makes a choice: one that discards what was chosen always does, and any other one only
if nothing was. -/
def chooses (p : Policy) : ModeCall → Bool
  | .select k => (p.mode k).isUnset
  | .reselect _ => true

/-- The choices that are made in a run, in order. -/
def changes (p : Policy) : List (ModeCall × Source) → List ModeChange
  | [] => []
  | (c, s) :: calls =>
    (if p.chooses c then [⟨p, c, (p.call c s).1⟩] else []) ++ (p.call c s).1.changes calls

theorem changes_append (p : Policy) (calls more : List (ModeCall × Source)) :
    p.changes (calls ++ more) = p.changes calls ++ (p.after calls).changes more := by
  induction calls generalizing p with
  | nil => rfl
  | cons c calls ih =>
      obtain ⟨c, s⟩ := c
      rw [List.cons_append, changes, changes, after, ih, List.append_assoc]

/-- A call that makes a choice adopts it. -/
theorem call_of_chooses {p : Policy} {c : ModeCall} (h : p.chooses c = true) (s : Source) :
    ∃ choice, (p.call c s).1 = p.adopt c.kind choice c.again := by
  cases c with
  | select k =>
      have hunset : (p.mode k).isUnset = true := h
      refine ⟨(k.choose p.tables s).1, ?_⟩
      change (p.select k s).1.2 = p.adopt k (k.choose p.tables s).1 false
      unfold select
      rw [hunset]
      rfl
  | reselect k => exact ⟨(k.choose p.tables s).1, rfl⟩

/-- Any other call changes nothing and draws nothing. -/
theorem call_of_not_chooses {p : Policy} {c : ModeCall} (h : p.chooses c = false) (s : Source) :
    p.call c s = (p, s) := by
  cases c with
  | select k =>
      have hset : (p.mode k).isUnset = false := h
      change ((p.select k s).1.2, (p.select k s).2) = (p, s)
      unfold select
      rw [hset]
      rfl
  | reselect k => cases h

/-! ### The record of a choice -/

@[simp] theorem mode_adopt_self (p : Policy) (k : ModeKind) (choice : Option k.Choice) (r : Bool) :
    (p.adopt k choice r).mode k = .ofChoice choice := by
  cases k <;> rfl

theorem mode_adopt_of_ne (p : Policy) {k k' : ModeKind} (choice : Option k.Choice) (r : Bool)
    (h : k ≠ k') : (p.adopt k choice r).mode k' = p.mode k' := by
  cases k <;> cases k' <;> first | rfl | exact absurd rfl h

end Policy

/-- A choice leaves a table alone that does not depend on its kind of mode. -/
theorem ModeKind.table_tablesAfter {k : ModeKind} {t : TableId} (h : t ∉ k.dependents)
    (baseline current : Catalog) (choice : Option k.Choice) :
    (k.tablesAfter baseline current choice).table t = current.table t := by
  cases k with
  | operators => cases choice <;> cases t <;> first | rfl | exact absurd (by decide) h
  | constants => cases choice <;> cases t <;> first | rfl | exact absurd (by decide) h

/-- What a log tells of a mode: nothing, or that there is none, or its name. -/
def Mode.told {α : Type} [Vocabulary α] : Mode α → Option (Option String)
  | .unset => none
  | .disabled => some none
  | .active mode => some (some (name mode))

theorem Mode.told_ofChoice {α : Type} [Vocabulary α] (choice : Option α) :
    (Mode.ofChoice choice).told = some (choice.map name) := by
  cases choice <;> rfl

/-- The mode that a log tells of. -/
def Mode.ofTold {α : Type} [Vocabulary α] : Option (Option String) → Mode α
  | none => .unset
  | some none => .disabled
  | some (some s) => (Vocabulary.ofName? s).elim .unset .active

/-- A mode is known from what a log tells of it, as names tell words apart. -/
theorem Mode.ofTold_told {α : Type} [Vocabulary α] (mode : Mode α) : ofTold mode.told = mode := by
  cases mode with
  | unset => rfl
  | disabled => rfl
  | active mode => rw [told, ofTold, Vocabulary.ofName?_name, Option.elim_some]

theorem Mode.eq_iff_told_eq {α : Type} [Vocabulary α] {a b : Mode α} : a = b ↔ a.told = b.told := by
  constructor
  · exact congrArg told
  · intro h
    rw [← ofTold_told a, h, ofTold_told]

/-- A record that reports a choice: of which kind it was, whether it discarded another one, what was chosen,
and which tables have other contents after it than before. -/
structure ModeRecord.Reports (r : ModeRecord) (change : ModeChange) : Prop where
  kind : r.kind = change.call.kind
  reselected : r.reselected = change.call.again
  selected : (change.after.mode r.kind).told = some r.selectedName
  overwritten : ∀ t, t ∈ r.overwritten ↔
    ¬ (change.before.tables.table t).Same (change.after.tables.table t)
  inOrder : r.overwritten.Sublist Vocabulary.all
  nodup : r.overwritten.Nodup
  dependent : ∀ t ∈ r.overwritten, t ∈ r.kind.dependents

namespace Policy

/-- **A choice adds one record, which reports it.** -/
theorem exists_reports {p : Policy} {c : ModeCall} (h : p.chooses c = true) (s : Source)
    (hbefore : p.tables.WellFormed) (hafter : (p.call c s).1.tables.WellFormed) :
    ∃ r : ModeRecord, (p.call c s).1.log = p.log ++ [r] ∧ r.Reports ⟨p, c, (p.call c s).1⟩ := by
  obtain ⟨choice, hcall⟩ := call_of_chooses h s
  rw [hcall] at hafter ⊢
  refine ⟨_, p.log_adopt c.kind choice c.again, rfl, rfl, ?_, ?_, ?_, ?_, ?_⟩
  · dsimp only
    rw [mode_adopt_self, Mode.told_ofChoice]
    rfl
  · intro t
    dsimp only
    rw [← adopt_tables, Catalog.mem_changed_iff hbefore hafter]
  · exact Catalog.changed_sublist _ _
  · exact Catalog.nodup_changed _ _
  · intro t ht
    by_contra hnot
    rw [← adopt_tables, Catalog.mem_changed_iff hbefore hafter, adopt_tables,
      ModeKind.table_tablesAfter hnot] at ht
    exact ht (.refl _)

theorem Made.log_eq_nil {p : Policy} (hp : p.Made) : p.log = [] := by
  obtain ⟨limits, tables, eviction, hparts, -⟩ := hp.parts
  rw [(ofParts_eq_ok_iff.mp hparts).2.2]
  rfl

/-- **The records are reports of the choices**, one for each and in order. -/
theorem log_reports {p : Policy} (hp : p.Made) (calls : List (ModeCall × Source)) :
    List.Forall₂ ModeRecord.Reports (p.after calls).log (p.changes calls) := by
  induction calls using List.reverseRecOn with
  | nil =>
      rw [after, hp.log_eq_nil]
      exact .nil
  | append_singleton calls c ih =>
      obtain ⟨c, s⟩ := c
      have hbefore := (hp.wellFormed_after calls).1
      have hafter := (hp.wellFormed_after (calls ++ [(c, s)])).1
      rw [after_append] at hafter ⊢
      rw [changes_append]
      cases hchooses : (p.after calls).chooses c with
      | true =>
          obtain ⟨r, hlog, hreports⟩ := exists_reports hchooses s hbefore hafter
          have hchanges : (p.after calls).changes [(c, s)] =
              [⟨p.after calls, c, ((p.after calls).call c s).1⟩] := by
            rw [changes, if_pos hchooses]
            rfl
          rw [hchanges]
          change List.Forall₂ _ ((p.after calls).call c s).1.log _
          rw [hlog]
          exact List.rel_append ih (.cons hreports .nil)
      | false =>
          have hchanges : (p.after calls).changes [(c, s)] = [] := by
            rw [changes, if_neg (by rw [hchooses]; decide)]
            rfl
          rw [hchanges, List.append_nil]
          change List.Forall₂ _ ((p.after calls).call c s).1.log _
          rw [call_of_not_chooses hchooses]
          exact ih

end Policy

/-! ### What the log tells -/

/-- The last record of a kind in a log, if there is one. -/
def ModeKind.lastIn (k : ModeKind) (log : List ModeRecord) : Option ModeRecord :=
  (log.filter fun r => r.kind = k).getLast?

namespace ModeKind

variable {k : ModeKind} {log : List ModeRecord} {r : ModeRecord}

theorem lastIn_eq_none_iff : k.lastIn log = none ↔ ∀ r ∈ log, r.kind ≠ k := by
  rw [lastIn, List.getLast?_eq_none_iff, List.filter_eq_nil_iff]
  simp

theorem lastIn_append_self (h : r.kind = k) : k.lastIn (log ++ [r]) = some r := by
  simp [lastIn, h]

theorem lastIn_append_of_ne (h : r.kind ≠ k) : k.lastIn (log ++ [r]) = k.lastIn log := by
  simp [lastIn, h]

/-- What a log tells of the mode of a kind: what its last record of the kind names. -/
def toldIn (k : ModeKind) (log : List ModeRecord) : Option (Option String) :=
  (k.lastIn log).map ModeRecord.selectedName

end ModeKind

/-- The tables that a log makes of a baseline: those under the modes that it tells of. -/
def Catalog.underLog (baseline : Catalog) (log : List ModeRecord) : Catalog :=
  baseline.under (.ofTold (ModeKind.operators.toldIn log)) (.ofTold (ModeKind.constants.toldIn log))

namespace Policy

/-- Whether the log tells the modes. -/
def Told (p : Policy) : Prop :=
  ∀ k : ModeKind, k.toldIn p.log = (p.mode k).told

theorem exists_record (p : Policy) (k : ModeKind) (choice : Option k.Choice) (r : Bool) :
    ∃ record : ModeRecord, (p.adopt k choice r).log = p.log ++ [record] ∧ record.kind = k ∧
      record.selectedName = choice.map name :=
  ⟨_, p.log_adopt k choice r, rfl, rfl⟩

/-- A choice is told by its own record, and the mode of the other kind by the record that did before. -/
theorem told_adopt (p : Policy) (k : ModeKind) (choice : Option k.Choice) (r : Bool) (h : p.Told) :
    (p.adopt k choice r).Told := by
  obtain ⟨record, hlog, hkind, hname⟩ := p.exists_record k choice r
  intro k'
  rw [hlog]
  by_cases hk : k = k'
  · subst hk
    rw [mode_adopt_self, Mode.told_ofChoice, ModeKind.toldIn, ModeKind.lastIn_append_self hkind,
      Option.map_some, hname]
  · rw [mode_adopt_of_ne p choice r hk, ModeKind.toldIn, ModeKind.lastIn_append_of_ne (hkind ▸ hk)]
    exact h k'

theorem Made.told {p : Policy} (hp : p.Made) : p.Told := by
  obtain ⟨limits, tables, eviction, hparts, -⟩ := hp.parts
  rw [(ofParts_eq_ok_iff.mp hparts).2.2]
  intro k
  cases k <;> rfl

/-- **The last record of a kind tells the mode.** -/
theorem toldIn_log {p : Policy} (hp : p.Made) (calls : List (ModeCall × Source)) (k : ModeKind) :
    k.toldIn (p.after calls).log = ((p.after calls).mode k).told :=
  after_induction told_adopt hp.told calls k

theorem mode_eq_iff {p : Policy} (hp : p.Made) (calls : List (ModeCall × Source)) {k : ModeKind}
    {mode : Mode k.Choice} :
    (p.after calls).mode k = mode ↔ k.toldIn (p.after calls).log = mode.told := by
  rw [Mode.eq_iff_told_eq, toldIn_log hp calls k]

/-- The tables are known from the baseline and the log. -/
theorem tables_eq_underLog {p : Policy} (hp : p.Made) (calls : List (ModeCall × Source)) :
    (p.after calls).tables = p.baseline.underLog (p.after calls).log := by
  rw [Catalog.underLog, toldIn_log hp, toldIn_log hp, Mode.ofTold_told, Mode.ofTold_told]
  exact tables_after hp.accepted calls

/-- **The log of modes can be relied on.** After any calls it has a record for each choice that was made and
no other, in order, and each reports its choice: the tables that it lists are those whose contents differ
between just before and just after, and all of them depend on the kind of mode. The next call adds a
record if it makes a choice, and else it changes nothing and draws nothing. A mode is unset if the log has
no record of its kind; if it has one, the last names the mode that is active, or none. So the baseline and
the log are enough to know the tables. -/
theorem log_tells {p : Policy} (hp : p.Made) (calls : List (ModeCall × Source)) :
    List.Forall₂ ModeRecord.Reports (p.after calls).log (p.changes calls) ∧
    (∀ c s, (p.after calls).chooses c = true →
      ∃ r : ModeRecord, ((p.after calls).call c s).1.log = (p.after calls).log ++ [r] ∧
        r.Reports ⟨p.after calls, c, ((p.after calls).call c s).1⟩) ∧
    (∀ c s, (p.after calls).chooses c = false → (p.after calls).call c s = (p.after calls, s)) ∧
    (∀ k : ModeKind,
      ((p.after calls).mode k = .unset ↔ ∀ r ∈ (p.after calls).log, r.kind ≠ k) ∧
      ((p.after calls).mode k = .disabled ↔
        ∃ r, k.lastIn (p.after calls).log = some r ∧ r.selectedName = none) ∧
      ∀ mode, (p.after calls).mode k = .active mode ↔
        ∃ r, k.lastIn (p.after calls).log = some r ∧ r.selectedName = some (name mode)) ∧
    (p.after calls).tables = p.baseline.underLog (p.after calls).log := by
  refine ⟨log_reports hp calls, fun c s hchooses => ?_, fun c s hnot => call_of_not_chooses hnot s,
    fun k => ⟨?_, ?_, fun mode => ?_⟩, tables_eq_underLog hp calls⟩
  · have hafter := (hp.wellFormed_after (calls ++ [(c, s)])).1
    rw [after_append] at hafter
    exact exists_reports hchooses s (hp.wellFormed_after calls).1 hafter
  · rw [mode_eq_iff hp, ← ModeKind.lastIn_eq_none_iff]
    exact Option.map_eq_none_iff
  · rw [mode_eq_iff hp]
    exact Option.map_eq_some_iff
  · rw [mode_eq_iff hp]
    exact Option.map_eq_some_iff

/-- A run on the default policy with three calls, of which the second makes no choice. The first makes a
family of operators active, the last chooses no use of constants. -/
theorem log_tells_default : ∃ p : Policy, p.Made ∧ ∃ calls,
    calls.length = 3 ∧ (p.after calls).log.length = 2 ∧
    (∃ r, ModeKind.operators.lastIn (p.after calls).log = some r ∧
      r.selectedName = some "additive") ∧
    ∃ r, ModeKind.constants.lastIn (p.after calls).log = some r ∧ r.selectedName = none := by
  let zeros : Source := ⟨fun _ => 0, 0⟩
  let ones : Source := ⟨fun _ => 0xffffffffffffffff, 0⟩
  let calls : List (ModeCall × Source) :=
    [(.select .operators, zeros), (.select .operators, zeros), (.reselect .constants, ones)]
  obtain ⟨tables, p, hp, hcheck⟩ := exists_default
    (fun p => p.tables.WellFormed ∧ (p.changes calls).length = 2 ∧
      (p.after calls).operatorMode = .active .additive ∧ (p.after calls).constMode = .disabled)
    (by decide +kernel)
  obtain ⟨hwf, hlength, hoperators, hconstants⟩ := of_decide_eq_true hcheck
  rw [(ofParts_eq_ok_iff.mp hp).2.2] at hwf
  have hmade : p.Made := .ofParts (fun t => Table.made_iff_wellFormed.mpr (hwf t)) hp
  obtain ⟨hreports, -, -, hmodes, -⟩ := log_tells hmade calls
  exact ⟨p, hmade, calls, rfl, hreports.length_eq.trans hlength,
    ((hmodes .operators).2.2 .additive).mp hoperators, (hmodes .constants).2.1.mp hconstants⟩

end Policy

end FuzzPolicy
