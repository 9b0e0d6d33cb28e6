import FuzzPolicy.Proofs.Policy.WellFormed
import FuzzPolicy.Proofs.Table.Filter

/-!
# Operators keep to the active family

A family restricts the operator tables of the baseline, and `familyTable` has two ways out if that
leaves nothing to draw: the members of the family with equal weights, and the baseline as it is. The
second would let other operators through. It is never taken, as a family has members and values of weight
one always make a table. So what is drawn under a family is a member of it: `Policy.operators_in_family`.
-/

namespace FuzzPolicy

open Draw

/-! ### The table of a family -/

section

variable {α : Type} {base t : Table α} {family : List α}

variable [DecidableEq α]

/-- What a family makes of a table. If one of its members can be drawn, the entries of members are left, in
their order and with their weights. If not, filtering fails, and every member stands in the table once
with weight one. -/
structure Restricts (base : Table α) (family : List α) (t : Table α) : Prop where
  kept : (∃ v ∈ base.support, v ∈ family) →
    base.filter (fun v => family.contains v) = .ok t ∧
      t.entries = base.entries.filter fun e => e.value ∈ family
  spread : (∀ v ∈ base.support, v ∉ family) →
    (∃ fault, base.filter (fun v => family.contains v) = .error fault) ∧
      Table.uniform family = .ok t ∧
      t.entries = family.map (fun v => ⟨v, 1.0⟩) ∧ family.Nodup

/-- The baseline as it is would be the last way out. It is not needed. -/
theorem familyTable_restricts (hbase : base.WellFormed) (hne : family ≠ [])
    (hlen : family.length < 2 ^ 53) (hnodup : family.Nodup) :
    Restricts base family (familyTable base family) := by
  obtain ⟨even, heven, hentries⟩ := Table.uniform_eq_ok hne hlen
  constructor
  · rintro ⟨v, hv, hmem⟩
    have hdrawn : ∃ v ∈ base.support, family.contains v = true := ⟨v, hv, by simpa using hmem⟩
    have hdrawable := (Table.drawable_kept_iff hbase).mpr hdrawn
    have hfilter : base.filter (fun v => family.contains v) = .ok ⟨_, hdrawable.ne_nil⟩ :=
      hdrawable.ofEntries
    have htable : familyTable base family = ⟨_, hdrawable.ne_nil⟩ := by
      unfold familyTable
      rw [hfilter]
    rw [htable]
    exact ⟨hfilter, by simp [Table.kept]⟩
  · intro hnone
    have hempty : ∀ v ∈ base.support, family.contains v = false := by simpa using hnone
    obtain ⟨fault, hfilter⟩ := (Table.filter_eq_error_iff hbase).mpr hempty
    have htable : familyTable base family = even := by
      unfold familyTable
      rw [hfilter, heven]
    rw [htable]
    exact ⟨⟨fault, hfilter⟩, heven, hentries, hnodup⟩

/-- Whichever way the table was made, nothing but members can be drawn from it. -/
theorem Restricts.mem_of_mem_support (h : Restricts base family t) {v : α} (hv : v ∈ t.support) :
    v ∈ family := by
  obtain ⟨e, he, -, rfl⟩ := Table.mem_support_iff.mp hv
  by_cases hdrawn : ∃ v ∈ base.support, v ∈ family
  · rw [(h.kept hdrawn).2] at he
    simpa using (List.mem_filter.mp he).2
  · have hnone : ∀ v ∈ base.support, v ∉ family := by simpa using hdrawn
    rw [(h.spread hnone).2.2.1] at he
    obtain ⟨w, hw, rfl⟩ := List.mem_map.mp he
    exact hw

end

/-! ### The families -/

theorem operatorTables_restrict {baseline : Catalog} (h : baseline.WellFormed)
    (family : OperatorFamily) :
    Restricts baseline.unaryOp family.unaryOps (operatorTables family baseline).unary ∧
      Restricts baseline.binaryOp family.binaryOps (operatorTables family baseline).binary := by
  have hunary : baseline.unaryOp.WellFormed := h .unaryOp
  have hbinary : baseline.binaryOp.WellFormed := h .binaryOp
  constructor
  · refine familyTable_restricts hunary ?_ ?_ ?_ <;> cases family <;> decide
  · refine familyTable_restricts hbinary ?_ ?_ ?_ <;> cases family <;> decide

namespace Policy

/-- **Operators keep to the active family.** In every state that a policy reaches by choosing modes, if a
family is active, every operator that is drawn is a member of it, whatever the tables that the policy was
made with. These tables and the family leave nothing open: entries of members are kept if one of them
can be drawn, and else all members are equally likely. -/
theorem operators_in_family {p : Policy} (hp : p.Made) (calls : List (ModeCall × Source))
    {family : OperatorFamily} (hmode : (p.after calls).operatorMode = .active family) :
    (p.after calls).tables.unaryOp.sample.Always (· ∈ family.unaryOps) ∧
    (p.after calls).tables.binaryOp.sample.Always (· ∈ family.binaryOps) ∧
    Restricts p.baseline.unaryOp family.unaryOps (p.after calls).tables.unaryOp ∧
    Restricts p.baseline.binaryOp family.binaryOps (p.after calls).tables.binaryOp := by
  obtain ⟨limits, tables, eviction, hparts, hwf⟩ := hp.parts
  have hbaseline : p.baseline.WellFormed := by
    rw [(ofParts_eq_ok_iff.mp hparts).2.2]
    exact hwf
  have htables := tables_after (.inl ⟨_, _, _, hparts⟩) calls
  have hunary : (p.after calls).tables.unaryOp = (operatorTables family p.baseline).unary := by
    rw [htables, hmode]
    rfl
  have hbinary : (p.after calls).tables.binaryOp = (operatorTables family p.baseline).binary := by
    rw [htables, hmode]
    rfl
  obtain ⟨hrestricts, hrestricts'⟩ := operatorTables_restrict hbaseline family
  have hdrawn := (hp.wellFormed_after calls).1
  rw [hunary, hbinary]
  refine ⟨?_, ?_, hrestricts, hrestricts'⟩
  · have hwf : (p.after calls).tables.unaryOp.WellFormed := hdrawn .unaryOp
    rw [hunary] at hwf
    exact (Table.always_sample hwf).mono fun v hv => hrestricts.mem_of_mem_support hv
  · have hwf : (p.after calls).tables.binaryOp.WellFormed := hdrawn .binaryOp
    rw [hbinary] at hwf
    exact (Table.always_sample hwf).mono fun v hv => hrestricts'.mem_of_mem_support hv

/-- A policy whose binary operators include a repeated member of the chosen family and a weightless one,
and whose unary operators include none. -/
theorem operators_in_family_additive : ∃ p : Policy, p.Made ∧ ∃ calls,
    (p.after calls).operatorMode = .active .additive ∧
    p.baseline.unaryOp.entries = [⟨.bitNot, 2.0⟩] ∧
    (p.after calls).tables.unaryOp.entries = [⟨.plus, 1.0⟩, ⟨.negate, 1.0⟩] ∧
    (p.after calls).tables.unaryOp.sample.Always (· ∈ [.plus, .negate]) ∧
    p.baseline.binaryOp.entries = [⟨.add, 9.0⟩, ⟨.mul, 5.0⟩, ⟨.sub, 0.0⟩, ⟨.add, 1.0⟩] ∧
    (p.after calls).tables.binaryOp.entries = [⟨.add, 9.0⟩, ⟨.sub, 0.0⟩, ⟨.add, 1.0⟩] ∧
    (p.after calls).tables.binaryOp.sample.Always (· ∈ [.add, .sub]) := by
  let c : PolicyConfig :=
    { limits := .blank
      tables := ⟨fun
        | .unaryOp => some [⟨.bitNot, 2.0⟩]
        | .binaryOp => some [⟨.add, 9.0⟩, ⟨.mul, 5.0⟩, ⟨.sub, 0.0⟩, ⟨.add, 1.0⟩]
        | _ => none⟩
      eviction := none }
  let calls : List (ModeCall × Source) := [(.select .operators, ⟨fun _ => 0, 0⟩)]
  have hcheck : (c.build.map fun p =>
      decide ((p.after calls).operatorMode = .active .additive)).toOption = some true := by
    decide +kernel
  cases hp : c.build with
  | error fault =>
      rw [hp] at hcheck
      cases hcheck
  | ok p =>
      rw [hp] at hcheck
      have hmode : (p.after calls).operatorMode = .active .additive :=
        of_decide_eq_true (Option.some.inj hcheck)
      have hmade : p.Made := .build hp
      have hnames : c.Names p := PolicyConfig.names_of_build hp
      have hunary : p.baseline.unaryOp.entries = [⟨.bitNot, 2.0⟩] := by
        rw [hnames.baseline]
        exact hnames.given .unaryOp _ rfl
      have hbinary : p.baseline.binaryOp.entries =
          [⟨.add, 9.0⟩, ⟨.mul, 5.0⟩, ⟨.sub, 0.0⟩, ⟨.add, 1.0⟩] := by
        rw [hnames.baseline]
        exact hnames.given .binaryOp _ rfl
      obtain ⟨hsample, hsample', hrestricts, hrestricts'⟩ := operators_in_family hmade calls hmode
      refine ⟨p, hmade, calls, hmode, hunary, ?_, hsample, hbinary, ?_, hsample'⟩
      · refine (hrestricts.spread ?_).2.2.1
        rw [Table.support, hunary]
        decide +kernel
      · refine (hrestricts'.kept ?_).2.trans ?_
        · rw [Table.support, hbinary]
          decide +kernel
        · rw [hbinary]
          rfl

end Policy

end FuzzPolicy
