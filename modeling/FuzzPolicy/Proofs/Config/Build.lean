import FuzzPolicy.Proofs.Catalog.Defaults

/-!
# The policy that a configuration names

A configuration is made a policy in three stages, and each has its own way to fail: the limits may be
invalid, the entries given for a table may make none, and the tables may not fit the limits. Here the
outcome is said without the stages. `PolicyConfig.Names` lists what a policy has from its configuration
and what from the defaults, for every limit and every table by name, so no value can have gone to the
wrong place. `PolicyConfig.Refused` relates a configuration to the fault that is found first.
-/

namespace FuzzPolicy

open Checks

/-! ### Given entries -/

namespace TableOverrides

variable {o : TableOverrides} {ts : List TableId} {c c' : Catalog} {t : TableId}
  {fault : TableFault}

/-- The entries given for a table, if there are any, make one. -/
def Fits (o : TableOverrides) (t : TableId) : Prop :=
  ∀ es, o.entries t = some es → ∃ table, Table.ofEntries es = .ok table

/-- The first of some tables for which the given entries make none, and what is wrong with them. -/
inductive FirstBad (o : TableOverrides) : List TableId → TableId → TableFault → Prop
  | here {t : TableId} {ts : List TableId} {es : List (Entry t.Outcome)} {fault : TableFault}
      (h : o.entries t = some es) (hfault : Table.ofEntries es = .error fault) :
      FirstBad o (t :: ts) t fault
  | later {u t : TableId} {ts : List TableId} {fault : TableFault} (hu : o.Fits u)
      (h : FirstBad o ts t fault) : FirstBad o (u :: ts) t fault

/-- One catalog is another with the given entries for some tables. -/
structure Overrides (o : TableOverrides) (ts : List TableId) (c c' : Catalog) : Prop where
  given : ∀ t ∈ ts, ∀ es, o.entries t = some es → Table.ofEntries es = .ok (c'.table t)
  kept : ∀ t, (t ∈ ts → o.entries t = none) → c'.table t = c.table t

/-- The given entries all make tables, or there is a first table for which they do not. -/
theorem fits_or_firstBad (o : TableOverrides) (ts : List TableId) :
    (∀ t ∈ ts, o.Fits t) ∨ ∃ t fault, o.FirstBad ts t fault := by
  induction ts with
  | nil => exact .inl (by simp)
  | cons u ts ih =>
      by_cases hu : o.Fits u
      · rcases ih with hfits | ⟨t, fault, hbad⟩
        · exact .inl (List.forall_mem_cons.mpr ⟨hu, hfits⟩)
        · exact .inr ⟨t, fault, .later hu hbad⟩
      · simp only [Fits, not_forall] at hu
        obtain ⟨es, hes, hnone⟩ := hu
        cases hmake : Table.ofEntries es with
        | ok table => exact absurd ⟨table, hmake⟩ hnone
        | error fault => exact .inr ⟨u, fault, .here hes hmake⟩

/-! ### Putting them into a catalog -/

theorem applyTo_of_none (h : o.entries t = none) : o.applyTo (t :: ts) c = o.applyTo ts c := by
  simp only [applyTo, h]

theorem applyTo_of_ok {es : List (Entry t.Outcome)} {table : Table t.Outcome}
    (h : o.entries t = some es) (htable : Table.ofEntries es = .ok table) :
    o.applyTo (t :: ts) c = o.applyTo ts (c.set t table) := by
  simp only [applyTo, h, htable]

theorem applyTo_of_firstBad (h : o.FirstBad ts t fault) (c : Catalog) :
    (o.applyTo ts c).2 = some (.table t fault) := by
  induction h generalizing c with
  | here h hfault => simp only [applyTo, h, hfault]
  | @later u t ts fault hu _ ih =>
      cases hes : o.entries u with
      | none =>
          rw [applyTo_of_none hes]
          exact ih c
      | some es =>
          obtain ⟨table, htable⟩ := hu es hes
          rw [applyTo_of_ok hes htable]
          exact ih _

/-- A table may be named twice; then the same entries are put there again. -/
theorem applyTo_of_fits (h : ∀ t ∈ ts, o.Fits t) (c : Catalog) :
    ∃ c', o.applyTo ts c = (c', none) ∧ o.Overrides ts c c' := by
  induction ts generalizing c with
  | nil => exact ⟨c, rfl, by simp, fun _ _ => rfl⟩
  | cons u ts ih =>
      rw [List.forall_mem_cons] at h
      obtain ⟨hu, hts⟩ := h
      cases hes : o.entries u with
      | none =>
          obtain ⟨c', happly, hover⟩ := ih hts c
          refine ⟨c', (applyTo_of_none hes).trans happly, ?_, fun t ht => hover.kept t ?_⟩
          · intro t ht es h
            rcases List.mem_cons.mp ht with rfl | ht
            · rw [hes] at h
              cases h
            · exact hover.given t ht es h
          · exact fun hmem => ht (List.mem_cons_of_mem _ hmem)
      | some es =>
          obtain ⟨table, htable⟩ := hu es hes
          obtain ⟨c', happly, hover⟩ := ih hts (c.set u table)
          refine ⟨c', (applyTo_of_ok hes htable).trans happly, ?_, fun t ht => ?_⟩
          · intro t ht es' h
            by_cases hmem : t ∈ ts
            · exact hover.given t hmem es' h
            · obtain rfl := (List.mem_cons.mp ht).resolve_right hmem
              rw [hover.kept t (fun hin => absurd hin hmem), Catalog.table_set_self]
              rw [hes] at h
              cases h
              exact htable
          · have hne : u ≠ t := by
              rintro rfl
              rw [ht List.mem_cons_self] at hes
              cases hes
            rw [hover.kept t fun hmem => ht (List.mem_cons_of_mem _ hmem),
              Catalog.table_set_of_ne _ _ hne]

theorem Overrides.fits (h : o.Overrides ts c c') : ∀ t ∈ ts, o.Fits t :=
  fun t ht es hes => ⟨c'.table t, h.given t ht es hes⟩

/-- The given entries and the rest of the catalog leave nothing open. -/
theorem Overrides.unique {a b : Catalog} (ha : o.Overrides Vocabulary.all c a)
    (hb : o.Overrides Vocabulary.all c b) : a = b := by
  ext1 t
  cases hes : o.entries t with
  | none => rw [ha.kept t fun _ => hes, hb.kept t fun _ => hes]
  | some es =>
      have hsame := ha.given t (Vocabulary.mem_all t) es hes
      rw [hb.given t (Vocabulary.mem_all t) es hes] at hsame
      exact (Except.ok.inj hsame).symm

end TableOverrides

/-! ### Building -/

namespace PolicyConfig

variable {c : PolicyConfig} {fault : ConfigFault}

/-- The tables that a configuration names are the default ones under its limits, with the entries that
it gives. -/
def Tables (c : PolicyConfig) (tables : Catalog) : Prop :=
  ∃ defaults, Catalog.defaults c.limits.apply = .ok defaults ∧
    c.tables.Overrides Vocabulary.all defaults tables

/-- What is wrong with a configuration: the first fault there is. -/
inductive Refused (c : PolicyConfig) : ConfigFault → Prop
  | limits {fault : ConfigFault} (h : c.limits.apply.validate = .error fault) : Refused c fault
  | table {t : TableId} {fault : TableFault} (hl : c.limits.apply.validate = .ok ())
      (h : c.tables.FirstBad Vocabulary.all t fault) : Refused c (.table t fault)
  | tables {tables : Catalog} {fault : ConfigFault} (hl : c.limits.apply.validate = .ok ())
      (ht : c.Tables tables) (h : tables.validate c.limits.apply = .error fault) : Refused c fault

/-- Limits that are not given keep their defaults. -/
theorem get_apply (o : LimitOverrides) (l : LimitId) :
    o.apply.get l = (o.value l).getD (Limits.default.get l) :=
  Limits.get_ofFn _ l

theorem build_of_firstBad {t : TableId} {fault : TableFault} (hl : c.limits.apply.validate = .ok ())
    (h : c.tables.FirstBad Vocabulary.all t fault) : c.build = .error (.table t fault) := by
  obtain ⟨defaults, hd⟩ := Catalog.exists_defaults hl
  have hfault := TableOverrides.applyTo_of_firstBad h defaults
  unfold build
  rw [bind_of_ok hl, bind_of_ok hd]
  simp only [TableOverrides.apply]
  split
  · rename_i hnone
    rw [hnone] at hfault
    cases hfault
  · rename_i hsome
    rw [hsome] at hfault
    cases hfault
    rfl

/-- What is left after the first two stages is a check of the parts. -/
theorem build_of_tables {tables : Catalog} (hl : c.limits.apply.validate = .ok ())
    (ht : c.Tables tables) :
    c.build = Policy.ofParts c.limits.apply tables (c.eviction.getD .fifo) := by
  obtain ⟨defaults, hd, hover⟩ := ht
  obtain ⟨tables', happly, hover'⟩ := TableOverrides.applyTo_of_fits hover.fits defaults
  unfold build
  rw [bind_of_ok hl, bind_of_ok hd]
  simp only [TableOverrides.apply, happly]
  rw [hover.unique hover']

theorem Refused.build (h : c.Refused fault) : c.build = .error fault := by
  cases h with
  | limits h => exact bind_of_error h
  | table hl h => exact build_of_firstBad hl h
  | tables hl ht h =>
      rw [build_of_tables hl ht, Policy.ofParts, bind_of_ok hl]
      exact bind_of_error h

/-- A configuration that is not refused has valid limits and tables that fit them. -/
theorem parts_or_refused (c : PolicyConfig) :
    (∃ tables, c.limits.apply.validate = .ok () ∧ c.Tables tables ∧
      tables.validate c.limits.apply = .ok ()) ∨ ∃ fault, c.Refused fault := by
  cases hl : c.limits.apply.validate with
  | error fault => exact .inr ⟨fault, .limits hl⟩
  | ok _ =>
      rcases c.tables.fits_or_firstBad Vocabulary.all with hfits | ⟨t, fault, hbad⟩
      · obtain ⟨defaults, hd⟩ := Catalog.exists_defaults hl
        obtain ⟨tables, -, hover⟩ := TableOverrides.applyTo_of_fits hfits defaults
        cases hv : tables.validate c.limits.apply with
        | ok _ => exact .inl ⟨tables, rfl, ⟨defaults, hd, hover⟩, hv⟩
        | error fault => exact .inr ⟨fault, .tables hl ⟨defaults, hd, hover⟩ hv⟩
      · exact .inr ⟨_, .table hl hbad⟩

theorem build_eq_error_iff : c.build = .error fault ↔ c.Refused fault := by
  refine ⟨fun h => ?_, Refused.build⟩
  rcases c.parts_or_refused with ⟨tables, hl, ht, hv⟩ | ⟨fault', hrefused⟩
  · rw [build_of_tables hl ht, Policy.ofParts_eq_ok_iff.mpr ⟨hl, hv, rfl⟩] at h
    cases h
  · rw [hrefused.build] at h
    cases h
    exact hrefused

/-- The tables of a policy that was built are those that the configuration names. -/
theorem parts_of_build {p : Policy} (h : c.build = .ok p) : ∃ tables, c.Tables tables ∧
    Policy.ofParts c.limits.apply tables (c.eviction.getD .fifo) = .ok p := by
  rcases c.parts_or_refused with ⟨tables, hl, ht, -⟩ | ⟨fault, hrefused⟩
  · exact ⟨tables, ht, (build_of_tables hl ht).symm.trans h⟩
  · rw [hrefused.build] at h
    cases h

/-! ### What a configuration names -/

/-- What a policy has from its configuration and what from the defaults. -/
structure Names (c : PolicyConfig) (p : Policy) : Prop where
  limit : ∀ l, p.limits.get l = (c.limits.value l).getD (Limits.default.get l)
  given : ∀ t es, c.tables.entries t = some es → (p.tables.table t).entries = es
  kept : ∃ defaults, Catalog.defaults c.limits.apply = .ok defaults ∧
    ∀ t, c.tables.entries t = none → p.tables.table t = defaults.table t
  baseline : p.baseline = p.tables
  operatorMode : p.operatorMode = .unset
  constMode : p.constMode = .unset
  log : p.log = []
  eviction : p.eviction = c.eviction.getD .fifo

theorem names_of_build {p : Policy} (h : c.build = .ok p) : c.Names p := by
  obtain ⟨tables, ⟨defaults, hd, hover⟩, hparts⟩ := parts_of_build h
  obtain ⟨-, -, rfl⟩ := Policy.ofParts_eq_ok_iff.mp hparts
  refine ⟨get_apply c.limits, fun t es hes => ?_, ⟨defaults, hd, fun t hes => ?_⟩, rfl, rfl, rfl,
    rfl, rfl⟩
  · have hmake := hover.given t (Vocabulary.mem_all t) es hes
    exact (Table.ofEntries_eq_ok_iff.mp hmake).1
  · exact hover.kept t fun _ => hes

/-- **A configuration builds exactly the policy that it names.** What it gives is in the policy under
the same name and unchanged, and the rest is as by default. It is refused exactly if a check fails, and
then with the fault of the first: invalid limits, or the first table whose entries make none, or tables
that do not fit the limits. -/
theorem build_names (c : PolicyConfig) :
    (∀ p, c.build = .ok p → c.Names p) ∧
    ∀ fault, c.build = .error fault ↔ c.Refused fault :=
  ⟨fun _ => names_of_build, fun _ => build_eq_error_iff⟩

/-- A configuration that gives one limit, one table and the eviction, and one that is refused for the
first of two tables without entries. -/
theorem build_names_stencilSpan : ∃ (c bad : PolicyConfig) (p : Policy), c.build = .ok p ∧
    p.limits.maxStencilSpan = 2 ∧ p.limits.maxArrsInStencil = 4 ∧
    p.tables.stencilSpan.entries = [⟨2, 1.0⟩, ⟨1, 0.5⟩, ⟨2, 0.25⟩] ∧
    p.eviction = .randomReplace ∧
    bad.build = .error (.table .loopSeqNum .empty) := by
  let c : PolicyConfig :=
    { limits := ⟨fun | .maxStencilSpan => some 2 | _ => none⟩
      tables := ⟨fun | .stencilSpan => some [⟨2, 1.0⟩, ⟨1, 0.5⟩, ⟨2, 0.25⟩] | _ => none⟩
      eviction := some .randomReplace }
  let bad : PolicyConfig :=
    { limits := .blank
      tables := ⟨fun | .loopSeqNum => some [] | .ubInDc => some [] | _ => none⟩
      eviction := none }
  have hok : c.build.isOk = true := by decide +kernel
  have hbad : bad.build = .error (.table .loopSeqNum .empty) :=
    (build_names bad).2 _ |>.mpr (.table (by decide +kernel) (.here rfl rfl))
  cases hp : c.build with
  | error fault =>
      rw [hp] at hok
      cases hok
  | ok p =>
      have hnames : c.Names p := (build_names c).1 p hp
      exact ⟨c, bad, p, hp, hnames.limit .maxStencilSpan, hnames.limit .maxArrsInStencil,
        hnames.given .stencilSpan _ rfl, hnames.eviction, hbad⟩

end PolicyConfig

/-! ### Documents -/

theorem Document.Reading.toOverride_eq_ok_iff {α : Type} {r : Document.Reading α} {a : α} :
    r.toOverride = .ok a ↔ r = .ok a := by
  cases r with
  | error fault => exact ⟨nofun, nofun⟩
  | ok b => simp [toOverride]

/-- A document names a policy by the configuration in it. -/
theorem Policy.ofText_eq_ok_iff {text : String} {p : Policy} :
    ofText text = .ok p ↔ ∃ c, PolicyConfig.ofText text = .ok c ∧ c.build = .ok p := by
  unfold ofText
  rw [bind_eq_ok_iff]
  refine exists_congr fun c => and_congr Document.Reading.toOverride_eq_ok_iff ?_
  cases c.build with
  | error fault =>
      constructor
      · intro h
        cases h
      · intro h
        cases h
  | ok q =>
      constructor
      · intro h
        cases h
        rfl
      · intro h
        cases h
        rfl

end FuzzPolicy
