import FuzzPolicy.Proofs.Session.ConstUse

/-!
# Constants that are used again as they are

Where all constants are to be the same, the mode shuts the gates of the transformation and of the offset,
so that a plan asks for a remembered constant without either. It does not rule the gate of the low bit,
which every plan draws last, by the table that the template has: `Policy.planConst_of_allSame` says what
the plan is, word for word. So constants are used as they are exactly if that table never answers yes:
`Session.reused_but_for_low_bit`. The default one does half of the time.
-/

namespace FuzzPolicy

open Draw

/-! ### Draws -/

/-- A number is drawn from the row without changing it. -/
theorem Draw.below_words (n : Nat) (s : Source) : (below n s).2.words = s.words := by
  have hwithin : ∀ refusals s, (belowWithin n refusals s).2.words = s.words := by
    intro refusals
    induction refusals with
    | zero => exact fun s => rfl
    | succ refusals ih =>
        intro s
        rw [belowWithin, bind_apply]
        split
        · rfl
        · exact ih _
  exact hwithin patience s

theorem Table.sample_single {α : Type} (v : α) (s : Source) :
    (Table.single v).sample s = (v, { s with drawn := s.drawn + 1 }) :=
  Prod.ext (Table.always_sample_single v s) rfl

/-! ### Plans -/

/-- A plan, when so many constants are remembered, to use one of them without transformation or offset. -/
structure ConstPlan.Reuses (plan : ConstPlan) (buffered : Nat) : Prop where
  source : ∃ index < buffered, plan.source = .reuse index none
  offset : plan.offset = none
  exhausted : plan.exhausted = false

/-- A plan to use a remembered constant as it is. -/
structure ConstPlan.Verbatim (plan : ConstPlan) (buffered : Nat) : Prop
    extends plan.Reuses buffered where
  lsbEnd : plan.lsbEnd = false

namespace Policy

variable {p : Policy} {baseline : Catalog} {buffered : Nat}

theorem planReuse_of_allSame (h : p.tables.constants = constTables .allSame baseline) (s : Source) :
    p.planReuse buffered s =
      (.reuse (below buffered s).1 none,
        { (below buffered s).2 with drawn := (below buffered s).2.drawn + 1 }) := by
  have hgate : p.tables.useConstTransform = .single false :=
    congrArg ConstTables.useConstTransform h
  rw [planReuse, hgate, bind_apply, bind_apply, Table.sample_single]
  rfl

theorem planOffset_of_allSame (h : p.tables.constants = constTables .allSame baseline) (s : Source) :
    p.planOffset s = (none, { s with drawn := s.drawn + 1 }) := by
  have hgate : p.tables.useConstOffset = .single false := congrArg ConstTables.useConstOffset h
  rw [planOffset, hgate, bind_apply, Table.sample_single]
  rfl

/-- **The plan where all constants are the same.** One word goes to each of the four gates, and the place is
drawn after the first of them. -/
theorem planConst_of_allSame (h : p.tables.constants = constTables .allSame baseline)
    (hpos : 0 < buffered) (s : Source) :
    let place := below buffered { s with drawn := s.drawn + 1 }
    let low := p.tables.useLsbBitEnd.sample { place.2 with drawn := place.2.drawn + 2 }
    p.planConst buffered s =
      ({ source := .reuse place.1 none, offset := none, lsbEnd := low.1, exhausted := false }, low.2) := by
  have hgate : p.tables.reuseConst = .single true := congrArg ConstTables.reuseConst h
  have hthere : (true && decide (0 < buffered)) = true := by simpa using hpos
  have hsome : (true && buffered == 0) = false := by simpa using hpos.ne'
  rw [planConst, hgate, bind_apply, Table.sample_single]
  dsimp only
  rw [if_pos hthere, bind_apply, planReuse_of_allSame h, bind_apply, planOffset_of_allSame h, hsome]
  rfl

theorem planConst_reuses (h : p.tables.constants = constTables .allSame baseline)
    (hpos : 0 < buffered) (s : Source) : (p.planConst buffered s).1.Reuses buffered := by
  rw [planConst_of_allSame h hpos]
  exact ⟨⟨_, always_below_lt hpos _, rfl⟩, rfl, rfl⟩

theorem planConst_lsbEnd (h : p.tables.constants = constTables .allSame baseline)
    (hpos : 0 < buffered) (s : Source) : ∃ drawn,
      (p.planConst buffered s).1.lsbEnd = (p.tables.useLsbBitEnd.sample ⟨s.words, drawn⟩).1 := by
  have hwords : (below buffered { s with drawn := s.drawn + 1 }).2.words = s.words :=
    below_words buffered _
  rw [planConst_of_allSame h hpos]
  dsimp only
  rw [hwords]
  exact ⟨_, rfl⟩

/-- No mode changes the table of the low bit. -/
theorem useLsbBitEnd_after (hp : p.Accepted) (modes : List (ModeCall × Source)) :
    (p.after modes).tables.useLsbBitEnd = p.tables.useLsbBitEnd := by
  obtain ⟨limits, tables, eviction, hparts⟩ := hp.parts
  have hbaseline : p.baseline = p.tables := by rw [(ofParts_eq_ok_iff.mp hparts).2.2]
  rw [← hbaseline]
  exact table_after hp modes (t := .useLsbBitEnd) (by decide) (by decide)

end Policy

/-! ### Sessions -/

namespace Session

variable {s : Session} {template : Policy}

/-- What is promised of a session that has constants to use again and is to use them as they are, when the
low bit is drawn by some table. -/
structure Reuses (s : Session) (low : Table Bool) : Prop where
  plan : ∀ source, (s.withSource source).planConst.1.Reuses s.consts.length
  /-- The low bit is drawn from the same row, somewhere further on. -/
  lsbEnd : ∀ source, ∃ drawn,
    (s.withSource source).planConst.1.lsbEnd = (low.sample ⟨source.words, drawn⟩).1
  verbatim_iff : (∀ source, (s.withSource source).planConst.1.Verbatim s.consts.length) ↔
    ∀ source, (low.sample source).1 = false
  verbatim : true ∉ low.support →
    ∀ source, (s.withSource source).planConst.1.Verbatim s.consts.length

theorem Of.reuses (hp : template.Made) (h : s.Of template)
    (hmode : s.policy.constMode = .active .allSame) (hpos : 0 < s.consts.length) :
    s.Reuses template.tables.useLsbBitEnd := by
  have hconstants := h.constants_eq hp.accepted hmode
  have hlow : s.policy.tables.useLsbBitEnd = template.tables.useLsbBitEnd := by
    obtain ⟨modes, hpolicy⟩ := h.policy
    rw [hpolicy, Policy.useLsbBitEnd_after hp.accepted]
  have hwf : template.tables.useLsbBitEnd.WellFormed := (hp.wellFormed_after []).1 .useLsbBitEnd
  have hplan := fun source => Policy.planConst_reuses hconstants hpos source
  have hlsbEnd := fun source => Policy.planConst_lsbEnd hconstants hpos source
  rw [hlow] at hlsbEnd
  have hverbatim : (∀ source, (template.tables.useLsbBitEnd.sample source).1 = false) →
      ∀ source, (s.withSource source).planConst.1.Verbatim s.consts.length := by
    intro hnever source
    obtain ⟨drawn, hdrawn⟩ := hlsbEnd source
    exact ⟨hplan source, hdrawn.trans (hnever _)⟩
  refine ⟨hplan, hlsbEnd, ⟨fun hall source => ?_, hverbatim⟩, fun hnot => hverbatim fun source => ?_⟩
  · -- In a row of one word only, all draws of the low bit are the same.
    obtain ⟨drawn, hdrawn⟩ := hlsbEnd ⟨fun _ => source.words source.drawn, 0⟩
    exact hdrawn.symm.trans (hall _).lsbEnd
  · have hmem := Table.always_sample hwf source
    exact Bool.eq_false_iff.mpr fun htrue => hnot (htrue ▸ hmem)

/-- **Where all constants are the same, only the low bit is ever altered.** Whatever modes a policy has when
a session begins, whatever is asked of the session and wherever others have left the source before every
operation: while all constants are to be the same and there is one, every plan asks for one that is
remembered, without transformation or offset. Whether its low bit is altered is drawn by the template's
own table, whatever the mode. So all plans ask for constants as they are exactly if that table never
answers yes, and it does not if it gives yes no weight. -/
theorem reused_but_for_low_bit (hp : template.Made) (modes : List (ModeCall × Source))
    (master id : UInt64) :
    (∀ calls, let s := (new (template.after modes) master id).after calls
      s.policy.constMode = .active .allSame → 0 < s.consts.length →
        s.Reuses template.tables.useLsbBitEnd) ∧
    ∀ ops, let s := ((new (template.after modes) master id).run ops).2
      s.policy.constMode = .active .allSame → 0 < s.consts.length →
        s.Reuses template.tables.useLsbBitEnd := by
  have hcalls : ∀ calls, let s := (new (template.after modes) master id).after calls
      s.policy.constMode = .active .allSame → 0 < s.consts.length →
        s.Reuses template.tables.useLsbBitEnd :=
    fun calls => ((of_new template modes master id).after calls).reuses hp
  refine ⟨hcalls, fun ops => ?_⟩
  obtain ⟨calls, -, hrun⟩ := exists_after_eq_run (new (template.after modes) master id) ops
  rw [← hrun]
  exact hcalls calls

/-- A session with the table of the low bit shut uses its one constant as it is. -/
theorem reused_but_for_low_bit_shut : ∃ p : Policy, p.Made ∧ ∃ ops,
    ((new p 8 0).run ops).2.policy.constMode = .active .allSame ∧
    ((new p 8 0).run ops).2.consts.values = [17] ∧
    ∀ source, (((new p 8 0).run ops).2.withSource source).planConst.1.Verbatim 1 := by
  let c : PolicyConfig :=
    { limits := .blank
      tables := ⟨fun
        | .applyConstUse => some [⟨true, 1.0⟩]
        | .constUse => some [⟨.allSame, 1.0⟩]
        | .useLsbBitEnd => some [⟨false, 1.0⟩]
        | _ => none⟩
      eviction := none }
  let ops : List Operation := [.bootstrap, .recordConst 17]
  obtain ⟨p, hp, hcheck⟩ := Policy.exists_build c (fun p =>
      ((new p 8 0).run ops).2.policy.constMode = .active .allSame ∧
      ((new p 8 0).run ops).2.consts.values = [17] ∧ true ∉ p.tables.useLsbBitEnd.support)
    (by decide +kernel)
  obtain ⟨hmode, hvalues, hshut⟩ := of_decide_eq_true hcheck
  have hlength : ((new p 8 0).run ops).2.consts.length = 1 := congrArg List.length hvalues
  have hreuses := (reused_but_for_low_bit (.build hp) [] 8 0).2 ops hmode (hlength ▸ Nat.one_pos)
  refine ⟨p, .build hp, ops, hmode, hvalues, ?_⟩
  rw [← hlength]
  exact hreuses.verbatim hshut

/-- By the default tables a plan of the session alters the low bit of its constant. -/
theorem low_bit_altered : ∃ p : Policy, p.Made ∧ ∃ ops source,
    ((new p 8 0).run ops).2.policy.constMode = .active .allSame ∧
    ((new p 8 0).run ops).2.consts.values = [17] ∧
    (((new p 8 0).run ops).2.withSource source).planConst.1 =
      { source := .reuse 0 none, offset := none, lsbEnd := true, exhausted := false } ∧
    ¬ (((new p 8 0).run ops).2.withSource source).planConst.1.Verbatim 1 := by
  let c : PolicyConfig :=
    { limits := .blank
      tables := ⟨fun
        | .applyConstUse => some [⟨true, 1.0⟩]
        | .constUse => some [⟨.allSame, 1.0⟩]
        | _ => none⟩
      eviction := none }
  let ops : List Operation := [.bootstrap, .recordConst 17]
  let zeros : Source := ⟨fun _ => 0, 0⟩
  let altered : ConstPlan :=
    { source := .reuse 0 none, offset := none, lsbEnd := true, exhausted := false }
  obtain ⟨p, hp, hcheck⟩ := Policy.exists_build c (fun p =>
      ((new p 8 0).run ops).2.policy.constMode = .active .allSame ∧
      ((new p 8 0).run ops).2.consts.values = [17] ∧
      (((new p 8 0).run ops).2.withSource zeros).planConst.1 = altered)
    (by decide +kernel)
  obtain ⟨hmode, hvalues, hplan⟩ := of_decide_eq_true hcheck
  refine ⟨p, .build hp, ops, zeros, hmode, hvalues, hplan, fun hverbatim => ?_⟩
  have hlow := hverbatim.lsbEnd
  rw [hplan] at hlow
  cases hlow

end Session

end FuzzPolicy
