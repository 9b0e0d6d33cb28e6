import FuzzPolicy.Proofs.Constant.Buffer
import FuzzPolicy.Proofs.Constant.Plan
import FuzzPolicy.Proofs.Policy.WellFormed
import FuzzPolicy.Session.Operation

/-!
# What a session remembers of its constants

Whatever is asked of a session, its policy only ever chooses modes, and its buffer only ever takes offers:
`Session.perform_policy` and `Session.perform_consts`. So after any run it has a policy that its template
reaches by choosing modes, and a buffer that an empty one becomes by offers, and what is known of these
holds of it: no plan names a constant that is not there, and a buffer that has once had something is never
empty again, `Session.constants_kept`.

The source of a session can be drawn from by others as well. Therefore a run is told anew for every
operation how the source stands, and `Session.run`, where nobody else draws, is one such run.
-/

namespace FuzzPolicy

namespace Session

variable {s : Session} {template : Policy}

/-! ### Runs -/

/-- The session when its source stands otherwise. -/
def withSource (s : Session) (source : Source) : Session :=
  { s with source }

/-- The session after some operations, each of which finds the source as others have left it. -/
def after (s : Session) : List (Operation × Source) → Session
  | [] => s
  | (op, source) :: calls => ((s.withSource source).perform op).2.after calls

/-- If nobody else draws, every operation finds the source as the one before it has left it. -/
theorem exists_after_eq_run (s : Session) (ops : List Operation) :
    ∃ calls, calls.map Prod.fst = ops ∧ s.after calls = (s.run ops).2 := by
  induction ops generalizing s with
  | nil => exact ⟨[], rfl, rfl⟩
  | cons op ops ih =>
      obtain ⟨calls, hops, hafter⟩ := ih (s.perform op).2
      refine ⟨(op, s.source) :: calls, by rw [List.map_cons, hops], ?_⟩
      rw [run_cons, ← hafter]
      rfl

/-- An operation does nothing to the policy but choose modes. -/
theorem perform_policy (s : Session) (op : Operation) :
    ∃ modes, (s.perform op).2.policy = s.policy.after modes := by
  cases op with
  | bootstrap =>
      exact ⟨[(.select .operators, s.source),
        (.select .constants, (s.select .operators).2.source)], rfl⟩
  | select kind => exact ⟨[(.select kind, s.source)], rfl⟩
  | reselect kind => exact ⟨[(.reselect kind, s.source)], rfl⟩
  | _ => exact ⟨[], rfl⟩

/-- An operation does nothing to the buffer but offer it constants. -/
theorem perform_consts (s : Session) (op : Operation) :
    ∃ offers, (s.perform op).2.consts = s.consts.after offers := by
  cases op with
  | recordConst value => exact ⟨[⟨value, s.policy.tables.replaceInBuf, s.source⟩], rfl⟩
  | drawConst draw =>
      let drawn := s.draw draw
      exact ⟨[⟨drawn.1, s.policy.tables.replaceInBuf, drawn.2.source⟩], rfl⟩
  | _ => exact ⟨[], rfl⟩

/-- A session of a template: its policy has come from the template by choosing modes, and its buffer from
an empty one by offers. -/
structure Of (s : Session) (template : Policy) : Prop where
  policy : ∃ modes, s.policy = template.after modes
  consts : ∃ offers, s.consts = template.newConstBuffer.after offers

theorem of_new (template : Policy) (modes : List (ModeCall × Source)) (master id : UInt64) :
    (new (template.after modes) master id).Of template := by
  refine ⟨⟨modes, rfl⟩, [], ?_⟩
  show (template.after modes).newConstBuffer = template.newConstBuffer
  unfold Policy.newConstBuffer
  rw [Policy.after_limits, Policy.after_eviction]

theorem Of.perform (h : s.Of template) (op : Operation) : (s.perform op).2.Of template := by
  obtain ⟨modes, hpolicy⟩ := h.policy
  obtain ⟨more, hmore⟩ := s.perform_policy op
  obtain ⟨offers, hconsts⟩ := h.consts
  obtain ⟨others, hothers⟩ := s.perform_consts op
  refine ⟨⟨modes ++ more, ?_⟩, offers ++ others, ?_⟩
  · rw [hmore, hpolicy, Policy.after_append]
  · rw [hothers, hconsts, ConstBuffer.after_append]

/-- **Every run of a session of a template leaves one of that template.** -/
theorem Of.after (h : s.Of template) (calls : List (Operation × Source)) :
    (s.after calls).Of template := by
  induction calls generalizing s with
  | nil => exact h
  | cons c calls ih =>
      have hc : (s.withSource c.2).Of template := ⟨h.policy, h.consts⟩
      exact ih (hc.perform c.1)

/-- A run does nothing to the buffer but offer it constants. -/
theorem after_consts (s : Session) (calls : List (Operation × Source)) :
    ∃ offers, (s.after calls).consts = s.consts.after offers := by
  induction calls generalizing s with
  | nil => exact ⟨[], rfl⟩
  | cons c calls ih =>
      obtain ⟨offers, hoffers⟩ := (s.withSource c.2).perform_consts c.1
      obtain ⟨others, hothers⟩ := ih ((s.withSource c.2).perform c.1).2
      refine ⟨offers ++ others, ?_⟩
      rw [ConstBuffer.after_append]
      exact hothers.trans (congrArg (ConstBuffer.after · others) hoffers)

/-! ### The buffer of a session -/

theorem Of.capacity_eq (h : s.Of template) : s.consts.capacity = template.limits.constBufSize := by
  obtain ⟨offers, hconsts⟩ := h.consts
  rw [hconsts, ConstBuffer.capacity_after]
  rfl

theorem Of.length_le (h : s.Of template) : s.consts.length ≤ template.limits.constBufSize := by
  obtain ⟨offers, hconsts⟩ := h.consts
  have hnew : (template.newConstBuffer : ConstBuffer Int).length ≤
      (template.newConstBuffer : ConstBuffer Int).capacity := Nat.zero_le template.limits.constBufSize
  rw [hconsts, ConstBuffer.length_after hnew]
  exact Nat.min_le_left _ _

/-- What is remembered may be exchanged, but there is never less of it. -/
theorem Of.length_mono (h : s.Of template) (calls : List (Operation × Source)) :
    s.consts.length ≤ (s.after calls).consts.length := by
  obtain ⟨offers, hconsts⟩ := s.after_consts calls
  have hle : s.consts.length ≤ s.consts.capacity := h.length_le.trans_eq h.capacity_eq.symm
  rw [hconsts, ConstBuffer.length_after hle]
  exact Nat.le_min.mpr ⟨hle, Nat.le_add_right _ _⟩

/-- A constant that is inserted stays, or another in its place. -/
theorem length_pos_of_inserted {s : Session} {value : Int} (h : (s.recordConst value).1 = .inserted) :
    0 < (s.recordConst value).2.consts.length := by
  have htakes : s.consts.Takes ⟨value, (s.recordConst value).1⟩ (s.recordConst value).2.consts :=
    s.consts.always_offer s.policy.tables.replaceInBuf value s.source
  rw [h] at htakes
  have hroom : s.consts.length < s.consts.capacity := htakes.inserted_iff.mp rfl
  have hlength : (s.recordConst value).2.consts.length =
      min s.consts.capacity (s.consts.length + 1) := htakes.length_eq hroom.le
  rw [hlength]
  exact Nat.lt_min.mpr ⟨Nat.zero_lt_of_lt hroom, Nat.succ_pos _⟩

/-! ### Plans of a session -/

/-- What is promised of the constants of a session, wherever its source stands. -/
structure KeepsConstants (s : Session) (l : Limits) : Prop where
  capacity_eq : s.consts.capacity = l.constBufSize
  length_le : s.consts.length ≤ l.constBufSize
  length_mono : ∀ calls, s.consts.length ≤ (s.after calls).consts.length
  plan : ∀ source,
    (s.withSource source).planConst.1.Sound l s.policy.tables s.consts.length
  /-- A constant that is to be used again can be had. -/
  reuse : ∀ source index transform,
    (s.withSource source).planConst.1.source = .reuse index transform →
      (s.consts.get? index).isSome
  /-- Once there has been room for a constant, no plan ever finds the buffer empty. -/
  inserted : ∀ value source, ((s.withSource source).recordConst value).1 = .inserted →
    ∀ calls source', ((((s.withSource source).recordConst value).2.after calls).withSource
      source').planConst.1.exhausted = false

theorem Of.planConst_sound (hp : template.Made) (h : s.Of template) (source : Source) :
    (s.withSource source).planConst.1.Sound template.limits s.policy.tables s.consts.length := by
  obtain ⟨modes, hpolicy⟩ := h.policy
  obtain ⟨limits, tables, eviction, hparts, hwf⟩ := hp.parts
  have hvalid : s.policy.Valid := by
    rw [hpolicy]
    exact Policy.valid_after hparts hwf modes
  have hlimits : s.policy.limits = template.limits := by
    rw [hpolicy, Policy.after_limits]
  rw [← hlimits]
  exact hvalid.planConst_sound s.consts.length source

theorem Of.keepsConstants (hp : template.Made) (h : s.Of template) :
    s.KeepsConstants template.limits where
  capacity_eq := h.capacity_eq
  length_le := h.length_le
  length_mono := h.length_mono
  plan := h.planConst_sound hp
  reuse source index transform hplan := by
    have hsource := (h.planConst_sound hp source).source
    rw [hplan] at hsource
    cases hsource with
    | reuse there given =>
        rw [ConstBuffer.get?, List.getElem?_eq_getElem there]
        rfl
  inserted value source hinserted calls source' := by
    have hrecorded : ((s.withSource source).recordConst value).2.Of template :=
      Of.after h [(.recordConst value, source)]
    have hsome : 0 < (((s.withSource source).recordConst value).2.after calls).consts.length :=
      (length_pos_of_inserted hinserted).trans_le (hrecorded.length_mono calls)
    have hplan := (hrecorded.after calls).planConst_sound hp source'
    refine Bool.eq_false_iff.mpr fun hexhausted => ?_
    exact hsome.ne' (hplan.exhausted hexhausted).1

/-- **Plans for constants stay inside of the buffer.** After any run of a session on a policy, whatever
modes the policy has when the session begins and wherever others have left the source before every
operation, the buffer has its capacity and no more constants than that, and will not have fewer. Every
plan then names what is there, and after a constant was inserted no plan finds that there is none. -/
theorem constants_kept (hp : template.Made) (modes : List (ModeCall × Source)) (master id : UInt64) :
    (∀ calls, ((new (template.after modes) master id).after calls).KeepsConstants template.limits) ∧
    ∀ ops, ((new (template.after modes) master id).run ops).2.KeepsConstants template.limits := by
  have hcalls : ∀ calls,
      ((new (template.after modes) master id).after calls).KeepsConstants template.limits :=
    fun calls => ((of_new template modes master id).after calls).keepsConstants hp
  refine ⟨hcalls, fun ops => ?_⟩
  obtain ⟨calls, -, hrun⟩ := exists_after_eq_run (new (template.after modes) master id) ops
  rw [← hrun]
  exact hcalls calls

/-- A session on the default policy that chooses its modes and remembers 7, which it then plans to use. -/
theorem constants_kept_default : ∃ p : Policy, p.Made ∧
    ∃ calls source, ((new p 0 0).after calls).consts.values = [7] ∧
      (((new p 0 0).after calls).withSource source).planConst.1.source =
        .reuse 0 (some .negate) ∧
      (((new p 0 0).after calls).consts.get? 0).isSome ∧
      ∀ more, 1 ≤ (((new p 0 0).after calls).after more).consts.length := by
  let zeros : Source := ⟨fun _ => 0, 0⟩
  let calls : List (Operation × Source) := [(.bootstrap, zeros), (.recordConst 7, zeros)]
  obtain ⟨tables, p, hp, hcheck⟩ := Policy.exists_default
    (fun p => p.tables.WellFormed ∧ ((new p 0 0).after calls).consts.values = [7] ∧
      (((new p 0 0).after calls).withSource zeros).planConst.1.source = .reuse 0 (some .negate))
    (by decide +kernel)
  obtain ⟨hwf, hvalues, hplan⟩ := of_decide_eq_true hcheck
  rw [(Policy.ofParts_eq_ok_iff.mp hp).2.2] at hwf
  have hmade : p.Made := .ofParts (fun t => Table.made_iff_wellFormed.mpr (hwf t)) hp
  have hkept : ((new p 0 0).after calls).KeepsConstants p.limits :=
    (constants_kept hmade [] 0 0).1 calls
  have hlength : ((new p 0 0).after calls).consts.length = 1 := congrArg List.length hvalues
  refine ⟨p, hmade, calls, zeros, hvalues, hplan, hkept.reuse _ _ _ hplan, fun more => ?_⟩
  rw [← hlength]
  exact hkept.length_mono more

end Session

end FuzzPolicy
