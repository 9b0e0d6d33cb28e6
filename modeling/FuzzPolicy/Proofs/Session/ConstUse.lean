import FuzzPolicy.Proofs.Constant.Use
import FuzzPolicy.Proofs.Session.Constants

/-!
# A way of using constants holds as long as it is the mode

The mode of using constants decides every plan and every offer of a session while it is the mode, whatever
the tables of the policy were, whichever modes it had before, and whatever is done to the other mode: the
tables that it rules are always those that it makes of the baseline, `Session.Of.constants_eq`. So while
all constants are to be the same, plans use remembered ones and a full buffer keeps what it has to the end
of the run; while they are to be new, no plan does and a full buffer takes whatever comes:
`Session.const_use_holds`.
-/

namespace FuzzPolicy.Session

open scoped List

variable {s : Session} {template : Policy} {use : ConstUse}

/-! ### Runs without a change of the way -/

/-- Whether a session has a way of using constants before each of some operations and after the last. -/
def Keeps (s : Session) (use : ConstUse) (calls : List (Operation × Source)) : Prop :=
  ∀ done, done <+: calls → (s.after done).policy.constMode = .active use

theorem Keeps.now {calls : List (Operation × Source)} (h : s.Keeps use calls) :
    s.policy.constMode = .active use :=
  h [] List.nil_prefix

theorem Keeps.next {c : Operation × Source} {calls : List (Operation × Source)}
    (h : s.Keeps use (c :: calls)) : ((s.withSource c.2).perform c.1).2.Keeps use calls :=
  fun done hdone => h (c :: done) (List.cons_prefix_cons.mpr ⟨rfl, hdone⟩)

/-- The tables about constants are those that the mode makes of the baseline. -/
theorem Of.constants_eq (hp : template.Accepted) (h : s.Of template)
    (hmode : s.policy.constMode = .active use) :
    s.policy.tables.constants = constTables use template.baseline := by
  obtain ⟨modes, hpolicy⟩ := h.policy
  have htables := Policy.tables_after hp modes
  rw [← hpolicy, hmode] at htables
  rw [htables]
  rfl

/-! ### All constants the same -/

/-- What is promised of a session while all constants are to be the same. -/
structure Repeats (s : Session) : Prop where
  plan : ∀ source, (s.withSource source).planConst.1.Repeats s.consts.length
  asked : ∀ buffered source, (s.policy.planConst buffered source).1.Repeats buffered
  /-- A full buffer stays as it is as long as the mode does. -/
  kept : s.consts.isFull = true → ∀ calls, s.Keeps .allSame calls → (s.after calls).consts = s.consts

/-- No operation changes a full buffer if nothing is ever replaced. -/
theorem perform_consts_of_full (hfull : s.consts.isFull = true)
    (hnever : s.policy.tables.replaceInBuf = .single false) (op : Operation) :
    (s.perform op).2.consts = s.consts := by
  have hrejected : ∀ value source,
      (s.policy.offerConst s.consts value source).1 = (.rejected, s.consts) := by
    intro value
    rw [Policy.offerConst, hnever]
    exact ConstBuffer.always_offer_kept hfull value
  cases op with
  | recordConst value => exact congrArg Prod.snd (hrejected value s.source)
  | drawConst draw =>
      let drawn := s.draw draw
      exact congrArg Prod.snd (hrejected drawn.1 drawn.2.source)
  | _ => rfl

theorem Of.after_consts_of_keeps (hp : template.Accepted) (h : s.Of template)
    (hfull : s.consts.isFull = true) {calls : List (Operation × Source)}
    (hkeeps : s.Keeps .allSame calls) : (s.after calls).consts = s.consts := by
  -- A buffer that has not changed is as full as before.
  induction calls generalizing s with
  | nil => rfl
  | cons c calls ih =>
      have hnever : s.policy.tables.replaceInBuf = .single false :=
        congrArg ConstTables.replaceInBuf (h.constants_eq hp hkeeps.now)
      have hstep : ((s.withSource c.2).perform c.1).2.consts = s.consts :=
        (s.withSource c.2).perform_consts_of_full hfull hnever c.1
      have hnext : ((s.withSource c.2).perform c.1).2.Of template := h.after [c]
      calc (s.after (c :: calls)).consts
      _ = (((s.withSource c.2).perform c.1).2.after calls).consts := rfl
      _ = ((s.withSource c.2).perform c.1).2.consts := ih hnext (hstep ▸ hfull) hkeeps.next
      _ = s.consts := hstep

theorem Of.repeats (hp : template.Accepted) (h : s.Of template)
    (hmode : s.policy.constMode = .active .allSame) : s.Repeats where
  plan := Policy.always_planConst_allSame (h.constants_eq hp hmode) s.consts.length
  asked := Policy.always_planConst_allSame (h.constants_eq hp hmode)
  kept hfull _ := h.after_consts_of_keeps hp hfull

/-! ### Constants always new -/

/-- What is promised of a session while constants are to be new. -/
structure Renews (s : Session) : Prop where
  plan : ∀ source, (s.withSource source).planConst.1.Renews
  asked : ∀ buffered source, (s.policy.planConst buffered source).1.Renews
  /-- A full buffer takes every constant in place of another. -/
  exchanges : s.consts.isFull = true → ∀ value source,
    s.consts.Exchanges ⟨value, ((s.withSource source).recordConst value).1⟩
      ((s.withSource source).recordConst value).2.consts
  /-- Also one that is drawn from the session's source, in whatever way. -/
  drawn : s.consts.isFull = true → ∀ draw source, ∃ value offer,
    ((s.withSource source).perform (.drawConst draw)).1 = .drawn value offer ∧
      s.consts.Exchanges ⟨value, offer⟩
        ((s.withSource source).perform (.drawConst draw)).2.consts

/-- A session has room for some constant. -/
theorem Of.capacity_ne_zero (hp : template.Accepted) (h : s.Of template) : s.consts.capacity ≠ 0 := by
  obtain ⟨limits, tables, eviction, hparts⟩ := hp.parts
  obtain ⟨hvalid, -, rfl⟩ := Policy.ofParts_eq_ok_iff.mp hparts
  rw [h.capacity_eq]
  obtain ⟨-, hsizes, -⟩ := Limits.validate_eq_ok_iff.mp hvalid
  exact hsizes (.constBufSize, limits.constBufSize) (by simp [Limits.sizes])

theorem Of.renews (hp : template.Accepted) (h : s.Of template)
    (hmode : s.policy.constMode = .active .freshSpecial) : s.Renews := by
  have hconstants := h.constants_eq hp hmode
  have halways : s.policy.tables.replaceInBuf = .single true :=
    congrArg ConstTables.replaceInBuf hconstants
  have hexchanges : s.consts.isFull = true → ∀ value source,
      s.consts.Exchanges ⟨value, (s.policy.offerConst s.consts value source).1.1⟩
        (s.policy.offerConst s.consts value source).1.2 := by
    intro hfull value
    rw [Policy.offerConst, halways]
    exact ConstBuffer.always_offer_replaced hfull (h.capacity_ne_zero hp) value
  refine ⟨Policy.always_planConst_freshSpecial hconstants s.consts.length,
    Policy.always_planConst_freshSpecial hconstants, hexchanges, fun hfull draw source => ?_⟩
  let drawn := (s.withSource source).draw draw
  exact ⟨drawn.1, _, rfl, hexchanges hfull drawn.1 drawn.2.source⟩

/-! ### Every session -/

/-- What is promised of a session by its mode of using constants. -/
structure ObeysConstUse (s : Session) : Prop where
  repeats : s.policy.constMode = .active .allSame → s.Repeats
  renews : s.policy.constMode = .active .freshSpecial → s.Renews

theorem Of.obeysConstUse (hp : template.Accepted) (h : s.Of template) : s.ObeysConstUse :=
  ⟨h.repeats hp, h.renews hp⟩

/-- **A way of using constants holds as long as it is the mode.** After any run of a session on an accepted
policy, whatever its tables are, whatever modes it has when the session begins and wherever others have
left the source before every operation: where all constants are to be the same, a plan uses a remembered
one exactly if there is one and else says so and makes a fresh one, and a full buffer keeps what it has
while the mode is kept; where they are to be new, no plan uses a remembered one or misses it, and a full
buffer takes every constant in place of another. -/
theorem const_use_holds (hp : template.Accepted) (modes : List (ModeCall × Source))
    (master id : UInt64) :
    (∀ calls, ((new (template.after modes) master id).after calls).ObeysConstUse) ∧
    ∀ ops, ((new (template.after modes) master id).run ops).2.ObeysConstUse := by
  have hcalls : ∀ calls, ((new (template.after modes) master id).after calls).ObeysConstUse :=
    fun calls => ((of_new template modes master id).after calls).obeysConstUse hp
  refine ⟨hcalls, fun ops => ?_⟩
  obtain ⟨calls, -, hrun⟩ := exists_after_eq_run (new (template.after modes) master id) ops
  rw [← hrun]
  exact hcalls calls

/-- A session with room for two constants, on the default tables, that first is to repeat them and then to
make new ones. -/
theorem const_use_holds_two : ∃ p : Policy, p.Accepted ∧ ∃ calls more,
    ((new p 0 0).after calls).policy.constMode = .active .allSame ∧
    ((new p 0 0).after calls).consts.values = [1, 2] ∧
    (∀ source, (((new p 0 0).after calls).withSource source).planConst.1.isReuse = true) ∧
    (∀ others, ((new p 0 0).after calls).Keeps .allSame others →
      (((new p 0 0).after calls).after others).consts.values = [1, 2]) ∧
    ((new p 0 0).after (calls ++ more)).policy.constMode = .active .freshSpecial ∧
    ∀ value source, ∃ old,
      ((((new p 0 0).after (calls ++ more)).withSource source).recordConst value).1 = .replaced old := by
  let zeros : Source := ⟨fun _ => 0, 0⟩
  -- The first word opens the gate, the second chooses the mode.
  let same : Source := ⟨fun i => if i = 0 then 0 else 0x8000000000000000, 0⟩
  let fresh : Source := ⟨fun i => if i = 0 then 0 else 0xffffffffffffffff, 0⟩
  let calls : List (Operation × Source) :=
    [(.reselect .constants, same), (.recordConst 1, zeros), (.recordConst 2, zeros)]
  let more : List (Operation × Source) := [(.reselect .constants, fresh)]
  let limits : Limits := { Limits.default with constBufSize := 2 }
  obtain ⟨tables, p, hp, hcheck⟩ := Policy.exists_ofDefaults limits
    (fun p => ((new p 0 0).after calls).policy.constMode = .active .allSame ∧
      ((new p 0 0).after calls).consts.isFull = true ∧
      ((new p 0 0).after calls).consts.values = [1, 2] ∧
      ((new p 0 0).after (calls ++ more)).policy.constMode = .active .freshSpecial ∧
      ((new p 0 0).after (calls ++ more)).consts.isFull = true)
    (by decide +kernel)
  obtain ⟨hsame, hfull, hvalues, hfresh, hstill⟩ := of_decide_eq_true hcheck
  have haccepted : p.Accepted := .inl ⟨_, _, _, hp⟩
  have hrepeats : ((new p 0 0).after calls).Repeats :=
    ((const_use_holds haccepted [] 0 0).1 calls).repeats hsame
  have hrenews : ((new p 0 0).after (calls ++ more)).Renews :=
    ((const_use_holds haccepted [] 0 0).1 (calls ++ more)).renews hfresh
  have hlength : ((new p 0 0).after calls).consts.length = 2 := congrArg List.length hvalues
  refine ⟨p, haccepted, calls, more, hsame, hvalues, fun source => ?_, fun others hkeeps => ?_, hfresh,
    fun value source => ?_⟩
  · exact (hrepeats.plan source).reuse_iff.mpr (by rw [hlength]; exact Nat.two_pos)
  · rw [hrepeats.kept hfull others hkeeps, hvalues]
  · obtain ⟨old, -, hreplaced, -⟩ := hrenews.exchanges hstill value source
    dsimp only at hreplaced
    exact ⟨old, hreplaced⟩

end FuzzPolicy.Session
