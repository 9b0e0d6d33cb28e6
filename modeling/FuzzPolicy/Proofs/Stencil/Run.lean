import FuzzPolicy.Proofs.Policy.Validity
import FuzzPolicy.Proofs.Stencil.Bounds

/-!
# Runs of stencil calls

A session keeps one history of stencils, while the arrays at hand change from call to call and modes may
be chosen in between. The history stays sound along every such run, as no mode changes the limits, so
what `always_planStencil_suits` says of one call holds of each: `Policy.stencils_suit`. A session that
is never allowed a stencil would keep all bounds as well, so it is said too when there is a plan.
-/

namespace FuzzPolicy

/-- Both limits of stencils are sizes, and valid sizes are not zero. -/
theorem Limits.stencil_pos {l : Limits} (h : l.validate = .ok ()) :
    1 ≤ l.maxStencilSpan ∧ 1 ≤ l.maxArrsInStencil := by
  obtain ⟨-, hsizes, -⟩ := Limits.validate_eq_ok_iff.mp h
  simp only [Limits.sizes, List.forall_mem_cons] at hsizes
  obtain ⟨hspan, harrays, -⟩ := hsizes
  exact ⟨Nat.pos_of_ne_zero hspan, Nat.pos_of_ne_zero harrays⟩

/-- A call that plans a stencil, and the mode calls that come before it. -/
structure StencilCall where
  modes : List (ModeCall × Source)
  arrayDims : Nat
  source : Source

/-- What is promised of the answer to a call: there is a plan exactly if the arrays have a dimension and
the draw that allows for stencils says so, and a plan suits the arrays. -/
structure StencilCall.Answered (c : StencilCall) (l : Limits) (allow : Table Bool)
    (answer : Option StencilPlan) : Prop where
  isSome_iff : answer.isSome = true ↔ c.arrayDims ≠ 0 ∧ (allow.sample c.source).1 = true
  suits : ∀ plan, answer = some plan → plan.Suits l c.arrayDims

namespace Policy

/-- The answers to some calls in a row. -/
def stencils (p : Policy) (h : StencilHistory) : List StencilCall → List (Option StencilPlan)
  | [] => []
  | c :: calls =>
    let q := p.after c.modes
    let (answer, h) := (q.planStencil c.arrayDims h c.source).1
    answer :: q.stencils h calls

/-- From a sound history every call is answered as promised. -/
theorem stencils_of_sound {l : Limits} (hspan : 1 ≤ l.maxStencilSpan)
    (harrays : 1 ≤ l.maxArrsInStencil) {allow : Table Bool} {p : Policy} (hp : p.Follows)
    (hl : p.limits = l) (hallow : p.baseline.allowStencil = allow) {h : StencilHistory}
    (hh : h.Sound l) (calls : List StencilCall) :
    List.Forall₂ (fun c answer => c.Answered l allow answer) calls (p.stencils h calls) := by
  induction calls generalizing p h with
  | nil => exact .nil
  | cons c calls ih =>
      have hq : (p.after c.modes).Follows := follows_after hp c.modes
      have hql : (p.after c.modes).limits = l := (p.after_limits c.modes).trans hl
      have hqallow : (p.after c.modes).baseline.allowStencil = allow := by
        rw [after_baseline, hallow]
      -- No mode rules the table that allows for stencils.
      have htable : (p.after c.modes).tables.allowStencil = allow := by
        rw [hq, ← hqallow]
        rfl
      have hsome := (p.after c.modes).isSome_planStencil_iff c.arrayDims h c.source
      rw [← hql] at hspan harrays hh
      obtain ⟨hsuits, hnext⟩ := always_planStencil_suits hspan harrays c.arrayDims hh c.source
      rw [hql] at hspan harrays hsuits hnext
      rw [htable] at hsome
      exact .cons ⟨hsome, hsuits⟩ (ih hq hql hqallow hnext)

/-- **Every plan of every run keeps to its bounds.** Along any calls on an accepted policy that begin
with an empty history, whatever dimensions the arrays of each have and whether its plan is new or taken
again: span and number of arrays are within the limits and not zero, every array has a dimension, its
dimensions increase and are below those of this very call, and no distance is beyond the span. -/
theorem stencils_suit {p : Policy} (hp : p.Accepted) (calls : List StencilCall) :
    List.Forall₂ (fun c answer => c.Answered p.limits p.tables.allowStencil answer) calls
      (p.stencils .empty calls) := by
  have hfollows : p.Follows := hp.follows
  obtain ⟨limits, tables, eviction, hparts⟩ := hp.parts
  obtain ⟨hlimits, -, rfl⟩ := ofParts_eq_ok_iff.mp hparts
  obtain ⟨hspan, harrays⟩ := Limits.stencil_pos hlimits
  exact stencils_of_sound hspan harrays hfollows rfl rfl (StencilHistory.sound_empty limits) calls

/-- Four calls on the default policy. The second is for arrays without dimensions and has no plan, the
last takes the plan of the first again. -/
theorem stencils_suit_default : ∃ p : Policy, p.Accepted ∧ ∃ calls older newer,
    calls.map StencilCall.arrayDims = [3, 0, 2, 4] ∧
    p.stencils .empty calls = [some older, none, some newer, some older] ∧
    older.Suits p.limits 3 ∧ newer.Suits p.limits 2 ∧ older.Suits p.limits 4 := by
  let zeros : Source := ⟨fun _ => 0, 0⟩
  let calls : List StencilCall :=
    [⟨[], 3, zeros⟩, ⟨[(.select .operators, zeros)], 0, zeros⟩, ⟨[], 2, zeros⟩, ⟨[], 4, zeros⟩]
  let older : StencilPlan := ⟨1, [⟨[⟨0, -1⟩, ⟨1, -1⟩, ⟨2, -1⟩]⟩]⟩
  let newer : StencilPlan := ⟨1, [⟨[⟨0, -1⟩, ⟨1, -1⟩]⟩]⟩
  obtain ⟨tables, p, hp, hrun⟩ := exists_default
    (fun p => p.stencils .empty calls = [some older, none, some newer, some older])
    (by decide +kernel)
  have hanswers : p.stencils .empty calls = [some older, none, some newer, some older] :=
    of_decide_eq_true hrun
  have haccepted : p.Accepted := .inl ⟨_, _, _, hp⟩
  have hsuit := stencils_suit haccepted calls
  rw [hanswers] at hsuit
  simp only [calls, List.forall₂_cons] at hsuit
  obtain ⟨hfirst, -, hthird, hfourth, -⟩ := hsuit
  exact ⟨p, haccepted, calls, older, newer, rfl, hanswers, hfirst.suits older rfl,
    hthird.suits newer rfl, hfourth.suits older rfl⟩

end Policy

end FuzzPolicy
