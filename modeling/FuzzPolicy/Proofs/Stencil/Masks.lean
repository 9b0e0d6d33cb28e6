import FuzzPolicy.Proofs.Policy.WellFormed
import FuzzPolicy.Proofs.Stencil.Record
import FuzzPolicy.Proofs.Stencil.Tail

/-!
# The masks that a history remembers

A history remembers plans, and for every place in a plan a mask. Both change when a plan is new. But when
the older plan is taken again only the plans change: the masks stay those of the new plans before it. So
along any run the mask of a place is the one that the last *new* plan with such a place used there,
`Policy.masks_of_new_plans`, and it need not be the one that was used last: `Policy.masks_outdated`.
-/

namespace FuzzPolicy

/-- The dimensions that each array of a plan uses. -/
def StencilPlan.usedDims (plan : StencilPlan) : List (List Nat) :=
  plan.arrays.map fun a => a.dims.map StencilDim.dim

/-- The dimensions that the last of some plans with such a place uses there. -/
def StencilPlan.lastDims (k : Nat) (plans : List StencilPlan) : Option (List Nat) :=
  (plans.filterMap fun plan => plan.usedDims[k]?).getLast?

namespace StencilHistory

/-- The dimensions that are remembered for each place. -/
def usedDims (h : StencilHistory) : List (List Nat) :=
  h.masks.map Mask.dims

/-- What is remembered for the places of a plan is what the plan uses. -/
def Reflects (h : StencilHistory) (plan : StencilPlan) : Prop :=
  plan.usedDims <+: h.usedDims

instance (h : StencilHistory) (plan : StencilPlan) : Decidable (h.Reflects plan) :=
  inferInstanceAs (Decidable (_ <+: _))

variable {h : StencilHistory}

theorem usedDims_push (h : StencilHistory) (plan : StencilPlan) :
    (h.push plan).usedDims = h.usedDims :=
  congrArg (List.map Mask.dims) (h.masks_push plan)

/-- A plan is reflected if its places are. -/
theorem reflects_iff {plan : StencilPlan} :
    h.Reflects plan ↔ ∀ k < plan.arrays.length, h.usedDims[k]? = plan.usedDims[k]? := by
  have hlength : plan.usedDims.length = plan.arrays.length := List.length_map _
  unfold Reflects
  rw [List.prefix_iff_getElem?, ← hlength]
  refine forall₂_congr fun k hk => ?_
  rw [List.getElem?_eq_getElem hk]

theorem usedDims_storeMasks (h : StencilHistory) (masks : List Mask) :
    (h.storeMasks masks).usedDims = masks.map Mask.dims ++ h.usedDims.drop masks.length := by
  unfold usedDims storeMasks
  rw [List.map_append, List.map_drop]

/-- The masks of the first places are replaced, those of the others are kept. -/
theorem usedDims_storeMasks_getElem? (h : StencilHistory) (masks : List Mask) (k : Nat) :
    (h.storeMasks masks).usedDims[k]? = (masks.map Mask.dims)[k]?.or h.usedDims[k]? := by
  rw [usedDims_storeMasks]
  rcases Nat.lt_or_ge k masks.length with hlt | hge
  · have hk : k < (masks.map Mask.dims).length := by rwa [List.length_map]
    rw [List.getElem?_append_left hk, List.getElem?_eq_getElem hk, Option.some_or]
  · have hk : (masks.map Mask.dims).length ≤ k := by rwa [List.length_map]
    rw [List.getElem?_append_right hk, List.getElem?_eq_none hk, Option.none_or,
      List.getElem?_drop, List.length_map, Nat.add_sub_cancel' hge]

end StencilHistory

theorem StencilPlan.lastDims_append (k : Nat) (plans later : List StencilPlan) :
    lastDims k (plans ++ later) = (lastDims k later).or (lastDims k plans) := by
  unfold lastDims
  rw [List.filterMap_append, List.getLast?_append]

/-! ### Outcomes -/

/-- The masks of a record use the dimensions of its arrays. -/
theorem StencilRecord.map_dims_masks {r : StencilRecord} (hr : ∀ a ∈ r.arrays, a.Noted r.shared) :
    r.masks.map Mask.dims = r.plan.usedDims := by
  unfold masks plan StencilPlan.usedDims
  rw [List.map_map, List.map_map]
  exact List.map_congr_left fun a ha => (hr a ha).dims.symm

namespace StencilOutcome

variable {h : StencilHistory} {outcome : StencilOutcome} {outcomes : List StencilOutcome}

/-- The plan, if it is a new one. -/
def new? : StencilOutcome → Option StencilPlan
  | fresh record => some record.plan
  | _ => none

/-- What the notes on a new plan say of it is true. -/
def Noted (outcome : StencilOutcome) : Prop :=
  ∀ r, outcome = fresh r → ∀ a ∈ r.arrays, a.Noted r.shared

/-- **Only a new plan changes what is remembered for its places.** -/
theorem Noted.usedDims (ho : outcome.Noted) (h : StencilHistory) (k : Nat) :
    (outcome.history h).usedDims[k]? =
      (StencilPlan.lastDims k outcome.new?.toList).or h.usedDims[k]? := by
  cases outcome with
  | nothing => rfl
  | again older => exact congrArg (·[k]?) (h.usedDims_push older)
  | fresh r =>
      have hmasks : ((fresh r).history h).usedDims[k]? =
          (r.masks.map Mask.dims)[k]?.or h.usedDims[k]? := by
        show ((h.storeMasks r.masks).push r.plan).usedDims[k]? = _
        rw [StencilHistory.usedDims_push, StencilHistory.usedDims_storeMasks_getElem?]
      rw [hmasks, StencilRecord.map_dims_masks (ho r rfl)]
      show _ = (StencilPlan.lastDims k [r.plan]).or _
      unfold StencilPlan.lastDims
      rw [List.filterMap_cons]
      cases r.plan.usedDims[k]? <;> rfl

/-- A new plan is what is remembered, one that is taken again need not be. -/
theorem Noted.reflects_iff (ho : outcome.Noted) {plan : StencilPlan}
    (hplan : outcome.plan? = some plan) :
    (outcome.history h).Reflects plan ↔
      (∃ r, outcome = fresh r) ∨
        ∀ k < plan.arrays.length, h.usedDims[k]? = plan.usedDims[k]? := by
  cases outcome with
  | nothing => cases hplan
  | again older =>
      obtain rfl := Option.some.inj hplan
      have hsame : (h.push older).Reflects older ↔ h.Reflects older := by
        unfold StencilHistory.Reflects
        rw [StencilHistory.usedDims_push]
      rw [← StencilHistory.reflects_iff]
      exact hsame.trans (or_iff_right fun hnew => hnew.elim nofun).symm
  | fresh r =>
      obtain rfl := Option.some.inj hplan
      refine iff_of_true ?_ (.inl ⟨r, rfl⟩)
      show r.plan.usedDims <+: ((h.storeMasks r.masks).push r.plan).usedDims
      rw [StencilHistory.usedDims_push, StencilHistory.usedDims_storeMasks,
        StencilRecord.map_dims_masks (ho r rfl)]
      exact List.prefix_append _ _

/-- A place has the mask of the last new plan that had one for it. -/
theorem usedDims_foldl (ho : ∀ outcome ∈ outcomes, outcome.Noted) (h : StencilHistory) (k : Nat) :
    (outcomes.foldl (fun h outcome => outcome.history h) h).usedDims[k]? =
      (StencilPlan.lastDims k (outcomes.filterMap new?)).or h.usedDims[k]? := by
  induction outcomes generalizing h with
  | nil => rfl
  | cons outcome outcomes ih =>
      rw [List.forall_mem_cons] at ho
      have hnew : (outcome :: outcomes).filterMap new? =
          outcome.new?.toList ++ outcomes.filterMap new? := by
        rw [List.filterMap_cons]
        cases outcome.new? <;> rfl
      rw [List.foldl_cons, ih ho.2, ho.1.usedDims, hnew, StencilPlan.lastDims_append, Option.or_assoc]

end StencilOutcome

namespace Policy

variable {p : Policy} {h : StencilHistory}

/-- What becomes of some calls in a row. -/
def stencilOutcomes (p : Policy) (h : StencilHistory) : List StencilCall → List StencilOutcome
  | [] => []
  | c :: calls =>
    let q := p.after c.modes
    let outcome := (q.recordOutcome c.arrayDims h c.source).1
    outcome :: q.stencilOutcomes (outcome.history h) calls

theorem planStencil_of_recordOutcome (p : Policy) (arrayDims : Nat) (h : StencilHistory) (s : Source) :
    (p.planStencil arrayDims h s).1 =
      ((p.recordOutcome arrayDims h s).1.plan?, (p.recordOutcome arrayDims h s).1.history h) := by
  rw [planStencil_eq]
  rfl

theorem stencilOutcomes_noted (p : Policy) (h : StencilHistory) (calls : List StencilCall) :
    ∀ outcome ∈ p.stencilOutcomes h calls, outcome.Noted := by
  induction calls generalizing p h with
  | nil => exact nofun
  | cons c calls ih =>
      have hfirst : ((p.after c.modes).recordOutcome c.arrayDims h).Always StencilOutcome.Noted :=
        always_recordOutcome_fresh fun _ => (p.after c.modes).always_recordStencil_noted c.arrayDims h
      exact List.forall_mem_cons.mpr ⟨hfirst c.source, ih _ _⟩

theorem stencils_eq_map (p : Policy) (h : StencilHistory) (calls : List StencilCall) :
    p.stencils h calls = (p.stencilOutcomes h calls).map StencilOutcome.plan? := by
  induction calls generalizing p h with
  | nil => rfl
  | cons c calls ih =>
      unfold stencils stencilOutcomes
      simp only [planStencil_of_recordOutcome, ih, List.map_cons]

theorem stencilHistory_eq_foldl (p : Policy) (h : StencilHistory) (calls : List StencilCall) :
    p.stencilHistory h calls =
      (p.stencilOutcomes h calls).foldl (fun h outcome => outcome.history h) h := by
  induction calls generalizing p h with
  | nil => rfl
  | cons c calls ih =>
      unfold stencilHistory stencilOutcomes
      simp only [planStencil_of_recordOutcome, ih, List.foldl_cons]

/-- What becomes of a call after some others. -/
def stencilOutcome (p : Policy) (h : StencilHistory) (calls : List StencilCall) (c : StencilCall) :
    StencilOutcome :=
  ((p.atCall calls c).recordOutcome c.arrayDims (p.stencilHistory h calls) c.source).1

theorem stencilOutcomes_concat (p : Policy) (h : StencilHistory) (calls : List StencilCall)
    (c : StencilCall) :
    p.stencilOutcomes h (calls ++ [c]) = p.stencilOutcomes h calls ++ [p.stencilOutcome h calls c] := by
  induction calls generalizing p h with
  | nil => rfl
  | cons first calls ih =>
      rw [stencilOutcome, atCall_cons, stencilHistory, planStencil_of_recordOutcome]
      exact congrArg (_ :: ·) (ih _ _)

/-- **The masks are those of the new plans.** Along any calls on any policy that begin with an empty
history, what is remembered for a place is what the array there uses in the last new plan that has such a
place, whatever was taken again since. So after a call that answers a plan its places are what is
remembered if it is a new one, and if it is taken again exactly if each of its arrays uses the dimensions
that the array in this place of the last new plan uses. -/
theorem masks_of_new_plans (p : Policy) (calls : List StencilCall) :
    p.stencils .empty calls = (p.stencilOutcomes .empty calls).map StencilOutcome.plan? ∧
    (∀ k, (p.stencilHistory .empty calls).usedDims[k]? =
      StencilPlan.lastDims k ((p.stencilOutcomes .empty calls).filterMap StencilOutcome.new?)) ∧
    ∀ c plan, p.stencils .empty (calls ++ [c]) = p.stencils .empty calls ++ [some plan] →
      ((p.stencilHistory .empty (calls ++ [c])).Reflects plan ↔
        (∃ r, p.stencilOutcomes .empty (calls ++ [c]) =
          p.stencilOutcomes .empty calls ++ [.fresh r]) ∨
        ∀ k < plan.arrays.length, StencilPlan.lastDims k
          ((p.stencilOutcomes .empty calls).filterMap StencilOutcome.new?) = plan.usedDims[k]?) := by
  have hmasks (calls : List StencilCall) (k : Nat) :
      (p.stencilHistory .empty calls).usedDims[k]? =
        StencilPlan.lastDims k ((p.stencilOutcomes .empty calls).filterMap StencilOutcome.new?) := by
    rw [stencilHistory_eq_foldl,
      StencilOutcome.usedDims_foldl (p.stencilOutcomes_noted .empty calls)]
    exact Option.or_none
  refine ⟨p.stencils_eq_map .empty calls, hmasks calls, fun c plan hanswer => ?_⟩
  have hnoted : (p.stencilOutcome .empty calls c).Noted := by
    refine p.stencilOutcomes_noted .empty (calls ++ [c]) _ ?_
    rw [stencilOutcomes_concat]
    exact List.mem_append_right _ List.mem_cons_self
  have hplan : (p.stencilOutcome .empty calls c).plan? = some plan := by
    rw [stencils_eq_map, stencils_eq_map, stencilOutcomes_concat, List.map_append,
      List.append_cancel_left_eq] at hanswer
    exact (List.cons.inj hanswer).1
  rw [stencilHistory_eq_foldl, stencilOutcomes_concat, List.foldl_concat, ← stencilHistory_eq_foldl,
    hnoted.reflects_iff hplan]
  simp only [hmasks calls, List.append_cancel_left_eq, List.cons.injEq, and_true]

/-- A policy that is certain to take the older plan again if it can: its third call does. The second plan has
more arrays than the first, which use other dimensions. -/
theorem exists_third_again : ∃ p : Policy, p.Made ∧ ∃ calls third older newer,
    p.stencils .empty calls = [some older, some newer] ∧
    p.stencils .empty (calls ++ [third]) = [some older, some newer, some older] ∧
    older.usedDims = [[0, 1]] ∧ newer.usedDims = [[1], [1], [1]] ∧
    (p.stencilHistory .empty (calls ++ [third])).usedDims = [[1], [1], [1]] := by
  let zeros : Source := ⟨fun _ => 0, 0⟩
  let middle : Source := ⟨fun i => if i = 0 then 0 else 0x8000000000000000, 0⟩
  let calls : List StencilCall := [⟨[], 2, zeros⟩, ⟨[], 2, middle⟩]
  let third : StencilCall := ⟨[], 2, zeros⟩
  let older : StencilPlan := ⟨1, [⟨[⟨0, -1⟩, ⟨1, -1⟩]⟩]⟩
  let newer : StencilPlan := ⟨3, [⟨[⟨1, 0⟩]⟩, ⟨[⟨1, 0⟩]⟩, ⟨[⟨1, 0⟩]⟩]⟩
  obtain ⟨tables, p, hp, hrun⟩ := exists_ofDefaults { Limits.default with alternation := 1.0 }
    (fun p => p.tables.WellFormed ∧ p.stencils .empty calls = [some older, some newer] ∧
      p.stencils .empty (calls ++ [third]) = [some older, some newer, some older] ∧
      (p.stencilHistory .empty (calls ++ [third])).usedDims = [[1], [1], [1]]) (by decide +kernel)
  obtain ⟨hwf, hfirst, hanswers, hmasks⟩ := of_decide_eq_true hrun
  rw [(ofParts_eq_ok_iff.mp hp).2.2] at hwf
  have hmade : p.Made := .ofParts (fun t => Table.made_iff_wellFormed.mpr (hwf t)) hp
  exact ⟨p, hmade, calls, third, older, newer, hfirst, hanswers, rfl, rfl, hmasks⟩

/-- The plan that is taken again is not what is remembered, as that is the other one. -/
theorem masks_of_new_plans_third : ∃ p : Policy, p.Made ∧ ∃ calls third older,
    p.stencils .empty (calls ++ [third]) = p.stencils .empty calls ++ [some older] ∧
    ((p.stencilHistory .empty (calls ++ [third])).Reflects older ↔
      (∃ r, p.stencilOutcomes .empty (calls ++ [third]) =
        p.stencilOutcomes .empty calls ++ [.fresh r]) ∨
      ∀ k < older.arrays.length, StencilPlan.lastDims k
        ((p.stencilOutcomes .empty calls).filterMap StencilOutcome.new?) = older.usedDims[k]?) := by
  obtain ⟨p, hp, calls, third, older, newer, hfirst, hanswers, -⟩ := exists_third_again
  have hanswer : p.stencils .empty (calls ++ [third]) = p.stencils .empty calls ++ [some older] := by
    rw [hanswers, hfirst]
    rfl
  exact ⟨p, hp, calls, third, older, hanswer, (p.masks_of_new_plans calls).2.2 third older hanswer⟩

/-- After the third call the mask that is remembered for its only array leaves out a dimension that the array
uses. -/
theorem masks_outdated : ∃ p : Policy, p.Made ∧ ∃ calls older newer,
    p.stencils .empty calls = [some older, some newer, some older] ∧
    older.usedDims = [[0, 1]] ∧ newer.usedDims = [[1], [1], [1]] ∧
    (p.stencilHistory .empty calls).usedDims = [[1], [1], [1]] ∧
    ¬ (p.stencilHistory .empty calls).Reflects older := by
  obtain ⟨p, hp, calls, third, older, newer, -, hanswers, holder, hnewer, hmasks⟩ :=
    exists_third_again
  refine ⟨p, hp, calls ++ [third], older, newer, hanswers, holder, hnewer, hmasks, ?_⟩
  unfold StencilHistory.Reflects
  rw [hmasks, holder]
  decide

end Policy

end FuzzPolicy
