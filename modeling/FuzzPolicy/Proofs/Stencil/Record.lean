import FuzzPolicy.Proofs.Random.Always
import FuzzPolicy.Stencil.Plan

/-!
# How a stencil came about

A plan shows dimensions and distances, and not where they come from: whether the older plan was taken
again, whether a mask was drawn or kept, which distances were drawn and which were there already. A
recorded draw notes this beside what it answers, at the place where it happens. Apart from the notes it is
the plain draw: it answers the same, and it takes the same words from the source, `planStencil_eq`.
-/

namespace FuzzPolicy

/-- Where the mask of an array comes from. -/
inductive MaskOrigin where
  /-- It is the one that all arrays of the plan share. -/
  | common
  /-- It is the last one in the same place. -/
  | kept
  /-- It was drawn for this array. -/
  | drawn
  deriving DecidableEq, Repr

/-- How one array of a new plan came about. -/
structure ArrayRecord where
  mask : Mask
  origin : MaskOrigin
  array : StencilArray
  /-- The dimensions along which the distance was drawn for this array. -/
  drawn : List StencilDim
  deriving DecidableEq, Repr

/-- How a new plan came about. -/
structure StencilRecord where
  span : Nat
  /-- Whether all arrays use the same dimensions. -/
  sameDims : Bool
  /-- Whether the distance along a dimension is the same for all arrays. -/
  shared : Bool
  arrays : List ArrayRecord
  deriving DecidableEq, Repr

namespace StencilRecord

def plan (r : StencilRecord) : StencilPlan where
  span := r.span
  arrays := r.arrays.map ArrayRecord.array

def masks (r : StencilRecord) : List Mask :=
  r.arrays.map ArrayRecord.mask

/-- All distances that were drawn, in this order. -/
def drawn (r : StencilRecord) : List StencilDim :=
  r.arrays.flatMap ArrayRecord.drawn

end StencilRecord

/-- What becomes of a call for a stencil. -/
inductive StencilOutcome where
  | nothing
  /-- The older plan is taken again. -/
  | again (older : StencilPlan)
  | fresh (record : StencilRecord)
  deriving DecidableEq, Repr

namespace StencilOutcome

/-- The plan that is answered. -/
def plan? : StencilOutcome → Option StencilPlan
  | nothing => none
  | again older => some older
  | fresh record => some record.plan

/-- What is remembered afterwards. -/
def history (h : StencilHistory) : StencilOutcome → StencilHistory
  | nothing => h
  | again older => h.push older
  | fresh record => (h.storeMasks record.masks).push record.plan

end StencilOutcome

namespace Policy

open Draw

/-! ### Recorded draws -/

/-- Some dimensions of an array, those along which the distance was drawn now, and the distances that are
known then. -/
structure DimsRecord where
  dims : List StencilDim
  drawn : List StencilDim
  known : SharedOffsets

/-- `drawOffset`, as a record of one dimension. -/
def recordOffset (reach : Nat) (shared : Bool) (known : SharedOffsets) (dim : Nat) :
    Draw DimsRecord := do
  if shared then
    match known.lookup dim with
    | some offset => return ⟨[⟨dim, offset⟩], [], known⟩
    | none =>
      let offset ← Draw.intBetween (-reach) reach
      return ⟨[⟨dim, offset⟩], [⟨dim, offset⟩], (dim, offset) :: known⟩
  else
    let offset ← Draw.intBetween (-reach) reach
    return ⟨[⟨dim, offset⟩], [⟨dim, offset⟩], known⟩

/-- `drawDims` with notes. -/
def recordDims (reach : Nat) (shared : Bool) : List Nat → SharedOffsets → Draw DimsRecord
  | [], known => return ⟨[], [], known⟩
  | dim :: dims, known => do
    let first ← recordOffset reach shared known dim
    let others ← recordDims reach shared dims first.known
    return ⟨first.dims ++ others.dims, first.drawn ++ others.drawn, others.known⟩

/-- `chooseMask` with a note. -/
def recordMask (p : Policy) (arrayDims : Nat) (common last : Option Mask) :
    Draw (Mask × MaskOrigin) := do
  match common with
  | some mask => return (mask, .common)
  | none =>
    match last.filter fun mask => mask.length = arrayDims with
    | some mask =>
      if ← p.tables.stencilSameDimsOneArr.sample then
        return (mask, .kept)
      else
        return (← p.drawMask arrayDims, .drawn)
    | none => return (← p.drawMask arrayDims, .drawn)

/-- `drawArrays` with notes. -/
def recordArrays (p : Policy) (arrayDims reach : Nat) (shared : Bool) (common : Option Mask) :
    Nat → List Mask → SharedOffsets → Draw (List ArrayRecord)
  | 0, _, _ => return []
  | n + 1, masks, known => do
    let (mask, origin) ← p.recordMask arrayDims common masks.head?
    let record ← recordDims reach shared mask.dims known
    let others ← recordArrays p arrayDims reach shared common n masks.tail record.known
    return ⟨mask, origin, { dims := record.dims }, record.drawn⟩ :: others

/-- `drawStencil` with notes. -/
def recordStencil (p : Policy) (arrayDims : Nat) (h : StencilHistory) : Draw StencilRecord := do
  let maxSpan := p.limits.maxStencilSpan
  let span := (← p.tables.stencilSpan.sampleWhere fun n => 1 ≤ n && n ≤ maxSpan).getD maxSpan
  let maxArrays := p.limits.maxArrsInStencil
  let count := (← p.tables.arrsInStencil.sampleWhere fun n => 1 ≤ n && n ≤ maxArrays).getD 1
  let sameDims : Bool ← p.tables.stencilSameDimsAll.sample
  let shared : Bool ← p.tables.stencilReuseOffset.sample
  let common ← if sameDims then some <$> p.drawMask arrayDims else pure none
  let reach := min span (Nat.pow 2 63 - 1)
  let arrays ← p.recordArrays arrayDims reach shared common count h.masks []
  return { span, sameDims, shared, arrays }

/-- `planStencil` with notes. -/
def recordOutcome (p : Policy) (arrayDims : Nat) (h : StencilHistory) : Draw StencilOutcome := do
  if arrayDims = 0 then
    return .nothing
  else if ← p.tables.allowStencil.sample then
    match ← p.replayed arrayDims h with
    | some older => return .again older
    | none => return .fresh (← p.recordStencil arrayDims h)
  else
    return .nothing

/-! ### Without the notes -/

variable {p : Policy} {arrayDims reach : Nat} {shared : Bool}

theorem drawOffset_eq (known : SharedOffsets) (dim : Nat) :
    (fun r => ([(⟨dim, r.1⟩ : StencilDim)], r.2)) <$> drawOffset reach shared known dim =
      (fun r => (r.dims, r.known)) <$> recordOffset reach shared known dim := by
  unfold drawOffset recordOffset
  cases shared with
  | false => rfl
  | true => cases known.lookup dim <;> rfl

theorem drawDims_eq (dims : List Nat) (known : SharedOffsets) :
    drawDims reach shared dims known =
      (fun r => (r.dims, r.known)) <$> recordDims reach shared dims known := by
  induction dims generalizing known with
  | nil => rfl
  | cons dim dims ih =>
      calc drawDims reach shared (dim :: dims) known
        _ = ((fun r => ([(⟨dim, r.1⟩ : StencilDim)], r.2)) <$> drawOffset reach shared known dim) >>=
              fun first => (fun others => (first.1 ++ others.1, others.2)) <$>
                drawDims reach shared dims first.2 := rfl
        _ = ((fun r => (r.dims, r.known)) <$> recordOffset reach shared known dim) >>=
              fun first => (fun others => (first.1 ++ others.1, others.2)) <$>
                ((fun r => (r.dims, r.known)) <$> recordDims reach shared dims first.2) := by
            rw [drawOffset_eq]
            simp only [ih]
        _ = (fun r => (r.dims, r.known)) <$> recordDims reach shared (dim :: dims) known := rfl

theorem chooseMask_eq (common last : Option Mask) :
    p.chooseMask arrayDims common last = Prod.fst <$> p.recordMask arrayDims common last := by
  unfold chooseMask recordMask
  cases common with
  | some mask => rfl
  | none =>
      cases last.filter fun mask => mask.length = arrayDims with
      | none => rfl
      | some mask =>
          rw [map_bind]
          refine bind_congr fun keep => ?_
          cases keep <;> rfl

/-- Without the notes an array has its mask. -/
theorem drawArrays_eq (common : Option Mask) (n : Nat) (masks : List Mask) (known : SharedOffsets) :
    p.drawArrays arrayDims reach shared common n masks known =
      (fun records => records.map fun r => (r.mask, r.array)) <$>
        p.recordArrays arrayDims reach shared common n masks known := by
  induction n generalizing masks known with
  | zero => rfl
  | succ n ih =>
      unfold drawArrays recordArrays
      simp only [chooseMask_eq, drawDims_eq, ih]
      rfl

theorem drawStencil_eq (p : Policy) (arrayDims : Nat) (h : StencilHistory) :
    p.drawStencil arrayDims h =
      (fun r => (r.plan, (h.storeMasks r.masks).push r.plan)) <$> p.recordStencil arrayDims h := by
  -- The plan and the masks of a record are those of its arrays.
  have harrays (reach : Nat) (shared : Bool) (common : Option Mask) (count span : Nat)
      (sameDims : Bool) :
      (p.drawArrays arrayDims reach shared common count h.masks [] >>= fun drawn =>
        let plan : StencilPlan := { span, arrays := drawn.map Prod.snd }
        pure (plan, (h.storeMasks (drawn.map Prod.fst)).push plan)) =
      (fun r => (r.plan, (h.storeMasks r.masks).push r.plan)) <$>
        (StencilRecord.mk span sameDims shared <$>
          p.recordArrays arrayDims reach shared common count h.masks []) := by
    rw [drawArrays_eq, bind_map_left]
    simp only [List.map_map]
    rfl
  unfold drawStencil recordStencil
  simp only [map_bind]
  refine bind_congr fun span => bind_congr fun count => bind_congr fun sameDims =>
    bind_congr fun shared => ?_
  cases sameDims with
  | true => exact bind_congr fun common => harrays _ _ _ _ _ _
  | false => exact harrays _ _ _ _ _ _

/-- **A call with notes is the call.** -/
theorem planStencil_eq (p : Policy) (arrayDims : Nat) (h : StencilHistory) :
    p.planStencil arrayDims h =
      (fun outcome => (outcome.plan?, outcome.history h)) <$> p.recordOutcome arrayDims h := by
  unfold planStencil recordOutcome
  by_cases hdims : arrayDims = 0
  · rw [if_pos hdims, if_pos hdims]
    rfl
  · rw [if_neg hdims, if_neg hdims, map_bind]
    refine bind_congr fun allowed => ?_
    cases allowed with
    | false => rfl
    | true =>
        simp only [if_true, map_bind, drawStencil_eq]
        refine bind_congr fun older => ?_
        cases older <;> rfl

/-! ### What the notes say -/

theorem always_recordOffset_noted (known : SharedOffsets) (dim : Nat) :
    (recordOffset reach shared known dim).Always fun r =>
      r.dims.map StencilDim.dim = [dim] ∧ (shared = false → r.drawn = r.dims) := by
  unfold recordOffset
  refine always_ite (fun hshared => ?_) fun _ => ?_
  · rw [hshared]
    cases known.lookup dim with
    | some offset => exact always_pure ⟨rfl, nofun⟩
    | none => exact always_bind_any fun offset => always_pure ⟨rfl, nofun⟩
  · exact always_bind_any fun offset => always_pure ⟨rfl, fun _ => rfl⟩

theorem always_recordDims_noted (dims : List Nat) (known : SharedOffsets) :
    (recordDims reach shared dims known).Always fun r =>
      r.dims.map StencilDim.dim = dims ∧ (shared = false → r.drawn = r.dims) := by
  induction dims generalizing known with
  | nil => exact always_pure ⟨rfl, fun _ => rfl⟩
  | cons dim dims ih =>
      unfold recordDims
      refine always_bind (always_recordOffset_noted known dim) ?_
      intro first hfirst
      obtain ⟨hdim, halone⟩ := hfirst
      refine always_bind (ih first.known) ?_
      intro others hothers
      obtain ⟨hdims, halone'⟩ := hothers
      refine always_pure ⟨?_, fun hshared => ?_⟩
      · rw [List.map_append, hdim, hdims]
        rfl
      · rw [halone hshared, halone' hshared]

end Policy

/-- What the notes on an array say of it. -/
structure ArrayRecord.Noted (a : ArrayRecord) (shared : Bool) : Prop where
  /-- The mask says which dimensions are used. -/
  dims : a.array.dims.map StencilDim.dim = a.mask.dims
  /-- A distance that is not shared is drawn. -/
  alone : shared = false → a.drawn = a.array.dims

namespace Policy

open Draw

variable {p : Policy} {arrayDims reach : Nat} {shared : Bool}

theorem always_recordArrays_noted (common : Option Mask) (n : Nat) (masks : List Mask)
    (known : SharedOffsets) :
    (p.recordArrays arrayDims reach shared common n masks known).Always fun records =>
      ∀ a ∈ records, a.Noted shared := by
  induction n generalizing masks known with
  | zero => exact always_pure (by simp)
  | succ n ih =>
      unfold recordArrays
      refine always_bind_any fun chosen => ?_
      refine always_bind (always_recordDims_noted chosen.1.dims known) ?_
      intro record hrecord
      obtain ⟨hdims, halone⟩ := hrecord
      refine always_bind (ih masks.tail record.known) ?_
      intro others hothers
      exact always_pure (List.forall_mem_cons.mpr ⟨⟨hdims, halone⟩, hothers⟩)

theorem always_recordStencil_noted (p : Policy) (arrayDims : Nat) (h : StencilHistory) :
    (p.recordStencil arrayDims h).Always fun r => ∀ a ∈ r.arrays, a.Noted r.shared := by
  unfold recordStencil
  refine always_bind_any fun span => always_bind_any fun count => always_bind_any fun sameDims => ?_
  refine always_bind_any fun shared => always_ite_bind fun common => ?_
  exact always_bind (always_recordArrays_noted _ _ _ _) fun records hrecords => always_pure hrecords

/-- What is always true of a new plan is true if the outcome of a call is one. -/
theorem always_recordOutcome_fresh {h : StencilHistory} {P : StencilRecord → Prop}
    (hnew : arrayDims ≠ 0 → (p.recordStencil arrayDims h).Always P) :
    (p.recordOutcome arrayDims h).Always fun outcome => ∀ r, outcome = .fresh r → P r := by
  unfold recordOutcome
  refine always_ite (fun _ => always_pure nofun) fun hdims => always_bind_any fun allowed => ?_
  refine always_ite (fun _ => always_bind_any fun older => ?_) fun _ => always_pure nofun
  cases older with
  | some older => exact always_pure nofun
  | none =>
      refine always_bind (hnew hdims) fun r hr => always_pure fun r' heq => ?_
      cases heq
      exact hr

end Policy

end FuzzPolicy
