import FuzzPolicy.Proofs.Policy.WellFormed
import FuzzPolicy.Proofs.Stencil.Bounds
import FuzzPolicy.Proofs.Stencil.Record

/-!
# What the arrays of a stencil share

The arrays of a new plan are drawn one after the other, and what one of them shares with another comes
about in different places: a common mask is drawn before all of them, a kept one is looked up in the
history, and a distance is known from the first array that uses the dimension. `Memo` is what the known
distances are good for, and it holds of the whole plan because it can be put together from that of each
dimension. With it every new plan shares what it was decided that it shares: `Policy.stencils_share`.
-/

namespace FuzzPolicy

/-! ### Known distances -/

/-- What is known of a dimension along which the distance was drawn. -/
def StencilDim.entry (d : StencilDim) : Nat × Int :=
  (d.dim, d.offset)

theorem StencilDim.entry_injective : Function.Injective StencilDim.entry := by
  intro d e h
  cases d
  cases e
  cases h
  rfl

/-- The distances that are known when some more have been drawn, the last first. -/
def Policy.SharedOffsets.add (known : Policy.SharedOffsets) (drawn : List StencilDim) :
    Policy.SharedOffsets :=
  (drawn.map StencilDim.entry).reverse ++ known

/-- Distances are drawn for `dims`, given those that are known: none of them twice, and no other than
those that were not known. -/
structure Memo (known : Policy.SharedOffsets) (drawn dims : List StencilDim) : Prop where
  once : (known.map Prod.fst ++ drawn.map StencilDim.dim).Nodup
  found : ∀ d ∈ dims, d.entry ∈ known ∨ d ∈ drawn
  used : ∀ d ∈ drawn, d ∈ dims

namespace Memo

open Policy

variable {known : SharedOffsets} {drawn drawn' dims dims' : List StencilDim}

theorem nil (h : (known.map Prod.fst).Nodup) : Memo known [] [] :=
  ⟨by simpa using h, by simp, by simp⟩

/-- A known distance is taken. -/
theorem lookup (h : (known.map Prod.fst).Nodup) {d : StencilDim} (hd : d.entry ∈ known) :
    Memo known [] [d] :=
  ⟨by simpa using h, by simpa using hd, by simp⟩

/-- A distance along a new dimension is drawn. -/
theorem draw (h : (known.map Prod.fst).Nodup) {d : StencilDim} (hd : d.dim ∉ known.map Prod.fst) :
    Memo known [d] [d] := by
  refine ⟨?_, by simp, by simp⟩
  rw [List.map_singleton, List.nodup_append_comm, List.singleton_append]
  exact List.nodup_cons.mpr ⟨hd, h⟩

theorem keys_add (known : SharedOffsets) (drawn : List StencilDim) :
    ((known.add drawn).map Prod.fst).Perm (known.map Prod.fst ++ drawn.map StencilDim.dim) := by
  unfold SharedOffsets.add
  rw [List.map_append, List.map_reverse, List.map_map]
  exact List.perm_append_comm.trans ((List.reverse_perm _).append_left _)

/-- Afterwards there is still one distance for each dimension. -/
theorem nodup_add (h : Memo known drawn dims) : ((known.add drawn).map Prod.fst).Nodup :=
  (keys_add known drawn).nodup_iff.mpr h.once

theorem mem_add {d : StencilDim} : d.entry ∈ known.add drawn ↔ d.entry ∈ known ∨ d ∈ drawn := by
  unfold SharedOffsets.add
  rw [List.mem_append, List.mem_reverse,
    List.mem_map_of_injective StencilDim.entry_injective, or_comm]

theorem append (h : Memo known drawn dims) (h' : Memo (known.add drawn) drawn' dims') :
    Memo known (drawn ++ drawn') (dims ++ dims') := by
  refine ⟨?_, ?_, ?_⟩
  · rw [List.map_append, ← List.append_assoc]
    exact ((keys_add known drawn).append_right _).nodup_iff.mp h'.once
  · intro d hd
    rw [List.mem_append, ← or_assoc, ← mem_add]
    rcases List.mem_append.mp hd with hd | hd
    · exact .inl (mem_add.mpr (h.found d hd))
    · exact h'.found d hd
  · intro d hd
    rw [List.mem_append]
    exact (List.mem_append.mp hd).imp (h.used d) (h'.used d)

/-- If nothing was known, there is one distance for each dimension. -/
theorem eq_of_dim_eq (h : Memo [] drawn dims) {d e : StencilDim} (hd : d ∈ dims) (he : e ∈ dims)
    (heq : d.dim = e.dim) : d = e := by
  have hdrawn : ∀ d ∈ dims, d ∈ drawn := fun d hd => (h.found d hd).resolve_left List.not_mem_nil
  exact List.inj_on_of_nodup_map h.once (hdrawn d hd) (hdrawn e he) heq

/-- If nothing was known, one distance was drawn for each dimension. -/
theorem mem_drawn_iff (h : Memo [] drawn dims) {d : StencilDim} : d ∈ drawn ↔ d ∈ dims :=
  ⟨h.used d, fun hd => (h.found d hd).resolve_left List.not_mem_nil⟩

end Memo

namespace Policy

open Draw

variable {p : Policy} {arrayDims reach : Nat} {shared : Bool} {known : SharedOffsets}

/-! ### One array -/

theorem always_recordOffset (h : (known.map Prod.fst).Nodup) (dim : Nat) :
    (recordOffset reach true known dim).Always fun r =>
      r.known = known.add r.drawn ∧ Memo known r.drawn r.dims := by
  unfold recordOffset
  refine always_ite (fun _ => ?_) fun hshared => absurd rfl hshared
  cases hlook : known.lookup dim with
  | some offset =>
      obtain ⟨before, after, hknown, -⟩ := List.lookup_eq_some_iff.mp hlook
      refine always_pure ⟨rfl, .lookup h ?_⟩
      rw [hknown]
      exact List.mem_append_right _ List.mem_cons_self
  | none =>
      refine always_bind_any fun offset => always_pure ⟨rfl, .draw h ?_⟩
      rw [List.mem_map]
      intro hmem
      obtain ⟨entry, hentry, hdim⟩ := hmem
      have hne := List.lookup_eq_none_iff.mp hlook entry hentry
      rw [hdim] at hne
      exact absurd hne (by simp)

theorem always_recordDims (h : (known.map Prod.fst).Nodup) (dims : List Nat) :
    (recordDims reach true dims known).Always fun r =>
      r.known = known.add r.drawn ∧ Memo known r.drawn r.dims := by
  induction dims generalizing known with
  | nil => exact always_pure ⟨rfl, .nil h⟩
  | cons dim dims ih =>
      unfold recordDims
      refine always_bind (always_recordOffset h dim) ?_
      intro first hfirst
      obtain ⟨hknown, hmemo⟩ := hfirst
      rw [hknown]
      refine always_bind (ih hmemo.nodup_add) ?_
      intro others hothers
      obtain ⟨hknown', hmemo'⟩ := hothers
      refine always_pure ⟨?_, hmemo.append hmemo'⟩
      rw [hknown']
      simp [SharedOffsets.add]

end Policy

/-! ### All arrays -/

/-- What the origin of a mask says of it. -/
inductive MaskOrigin.Explains (arrayDims : Nat) (common last : Option Mask) : MaskOrigin → Mask → Prop
  | common {mask : Mask} (eq : common = some mask) : Explains arrayDims common last .common mask
  | kept {mask : Mask} (apart : common = none) (eq : last = some mask)
      (length_eq : mask.length = arrayDims) : Explains arrayDims common last .kept mask
  | drawn {mask : Mask} (apart : common = none) (usable : mask.Usable arrayDims) :
      Explains arrayDims common last .drawn mask

/-- How an array comes about, given the mask that all arrays share and the last one in its place. If it is
`certain` that masks are kept, that is said too. -/
structure ArrayRecord.Explained (a : ArrayRecord) (arrayDims : Nat) (certain : Prop)
    (common last : Option Mask) : Prop where
  origin : a.origin.Explains arrayDims common last a.mask
  kept : certain → common = none → ∀ mask, last = some mask → mask.length = arrayDims →
    a.origin = .kept

namespace Policy

open Draw

variable {p : Policy} {arrayDims reach : Nat} {shared : Bool} {known : SharedOffsets}

theorem always_recordMask (hdims : arrayDims ≠ 0) (common last : Option Mask) :
    (p.recordMask arrayDims common last).Always fun r =>
      r.2.Explains arrayDims common last r.1 := by
  have hdrawn : ((·, MaskOrigin.drawn) <$> p.drawMask arrayDims).Always fun r =>
      r.2.Explains arrayDims none last r.1 :=
    fun s => .drawn rfl (always_drawMask hdims s)
  unfold recordMask
  cases common with
  | some mask => exact always_pure (.common rfl)
  | none =>
      dsimp only
      cases hfilter : last.filter fun mask => mask.length = arrayDims with
      | none => exact hdrawn
      | some mask =>
          obtain ⟨hmask, hlen⟩ := Option.filter_eq_some_iff.mp hfilter
          refine always_bind_any fun keep => always_ite (fun _ => ?_) fun _ => hdrawn
          exact always_pure (.kept rfl hmask (of_decide_eq_true hlen))

/-- If it is certain that a mask is kept, it is, if it can be. -/
theorem always_recordMask_kept (hkeep : p.tables.stencilSameDimsOneArr.sample.Always (· = true))
    {mask : Mask} (hlen : mask.length = arrayDims) :
    (p.recordMask arrayDims none (some mask)).Always fun r => r.2 = .kept := by
  unfold recordMask
  rw [Option.filter_some, if_pos (decide_eq_true hlen)]
  refine always_bind hkeep fun keep hkept => ?_
  rw [hkept]
  exact always_pure rfl

theorem always_recordArrays_explained (hdims : arrayDims ≠ 0) {certain : Prop}
    (hkeep : certain → p.tables.stencilSameDimsOneArr.sample.Always (· = true))
    (common : Option Mask) (n : Nat) (masks : List Mask) (known : SharedOffsets) :
    (p.recordArrays arrayDims reach shared common n masks known).Always fun records =>
      ∀ (k : Nat) (a : ArrayRecord), records[k]? = some a →
        a.Explained arrayDims certain common masks[k]? := by
  induction n generalizing masks known with
  | zero => exact always_pure (by simp)
  | succ n ih =>
      have hkept : (p.recordMask arrayDims common masks.head?).Always fun r =>
          certain → common = none → ∀ mask, masks.head? = some mask → mask.length = arrayDims →
            r.2 = .kept := by
        intro s hcertain hcommon mask hlast hlen
        rw [hcommon, hlast]
        exact always_recordMask_kept (hkeep hcertain) hlen s
      unfold recordArrays
      refine always_bind ((always_recordMask hdims common masks.head?).and hkept) ?_
      intro chosen hchosen
      obtain ⟨horigin, hkept⟩ := hchosen
      refine always_bind_any fun record => always_bind (ih masks.tail record.known) ?_
      intro others hothers
      refine always_pure fun k a ha => ?_
      cases k with
      | zero =>
          cases ha
          rw [← List.head?_eq_getElem?]
          exact ⟨horigin, hkept⟩
      | succ k =>
          rw [← List.getElem?_tail]
          exact hothers k a ha

theorem always_recordArrays_memo (common : Option Mask) (n : Nat) (masks : List Mask)
    (h : (known.map Prod.fst).Nodup) :
    (p.recordArrays arrayDims reach true common n masks known).Always fun records =>
      Memo known (records.flatMap ArrayRecord.drawn) (records.flatMap fun a => a.array.dims) := by
  induction n generalizing masks known with
  | zero => exact always_pure (.nil h)
  | succ n ih =>
      unfold recordArrays
      refine always_bind_any fun chosen => always_bind (always_recordDims h chosen.1.dims) ?_
      intro record hrecord
      obtain ⟨hknown, hmemo⟩ := hrecord
      rw [hknown]
      refine always_bind (ih masks.tail hmemo.nodup_add) ?_
      intro others hothers
      exact always_pure (hmemo.append hothers)

end Policy

/-! ### New plans -/

/-- Two rows of dimensions and distances are the same if the dimensions are, and if those tell the
distances. -/
theorem StencilDim.eq_of_map_dim_eq {ds es : List StencilDim}
    (hdims : ds.map StencilDim.dim = es.map StencilDim.dim)
    (heq : ∀ d ∈ ds, ∀ e ∈ es, d.dim = e.dim → d = e) : ds = es := by
  induction ds generalizing es with
  | nil => exact (List.map_eq_nil_iff.mp hdims.symm).symm
  | cons d ds ih =>
      cases es with
      | nil => cases hdims
      | cons e es =>
          obtain ⟨hdim, hrest⟩ := List.cons.inj hdims
          rw [heq d List.mem_cons_self e List.mem_cons_self hdim, ih hrest fun d hd e he =>
            heq d (List.mem_cons_of_mem _ hd) e (List.mem_cons_of_mem _ he)]

/-- How a new plan comes about, given the mask that all its arrays share. -/
structure StencilRecord.Explained (r : StencilRecord) (p : Policy) (arrayDims : Nat)
    (h : StencilHistory) (common : Option Mask) : Prop where
  common_iff : r.sameDims = common.isSome
  sameDims : r.sameDims ∈ p.tables.stencilSameDimsAll.support
  memo : r.shared = true → Memo [] r.drawn (r.arrays.flatMap fun a => a.array.dims)
  array : ∀ (k : Nat) (a : ArrayRecord), r.arrays[k]? = some a →
    a.Explained arrayDims (∀ b ∈ p.tables.stencilSameDimsOneArr.support, b = true) common h.masks[k]?
  noted : ∀ a ∈ r.arrays, a.Noted r.shared

/-- What the arrays of a new plan share, and what they do not. -/
structure StencilRecord.Shares (r : StencilRecord) (p : Policy) (arrayDims : Nat)
    (h : StencilHistory) : Prop where
  sameDims : r.sameDims = true → ∀ a ∈ r.plan.arrays, ∀ b ∈ r.plan.arrays,
    a.dims.map StencilDim.dim = b.dims.map StencilDim.dim
  sameDims_certain : (∀ b ∈ p.tables.stencilSameDimsAll.support, b = true) → r.sameDims = true
  offset : r.shared = true → ∀ a ∈ r.plan.arrays, ∀ b ∈ r.plan.arrays,
    ∀ d ∈ a.dims, ∀ e ∈ b.dims, d.dim = e.dim → d.offset = e.offset
  /-- One distance is drawn for each dimension that is used. -/
  once : r.shared = true → (r.drawn.map StencilDim.dim).Nodup ∧
    ∀ n, n ∈ r.drawn.map StencilDim.dim ↔ n ∈ r.plan.dims
  /-- If distances are not shared, one is drawn for each dimension of each array. -/
  each : r.shared = false → ∀ a ∈ r.arrays, a.drawn = a.array.dims
  same : r.sameDims = true → r.shared = true → ∀ a ∈ r.plan.arrays, ∀ b ∈ r.plan.arrays, a = b
  /-- If masks are certain to be kept, one is as long as it has the right length. -/
  kept : r.sameDims = false → (∀ b ∈ p.tables.stencilSameDimsOneArr.support, b = true) →
    ∀ (k : Nat) (a : ArrayRecord), r.arrays[k]? = some a →
      ∀ mask : Mask, h.masks[k]? = some mask → mask.length = arrayDims →
        a.origin = .kept ∧ a.mask = mask
  /-- No other mask is kept. -/
  drawn : r.sameDims = false → ∀ (k : Nat) (a : ArrayRecord), r.arrays[k]? = some a →
    (∀ mask : Mask, h.masks[k]? = some mask → mask.length ≠ arrayDims) →
      a.origin = .drawn ∧ a.mask.Usable arrayDims
  /-- The mask of an array says which dimensions it uses. -/
  dims : ∀ a ∈ r.arrays, a.array.dims.map StencilDim.dim = a.mask.dims

namespace StencilRecord

variable {r : StencilRecord} {p : Policy} {arrayDims : Nat} {h : StencilHistory}
  {common : Option Mask}

theorem plan_dims (r : StencilRecord) :
    r.plan.dims = (r.arrays.flatMap fun a => a.array.dims).map StencilDim.dim := by
  unfold StencilPlan.dims plan
  rw [List.flatMap_map, List.map_flatMap]

/-- What holds of the array of every record holds of every array of the plan. -/
theorem forall_mem_plan {P : StencilArray → Prop} :
    (∀ a ∈ r.plan.arrays, P a) ↔ ∀ a ∈ r.arrays, P a.array :=
  List.forall_mem_map

namespace Explained

variable (hr : r.Explained p arrayDims h common)

include hr

/-- If there is a common mask, it is that of every array. -/
theorem mask_eq {mask : Mask} (hcommon : common = some mask) {a : ArrayRecord} (ha : a ∈ r.arrays) :
    a.mask = mask := by
  obtain ⟨k, hk⟩ := List.mem_iff_getElem?.mp ha
  have horigin := (hr.array k a hk).origin
  rw [hcommon] at horigin
  generalize a.origin = origin at horigin
  cases horigin with
  | common eq => exact (Option.some.inj eq).symm
  | kept apart => cases apart
  | drawn apart => cases apart

theorem dims_eq (hsame : r.sameDims = true) {a b : ArrayRecord} (ha : a ∈ r.arrays)
    (hb : b ∈ r.arrays) :
    a.array.dims.map StencilDim.dim = b.array.dims.map StencilDim.dim := by
  rw [hr.common_iff] at hsame
  obtain ⟨mask, hcommon⟩ := Option.isSome_iff_exists.mp hsame
  rw [(hr.noted a ha).dims, (hr.noted b hb).dims, hr.mask_eq hcommon ha, hr.mask_eq hcommon hb]

/-- Shared distances are a function of the dimension. -/
theorem eq_of_dim_eq (hshared : r.shared = true) {a b : ArrayRecord} (ha : a ∈ r.arrays)
    (hb : b ∈ r.arrays) {d e : StencilDim} (hd : d ∈ a.array.dims) (he : e ∈ b.array.dims)
    (heq : d.dim = e.dim) : d = e :=
  (hr.memo hshared).eq_of_dim_eq (List.mem_flatMap.mpr ⟨a, ha, hd⟩)
    (List.mem_flatMap.mpr ⟨b, hb, he⟩) heq

theorem common_eq_none (hsame : r.sameDims = false) : common = none := by
  rw [hr.common_iff] at hsame
  exact Option.not_isSome_iff_eq_none.mp (by rw [hsame]; exact nofun)

/-- **What comes about as it should is shared as it should be.** -/
theorem shares : r.Shares p arrayDims h := by
  refine ⟨fun hsame => ?_, fun hcertain => hcertain _ hr.sameDims, fun hshared => ?_, fun hshared => ?_,
    ?_, ?_, ?_, ?_, ?_⟩
  · simp only [forall_mem_plan]
    intro a ha b hb
    exact hr.dims_eq hsame ha hb
  · simp only [forall_mem_plan]
    intro a ha b hb d hd e he heq
    exact congrArg StencilDim.offset (hr.eq_of_dim_eq hshared ha hb hd he heq)
  · have hmemo := hr.memo hshared
    refine ⟨hmemo.once, fun n => ?_⟩
    simp only [plan_dims, List.mem_map, hmemo.mem_drawn_iff]
  · exact fun halone a ha => (hr.noted a ha).alone halone
  · simp only [forall_mem_plan]
    intro hsame hshared a ha b hb
    exact congrArg StencilArray.mk (StencilDim.eq_of_map_dim_eq (hr.dims_eq hsame ha hb)
      fun d hd e he => hr.eq_of_dim_eq hshared ha hb hd he)
  · intro hsame hcertain k a ha mask hlast hlen
    have harray := hr.array k a ha
    have hkept := harray.kept hcertain (hr.common_eq_none hsame) mask hlast hlen
    have horigin := harray.origin
    rw [hkept, hlast] at horigin
    cases horigin with
    | kept _ eq => exact ⟨hkept, (Option.some.inj eq).symm⟩
  · intro hsame k a ha hlast
    have horigin := (hr.array k a ha).origin
    rw [hr.common_eq_none hsame] at horigin
    generalize a.origin = origin at horigin ⊢
    cases horigin with
    | common eq => cases eq
    | kept _ eq length_eq => exact absurd length_eq (hlast _ eq)
    | drawn _ usable => exact ⟨rfl, usable⟩
  · exact fun a ha => (hr.noted a ha).dims

end Explained

end StencilRecord

namespace Policy

open Draw

variable {p : Policy} {arrayDims : Nat} {h : StencilHistory}

theorem always_recordStencil_explained (hp : p.tables.WellFormed) (hdims : arrayDims ≠ 0)
    (h : StencilHistory) :
    (p.recordStencil arrayDims h).Always fun r => ∃ common, r.Explained p arrayDims h common := by
  have hkeep : (∀ b ∈ p.tables.stencilSameDimsOneArr.support, b = true) →
      p.tables.stencilSameDimsOneArr.sample.Always (· = true) :=
    fun hcertain => (Table.always_sample (hp .stencilSameDimsOneArr)).mono hcertain
  unfold recordStencil
  refine always_bind_any fun span => always_bind_any fun count => ?_
  refine always_bind (Table.always_sample (hp .stencilSameDimsAll)) fun sameDims hsame => ?_
  refine always_bind_any fun shared => ?_
  have harrays (common : Option Mask) (hcommon : sameDims = common.isSome) (reach : Nat)
      (span count : Nat) :
      (StencilRecord.mk span sameDims shared <$>
        p.recordArrays arrayDims reach shared common count h.masks []).Always
          fun r => ∃ common, r.Explained p arrayDims h common := by
    have hnone : (([] : SharedOffsets).map Prod.fst).Nodup := List.nodup_nil
    intro s
    refine ⟨common, hcommon, hsame, fun hshared => ?_,
      always_recordArrays_explained hdims hkeep common count h.masks [] s,
      always_recordArrays_noted common count h.masks [] s⟩
    obtain rfl : shared = true := hshared
    exact always_recordArrays_memo common count h.masks hnone s
  cases sameDims with
  | true =>
      have hsome : (some <$> p.drawMask arrayDims).Always fun common => true = common.isSome :=
        fun s => rfl
      exact always_bind hsome fun common hcommon => harrays common hcommon _ _ _
  | false => exact harrays none rfl _ _ _

/-- **The arrays of a new plan share what it was decided that they share**, on every policy that can be
made, under any modes, with any history and source. A call with notes is the call itself. If its outcome is
a new plan, then: if all arrays are to use the same dimensions they do, which is so if nothing else can be
drawn; if distances are shared, two arrays that use a dimension have the same distance along it, and one
distance was drawn for each dimension that is used; if both, all arrays are the same; and if neither the
dimensions are common nor a mask can be given up, an array keeps the mask of its place if that has the
right length, and has a new one that is not empty if it has not. -/
theorem stencils_share {template : Policy} (hp : template.Made) (modes : List (ModeCall × Source))
    (arrayDims : Nat) (h : StencilHistory) :
    (template.after modes).planStencil arrayDims h =
        (fun outcome => (outcome.plan?, outcome.history h)) <$>
          (template.after modes).recordOutcome arrayDims h ∧
      ∀ s r, ((template.after modes).recordOutcome arrayDims h s).1 = .fresh r →
        r.Shares (template.after modes) arrayDims h := by
  have hwf : (template.after modes).tables.WellFormed := (hp.wellFormed_after modes).1
  refine ⟨planStencil_eq _ arrayDims h, ?_⟩
  refine always_recordOutcome_fresh fun hdims => ?_
  refine (always_recordStencil_explained hwf hdims h).mono fun r hr => ?_
  obtain ⟨common, hr⟩ := hr
  exact hr.shares

/-- Three arrays of two dimensions. The first keeps its mask, the mask in the place of the second is for
other arrays, and there is none in that of the third. -/
theorem stencils_share_three : ∃ p : Policy, p.Made ∧
    ∃ (h : StencilHistory) (s : Source) (r : StencilRecord), h.masks = [[false, true], [true]] ∧
      (p.recordOutcome 2 h s).1 = .fresh r ∧
      (p.planStencil 2 h s).1.1 =
        some ⟨1, [⟨[⟨1, -1⟩]⟩, ⟨[⟨0, 0⟩, ⟨1, -1⟩]⟩, ⟨[⟨0, 0⟩]⟩]⟩ ∧
      r.arrays.map ArrayRecord.origin = [.kept, .drawn, .drawn] ∧ r.drawn = [⟨1, -1⟩, ⟨0, 0⟩] ∧
      r.Shares p 2 h := by
  let c : PolicyConfig :=
    { limits := .blank
      tables := ⟨fun
        | .allowStencil => some [⟨true, 1.0⟩]
        | .arrsInStencil => some [⟨3, 1.0⟩]
        | .stencilSameDimsAll => some [⟨false, 1.0⟩]
        | .stencilSameDimsOneArr => some [⟨true, 1.0⟩]
        | .stencilReuseOffset => some [⟨true, 1.0⟩]
        | _ => none⟩
      eviction := none }
  let h : StencilHistory := ⟨[], [[false, true], [true]]⟩
  let s : Source := ⟨fun i => i.toUInt64 * 0x2800000000000000, 0⟩
  let r : StencilRecord :=
    { span := 1
      sameDims := false
      shared := true
      arrays :=
        [⟨[false, true], .kept, ⟨[⟨1, -1⟩]⟩, [⟨1, -1⟩]⟩,
          ⟨[true, true], .drawn, ⟨[⟨0, 0⟩, ⟨1, -1⟩]⟩, [⟨0, 0⟩]⟩,
          ⟨[true, false], .drawn, ⟨[⟨0, 0⟩]⟩, []⟩] }
  obtain ⟨p, hp, hcheck⟩ := exists_build c (fun p => (p.recordOutcome 2 h s).1 = .fresh r)
    (by decide +kernel)
  have hfresh : (p.recordOutcome 2 h s).1 = .fresh r := of_decide_eq_true hcheck
  obtain ⟨hplan, hshares⟩ := stencils_share (.build hp) [] 2 h
  have hanswer : (p.planStencil 2 h s).1.1 = (p.recordOutcome 2 h s).1.plan? :=
    congrArg (fun d : Draw _ => (d s).1.1) hplan
  rw [hfresh] at hanswer
  exact ⟨p, .build hp, h, s, r, rfl, hfresh, hanswer, rfl, rfl, hshares s r hfresh⟩

end Policy

end FuzzPolicy
