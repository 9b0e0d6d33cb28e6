import FuzzPolicy.Proofs.Constant.Buffer
import FuzzPolicy.Proofs.Constant.Plan
import FuzzPolicy.Proofs.Table.Made

/-!
# Two ways of using constants

A way of using constants puts tables that give one value only in place of some of those that plans and
buffers ask. Then what is drawn is known: where all constants are to be the same, a remembered one is used
whenever there is one, `Policy.always_planConst_allSame`, and a full buffer keeps what it has,
`ConstBuffer.always_offer_kept`; where they are to be new, none is ever used again,
`Policy.always_planConst_freshSpecial`, and a full buffer takes whatever comes,
`ConstBuffer.always_offer_replaced`.
-/

namespace FuzzPolicy

open Draw

open scoped List

/-! ### Tables of one value -/

/-- The table of one value gives it. -/
theorem Table.always_sample_single {α : Type} (v : α) :
    (Table.single v).sample.Always (· = v) := by
  refine (Table.always_sample (Table.single_wellFormed v)).mono fun w hw => ?_
  obtain ⟨e, he, -, hvalue⟩ := Table.mem_support_iff.mp hw
  rw [← hvalue, List.mem_singleton.mp he]

/-! ### Plans -/

/-- A plan, when so many constants are remembered, of a session that always uses one of them. -/
structure ConstPlan.Repeats (plan : ConstPlan) (buffered : Nat) : Prop where
  reuse_iff : plan.isReuse = true ↔ 0 < buffered
  exhausted_iff : plan.exhausted = true ↔ buffered = 0
  fresh : plan.exhausted = true → plan.source = .fresh

/-- A plan of a session that never uses a remembered constant, and so never finds that there is none. -/
structure ConstPlan.Renews (plan : ConstPlan) : Prop where
  isReuse : plan.isReuse = false
  exhausted : plan.exhausted = false

namespace Policy

variable {p : Policy} {buffered : Nat}

theorem always_planReuse_reuse : (p.planReuse buffered).Always fun source =>
    ∃ index transform, source = .reuse index transform := by
  unfold planReuse
  refine always_bind_any fun index => always_bind_any fun transforms =>
    always_ite (fun _ => ?_) fun _ => always_pure ⟨index, none, rfl⟩
  exact always_bind_any fun op => always_pure ⟨index, some op, rfl⟩

theorem always_planNew_new : p.planNew.Always fun source =>
    (∃ kind, source = .special kind) ∨ source = .fresh := by
  unfold planNew
  refine always_bind_any fun special => always_ite (fun _ => ?_) fun _ => always_pure (.inr rfl)
  exact always_bind_any fun kind => always_pure (.inl ⟨kind, rfl⟩)

variable {baseline : Catalog}

/-- **Where all constants are the same, a remembered one is used whenever there is one**, and a fresh one
if not. -/
theorem always_planConst_allSame (h : p.tables.constants = constTables .allSame baseline)
    (buffered : Nat) : (p.planConst buffered).Always (·.Repeats buffered) := by
  have hreuse : p.tables.reuseConst = .single true := congrArg ConstTables.reuseConst h
  have hspecial : p.tables.useSpecialConst = .single false := congrArg ConstTables.useSpecialConst h
  have hnew : p.planNew.Always (· = .fresh) := by
    unfold planNew
    rw [hspecial]
    refine always_bind (Table.always_sample_single false) ?_
    intro special hdrawn
    subst hdrawn
    exact always_pure rfl
  have hwish : p.tables.reuseConst.sample.Always (· = true) := by
    rw [hreuse]
    exact Table.always_sample_single true
  have hplan := always_planConst_of buffered
    (P := fun source => (0 < buffered ∧ ∃ index transform, source = .reuse index transform) ∨
      (buffered = 0 ∧ source = .fresh)) hwish
    (fun _ hpos => always_planReuse_reuse.mono fun _ hsource => .inl ⟨hpos, hsource⟩)
    fun _ hw hzero => hnew.mono fun _ hsource => .inr ⟨hzero hw, hsource⟩
  refine hplan.mono ?_
  intro plan hplan
  obtain ⟨source, offset, lsbEnd, exhausted⟩ := plan
  obtain ⟨hsource, wish, rfl, hexhausted⟩ := hplan
  have hempty : exhausted = true ↔ buffered = 0 := by simpa using hexhausted
  rcases hsource with ⟨hpos, index, transform, rfl⟩ | ⟨hzero, rfl⟩
  · exact ⟨⟨fun _ => hpos, fun _ => rfl⟩, hempty, fun h => absurd (hempty.mp h) hpos.ne'⟩
  · exact ⟨⟨nofun, fun hpos => absurd hzero hpos.ne'⟩, hempty, fun _ => rfl⟩

/-- **Where constants are to be new, no remembered one is used**, and none is missed. -/
theorem always_planConst_freshSpecial (h : p.tables.constants = constTables .freshSpecial baseline)
    (buffered : Nat) : (p.planConst buffered).Always ConstPlan.Renews := by
  have hreuse : p.tables.reuseConst = .single false := congrArg ConstTables.reuseConst h
  have hwish : p.tables.reuseConst.sample.Always (· = false) := by
    rw [hreuse]
    exact Table.always_sample_single false
  refine (always_planConst_of buffered hwish nofun fun _ _ _ => always_planNew_new).mono ?_
  intro plan hplan
  obtain ⟨source, offset, lsbEnd, exhausted⟩ := plan
  obtain ⟨hsource, wish, rfl, hexhausted⟩ := hplan
  have hnever : exhausted = false := by simpa using hexhausted
  rcases hsource with ⟨kind, rfl⟩ | rfl
  · exact ⟨rfl, hnever⟩
  · exact ⟨rfl, hnever⟩

end Policy

/-! ### Offers to a full buffer -/

namespace ConstBuffer

variable {α : Type} {b : ConstBuffer α}

/-- A full buffer that never replaces anything stays as it is. -/
theorem always_offer_kept (hfull : b.isFull = true) (value : α) :
    (b.offer (.single false) value).Always (· = (.rejected, b)) := by
  unfold offer
  rw [hfull]
  refine always_ite (fun _ => always_pure rfl) fun _ => ?_
  refine always_bind (Table.always_sample_single false) ?_
  intro replaced hdrawn
  subst hdrawn
  exact always_pure rfl

/-- What becomes of a constant that is offered if it takes the place of another: that one goes out, and
all others are still there. -/
def Exchanges (b : ConstBuffer α) (t : Trade α) (after : ConstBuffer α) : Prop :=
  ∃ old ∈ b.values, t.offer = .replaced old ∧ old :: after.values ~ b.values ++ [t.value]

theorem Takes.exchanges {t : Trade α} {after : ConstBuffer α} {old : α} (h : b.Takes t after)
    (hoffer : t.offer = .replaced old) : b.Exchanges t after := by
  have hperm := h.perm
  rw [Trade.evicted?, Trade.accepted?, hoffer] at hperm
  exact ⟨old, h.mem_of_replaced hoffer, hoffer, hperm⟩

/-- In a buffer that is not empty there is something to replace. -/
theorem always_replaceWith_replaced (h : b.values ≠ []) (value : α) :
    (b.replaceWith value).Always fun r => ∃ old, r.1 = .replaced old := by
  unfold replaceWith
  cases hvalues : b.values with
  | nil => exact absurd hvalues h
  | cons old others =>
      dsimp only
      cases b.eviction with
      | fifo => exact always_pure ⟨old, rfl⟩
      | randomReplace => exact always_bind_any fun index => always_pure ⟨_, rfl⟩

/-- A full buffer that always replaces something takes whatever comes, unless it has no capacity. -/
theorem always_offer_replaced (hfull : b.isFull = true) (hcapacity : b.capacity ≠ 0) (value : α) :
    (b.offer (.single true) value).Always fun r => b.Exchanges ⟨value, r.1⟩ r.2 := by
  have hne : b.values ≠ [] := by
    intro hnil
    have hlength : b.length = 0 := congrArg List.length hnil
    exact hcapacity (Nat.le_zero.mp (hlength ▸ isFull_iff.mp hfull))
  have hreplaced : (b.offer (.single true) value).Always fun r => ∃ old, r.1 = .replaced old := by
    unfold offer
    rw [hfull]
    refine always_ite (fun hzero => absurd hzero hcapacity) fun _ => ?_
    refine always_bind (Table.always_sample_single true) ?_
    intro replaced hdrawn
    subst hdrawn
    exact always_replaceWith_replaced hne value
  refine ((b.always_offer (.single true) value).and hreplaced).mono ?_
  intro r hr
  obtain ⟨htakes, old, hoffer⟩ := hr
  exact htakes.exchanges hoffer

end ConstBuffer

end FuzzPolicy
