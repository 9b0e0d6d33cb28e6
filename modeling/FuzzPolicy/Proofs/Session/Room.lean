import FuzzPolicy.Proofs.Config.RoundTrip
import FuzzPolicy.Proofs.Policy.FromLimits
import FuzzPolicy.Proofs.Policy.WellFormed
import FuzzPolicy.Session.Basic

/-!
# Room for the buffer of a session

A buffer takes the room for all its constants when it is made, and there is only so much that can be asked
for at once. The definitions of the library do not show this, as a buffer is no more than its capacity and
a list. `ConstBuffer.reserve` stops with `NoRoom` where too much is asked for, and `Session.start` and
`startSessions` open sessions with it. They give the plain sessions exactly if the capacity is below 2⁵⁹:
`Policy.sessions_start`. Valid limits keep everything else that is counted out in advance short,
`Limits.Short`, but of the capacity they ask only that it is not zero. So every capacity that can be
written in a document is accepted, those included that no session can be opened with.
-/

namespace FuzzPolicy

open Checks Document

/-! ### Sessions that ask for room -/

/-- More room is asked for than there can be. -/
structure NoRoom where
  bytes : Nat
  deriving DecidableEq, Repr

/-- The bytes of one constant, which is an integer of 128 bits. -/
def constBytes : Nat := 16

/-- The greatest number of bytes that can be asked for at once. -/
def maxRoom : Nat := 2 ^ 63 - 1

/-- The empty buffer, with room for as many constants as it may have. -/
def ConstBuffer.reserve (capacity : Nat) (eviction : Eviction) : Except NoRoom (ConstBuffer Int) :=
  if capacity * constBytes ≤ maxRoom then
    .ok (.empty capacity eviction)
  else
    .error ⟨capacity * constBytes⟩

/-- A new session with a policy like the template. -/
def Session.start (template : Policy) (master id : UInt64) : Except NoRoom Session := do
  let consts ← ConstBuffer.reserve template.limits.constBufSize template.eviction
  return {
    id
    seed := seedOf master id
    policy := template
    source := Source.ofSeed (seedOf master id)
    consts
    stencil := .empty }

/-- The sessions with the given ids, with their modes chosen. -/
def startSessions (template : Policy) (master : UInt64) : List Nat → Except NoRoom (List Session)
  | [] => return []
  | id :: ids => do
    let s ← Session.start template master id.toUInt64
    let others ← startSessions template master ids
    return s.bootstrap.2 :: others

/-- There is room for the constants that are to be remembered. -/
def Limits.Room (l : Limits) : Prop :=
  l.constBufSize * constBytes ≤ maxRoom

theorem Limits.room_iff {l : Limits} : l.Room ↔ l.constBufSize < 2 ^ 59 := by
  unfold Room constBytes maxRoom
  omega

section

variable {p : Policy} {master : UInt64}

theorem Session.start_of_room (h : p.limits.Room) (id : UInt64) :
    Session.start p master id = .ok (.new p master id) := by
  have hreserve : ConstBuffer.reserve p.limits.constBufSize p.eviction = .ok p.newConstBuffer :=
    if_pos h
  rw [start, bind_of_ok hreserve]
  rfl

theorem Session.start_of_not_room (h : ¬ p.limits.Room) (id : UInt64) :
    Session.start p master id = .error ⟨p.limits.constBufSize * constBytes⟩ := by
  have hreserve : ConstBuffer.reserve p.limits.constBufSize p.eviction =
      .error ⟨p.limits.constBufSize * constBytes⟩ := if_neg h
  exact bind_of_error hreserve

theorem startSessions_of_room (h : p.limits.Room) (ids : List Nat) :
    startSessions p master ids =
      .ok (ids.map fun id => (Session.new p master id.toUInt64).bootstrap.2) := by
  induction ids with
  | nil => rfl
  | cons id ids ih =>
      rw [startSessions, bind_of_ok (Session.start_of_room h _), bind_of_ok ih]
      rfl

/-- The first session already cannot be opened. -/
theorem startSessions_of_not_room (h : ¬ p.limits.Room) {ids : List Nat} (hne : ids ≠ []) :
    startSessions p master ids = .error ⟨p.limits.constBufSize * constBytes⟩ := by
  cases ids with
  | nil => exact absurd rfl hne
  | cons id ids => exact bind_of_error (Session.start_of_not_room h _)

end

/-! ### What validation asks of limits -/

namespace Limits

variable {l : Limits}

/-- The limits on what is counted out in tables are not far from the greatest length of a table. -/
structure Short (l : Limits) : Prop where
  loopSeqNum : l.loopSeqNumLim ≤ maxRangeLength
  loopNestDepth : l.loopNestDepthLim ≤ maxRangeLength
  scopeStmtNum : l.scopeStmtNum.width < maxRangeLength
  newArrNum : l.newArrNum.width < maxRangeLength
  constOffset : l.constOffset.width < maxRangeLength
  pragmaNum : l.maxPragmaNum < maxRangeLength
  stencilSpan : l.maxStencilSpan ≤ maxRangeLength
  arrsInStencil : l.maxArrsInStencil ≤ maxRangeLength

theorem le_of_width_upTo {n : Nat} (h : (CountRange.upTo n).width < maxRangeLength) :
    n ≤ maxRangeLength := by
  have hwidth : (CountRange.upTo n).width = n - min n 1 := rfl
  omega

theorem short_of_validate (h : l.validate = .ok ()) : l.Short := by
  obtain ⟨-, -, hwidth, -⟩ := validate_eq_ok_iff.mp h
  simp only [tableRanges, List.forall_mem_cons] at hwidth
  obtain ⟨hseq, hnest, hstmt, harr, hoffset, hpragma, hspan, harrays, -⟩ := hwidth
  exact {
    loopSeqNum := le_of_width_upTo hseq
    loopNestDepth := le_of_width_upTo hnest
    scopeStmtNum := hstmt
    newArrNum := harr
    constOffset := hoffset
    pragmaNum := hpragma
    stencilSpan := le_of_width_upTo hspan
    arrsInStencil := le_of_width_upTo harrays }

/-- Of the capacity validation asks no more than that it is not zero. -/
theorem validate_constBufSize_iff (h : l.validate = .ok ()) (n : Nat) :
    { l with constBufSize := n }.validate = .ok () ↔ n ≠ 0 := by
  obtain ⟨horder, hsizes, hwidth, halternation⟩ := validate_eq_ok_iff.mp h
  simp only [sizes, List.forall_mem_cons] at hsizes
  obtain ⟨hspan, harrays, -⟩ := hsizes
  rw [validate_eq_ok_iff]
  constructor
  · rintro ⟨-, hnonzero, -⟩
    exact hnonzero (.constBufSize, n) (by simp [sizes])
  · intro hn
    refine ⟨horder, ?_, hwidth, halternation⟩
    simp only [sizes, List.forall_mem_cons]
    exact ⟨hspan, harrays, hn, by simp⟩

end Limits

/-! ### Documents that give the capacity -/

/-- The configuration that gives a capacity and nothing else. -/
def PolicyConfig.ofCapacity (n : Nat) : PolicyConfig :=
  ⟨⟨fun
    | .constBufSize => some n
    | _ => none⟩, .blank, none⟩

namespace PolicyConfig

variable {n : Nat}

theorem ofText_ofCapacity (h : n < 2 ^ 64) : ofText (ofCapacity n).toText = .ok (ofCapacity n) := by
  have hlimits (l : LimitId) (v : l.Value) (hv : (ofCapacity n).limits.value l = some v) :
      l.sort.Numbers (· < 2 ^ 64) ReadsBack v := by
    cases l with
    | constBufSize =>
        obtain rfl := Option.some.inj hv
        exact h
    | _ => cases hv
  have htables (t : TableId) (es : List (Entry t.Outcome))
      (hes : (ofCapacity n).tables.entries t = some es) :
      ∀ e ∈ es, t.sort.Numbers (· < 2 ^ 64) e.value ∧ ReadsBack e.weight := by
    cases hes
  exact (carries ⟨hlimits, htables⟩).readText strict_read

end PolicyConfig

namespace Policy

variable {p : Policy}

theorem Made.limits_valid (hp : p.Made) : p.limits.validate = .ok () := by
  obtain ⟨limits, tables, eviction, hparts, -⟩ := hp.parts
  obtain ⟨hvalid, -, rfl⟩ := ofParts_eq_ok_iff.mp hparts
  exact hvalid

/-- Whatever capacity a document gives, it names a policy. -/
theorem exists_ofCapacity {n : Nat} (hn : n ≠ 0) (hword : n < 2 ^ 64) :
    ∃ p, ofText (PolicyConfig.ofCapacity n).toText = .ok p ∧ p.limits.constBufSize = n := by
  have hvalid : (PolicyConfig.ofCapacity n).limits.apply.validate = .ok () :=
    (Limits.validate_constBufSize_iff (l := .default) (by decide +kernel) n).mpr hn
  obtain ⟨-, p, -, -, hp⟩ := exists_ofLimits hvalid
  have hbuild : (PolicyConfig.ofCapacity n).build = .ok p := (build_of_limits _).trans hp
  exact ⟨p, ofText_eq_ok_iff.mpr ⟨_, PolicyConfig.ofText_ofCapacity hword, hbuild⟩,
    (PolicyConfig.names_of_build hbuild).limit .constBufSize⟩

/-- **Which policies sessions can be opened with.** Whatever modes a policy has, any session on it can be
opened, and any number of them, exactly if its capacity is below 2⁵⁹, and none can be if not. Validation
does not see to that. It keeps the other limits on what is counted out short, but accepts the same limits
with any capacity that is not zero. The capacity of a policy that a document names is the one that stands
in the document, or else the default. -/
theorem sessions_start (hp : p.Made) (modes : List (ModeCall × Source)) (master : UInt64) :
    (p.limits.constBufSize < 2 ^ 59 →
      (∀ id, Session.start (p.after modes) master id = .ok (.new (p.after modes) master id)) ∧
      ∀ count, startSessions (p.after modes) master (List.range count) =
        .ok (bootstrapSessions (p.after modes) master count)) ∧
    (2 ^ 59 ≤ p.limits.constBufSize →
      (∀ id, Session.start (p.after modes) master id =
        .error ⟨p.limits.constBufSize * constBytes⟩) ∧
      ∀ count, 0 < count → startSessions (p.after modes) master (List.range count) =
        .error ⟨p.limits.constBufSize * constBytes⟩) ∧
    p.limits.Short ∧
    (∀ n, (∃ q, ofLimits { p.limits with constBufSize := n } = .ok q) ↔ n ≠ 0) ∧
    ∀ text, ofText text = .ok p → ∃ c, PolicyConfig.ofText text = .ok c ∧
      p.limits.constBufSize = (c.limits.value .constBufSize).getD defaultConstBufSize := by
  have hvalid := hp.limits_valid
  refine ⟨?_, ?_, Limits.short_of_validate hvalid, fun n => ?_, fun text h => ?_⟩
  · rw [← after_limits p modes, ← Limits.room_iff]
    exact fun h => ⟨Session.start_of_room h, fun count => startSessions_of_room h _⟩
  · rw [← after_limits p modes, ← Nat.not_lt, ← Limits.room_iff]
    refine fun h => ⟨Session.start_of_not_room h, fun count hcount => ?_⟩
    exact startSessions_of_not_room h (by simpa using hcount.ne')
  · rw [← Limits.validate_constBufSize_iff hvalid n]
    constructor
    · rintro ⟨q, hq⟩
      exact validate_of_ofLimits hq
    · intro h
      obtain ⟨-, q, -, -, hq⟩ := exists_ofLimits h
      exact ⟨q, hq⟩
  · obtain ⟨c, hc, hbuild⟩ := ofText_eq_ok_iff.mp h
    exact ⟨c, hc, (PolicyConfig.names_of_build hbuild).limit .constBufSize⟩

/-- Sixteen sessions on the default policy, and none on the same limits with the least capacity that is too
great. -/
theorem sessions_start_default :
    (∃ p : Policy, ofLimits .default = .ok p ∧
      startSessions p 11 (List.range 16) = .ok (bootstrapSessions p 11 16)) ∧
    ∃ p : Policy, ofLimits { Limits.default with constBufSize := 2 ^ 59 } = .ok p ∧
      Session.start p 11 0 = .error ⟨2 ^ 63⟩ := by
  obtain ⟨tables, p, -, -, hp⟩ := exists_ofLimits (l := .default) (by decide +kernel)
  have hlimits : p.limits = .default := limits_of_ofLimits hp
  obtain ⟨hroom, -, -, haccepted, -⟩ := sessions_start (.ofLimits hp) [] 11
  rw [hlimits] at hroom haccepted
  obtain ⟨q, hq⟩ := (haccepted (2 ^ 59)).mpr (by decide)
  obtain ⟨-, hnone, -⟩ := sessions_start (.ofLimits hq) [] 11
  rw [limits_of_ofLimits hq] at hnone
  exact ⟨⟨p, hp, (hroom (by decide)).2 16⟩, q, hq, (hnone (by decide)).1 0⟩

/-- A document that asks for a capacity of 2⁶⁰ names a policy that no session can be opened with. -/
theorem no_room : ∃ text p, ofText text = .ok p ∧ p.limits.validate = .ok () ∧
    p.limits.constBufSize = 2 ^ 60 ∧ ¬ p.limits.constBufSize * 16 ≤ 2 ^ 63 - 1 ∧
    (∀ master id, Session.start p master id = .error ⟨2 ^ 64⟩) ∧
    ∀ master count, 0 < count → startSessions p master (List.range count) = .error ⟨2 ^ 64⟩ := by
  obtain ⟨p, hp, hsize⟩ := exists_ofCapacity (n := 2 ^ 60) (by decide) (by decide)
  obtain ⟨c, -, hbuild⟩ := ofText_eq_ok_iff.mp hp
  have hmade : p.Made := .build hbuild
  have hbytes : p.limits.constBufSize * constBytes = 2 ^ 64 := by rw [hsize]; rfl
  have hroom : ¬ p.limits.Room := by
    rw [Limits.room_iff, hsize]
    decide
  refine ⟨_, p, hp, hmade.limits_valid, hsize, by rw [hsize]; decide, fun master id => ?_,
    fun master count hcount => ?_⟩
  · rw [Session.start_of_not_room hroom, hbytes]
  · rw [startSessions_of_not_room hroom (by simpa using hcount.ne'), hbytes]

end Policy

end FuzzPolicy
