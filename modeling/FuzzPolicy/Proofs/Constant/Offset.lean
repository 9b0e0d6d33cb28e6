import FuzzPolicy.Proofs.Constant.Plan
import FuzzPolicy.Proofs.Policy.WellFormed

/-!
# Offsets as signed words

An offset is drawn as a magnitude and a sign. Its signed word has the magnitude up to the greatest signed
word and stays there beyond, in either direction: `ConstOffset.natAbs_signed`. So the word is exact for
magnitudes that a signed word can have, and tells these apart: `ConstOffset.signed_eq_iff`. Limits bound the
width of the range of magnitudes but not its end, so a plan can have a magnitude that is cut off. Every
plan is exact if the limit itself is a signed word: `Policy.offsets_signed`.
-/

namespace FuzzPolicy

namespace ConstOffset

/-- The greatest magnitude of a signed word in both directions. -/
def maxSigned : Nat := 2 ^ 63 - 1

variable {o o' : ConstOffset}

theorem signed_of_positive (h : o.positive = true) :
    o.signed = ((min o.magnitude maxSigned : Nat) : Int) := by
  have hmax : Int.pow 2 63 - 1 = (maxSigned : Int) := rfl
  rw [signed, h, hmax, Nat.cast_min]
  rfl

theorem signed_of_negative (h : o.positive = false) :
    o.signed = -((min o.magnitude maxSigned : Nat) : Int) := by
  have hmax : Int.pow 2 63 - 1 = (maxSigned : Int) := rfl
  rw [signed, h, hmax, Nat.cast_min]
  rfl

/-- **The magnitude is kept up to the greatest signed word, and cut off there.** -/
theorem natAbs_signed (o : ConstOffset) : o.signed.natAbs = min o.magnitude maxSigned := by
  cases hsign : o.positive with
  | false => rw [signed_of_negative hsign, Int.natAbs_neg, Int.natAbs_natCast]
  | true => rw [signed_of_positive hsign, Int.natAbs_natCast]

theorem natAbs_signed_eq_iff : o.signed.natAbs = o.magnitude ↔ o.magnitude ≤ maxSigned := by
  rw [natAbs_signed, min_eq_left_iff]

/-- The signed word is one. -/
theorem signed_bounds (o : ConstOffset) : -2 ^ 63 ≤ o.signed ∧ o.signed < 2 ^ 63 := by
  have hle : o.signed.natAbs ≤ maxSigned := by
    rw [natAbs_signed]
    exact Nat.min_le_right _ _
  unfold maxSigned at hle
  omega

theorem signed_pos_iff : 0 < o.signed ↔ o.positive = true ∧ 0 < o.magnitude := by
  have hmax : 0 < maxSigned := by decide
  cases hsign : o.positive with
  | false =>
      rw [signed_of_negative hsign]
      exact ⟨fun h => by omega, nofun⟩
  | true =>
      rw [signed_of_positive hsign, eq_self, true_and]
      omega

theorem signed_neg_iff : o.signed < 0 ↔ o.positive = false ∧ 0 < o.magnitude := by
  have hmax : 0 < maxSigned := by decide
  cases hsign : o.positive with
  | false =>
      rw [signed_of_negative hsign, eq_self, true_and]
      omega
  | true =>
      rw [signed_of_positive hsign]
      exact ⟨fun h => by omega, nofun⟩

/-- Offsets of one sign have the same signed word exactly if they are the same or both cut off. -/
theorem signed_eq_iff (h : o.positive = o'.positive) :
    o.signed = o'.signed ↔ o.magnitude = o'.magnitude ∨
      (maxSigned ≤ o.magnitude ∧ maxSigned ≤ o'.magnitude) := by
  cases hsign : o.positive with
  | false =>
      rw [signed_of_negative hsign, signed_of_negative (h ▸ hsign)]
      omega
  | true =>
      rw [signed_of_positive hsign, signed_of_positive (h ▸ hsign)]
      omega

/-- What is promised of an offset that is planned within a range, and of its signed word. -/
structure Signed (o : ConstOffset) (range : CountRange) : Prop where
  within : range.contains o.magnitude = true
  bounds : -2 ^ 63 ≤ o.signed ∧ o.signed < 2 ^ 63
  natAbs_eq : o.signed.natAbs = min o.magnitude maxSigned
  exact_iff : o.signed.natAbs = o.magnitude ↔ o.magnitude ≤ maxSigned
  pos_iff : 0 < o.signed ↔ o.positive = true ∧ 0 < o.magnitude
  neg_iff : o.signed < 0 ↔ o.positive = false ∧ 0 < o.magnitude

theorem signed_of_within {range : CountRange} (h : range.contains o.magnitude = true) :
    o.Signed range :=
  ⟨h, o.signed_bounds, o.natAbs_signed, natAbs_signed_eq_iff, signed_pos_iff, signed_neg_iff⟩

/-- If no magnitude of the range is cut off, the signed word is exact. -/
theorem Signed.exact {range : CountRange} (h : o.Signed range) (hmax : range.max ≤ maxSigned) :
    o.signed.natAbs = o.magnitude :=
  h.exact_iff.mpr ((CountRange.contains_iff.mp h.within).2.trans hmax)

end ConstOffset

namespace Policy

variable {p : Policy}

/-- The distance of a plan is in the range of the limit, whatever the modes are. -/
theorem Made.always_signed (hp : p.Made) (modes : List (ModeCall × Source)) (buffered : Nat) :
    ((p.after modes).planConst buffered).Always fun plan => ∀ o, plan.offset = some o →
      o.Signed p.limits.constOffset := by
  obtain ⟨limits, tables, eviction, hparts, hwf⟩ := hp.parts
  have hdrawn := (valid_after hparts hwf modes).checked_counts_drawn.planConst buffered
  rw [after_limits] at hdrawn
  exact hdrawn.mono fun plan hplan o ho => ConstOffset.signed_of_within (hplan o ho).2

/-- **How exact the signed words of planned offsets are.** Whatever modes a policy has, however many constants
are remembered and whatever the source is: the signed word of a planned offset has its sign, and its
magnitude up to the greatest signed word. So it is exact if the magnitude is not beyond that, and two
offsets of one sign have the same signed word only if they are the same or neither of them is below it. If
the limit is not beyond it either, the signed words of all plans are exact and tell the magnitudes apart. -/
theorem offsets_signed (hp : p.Made) (modes : List (ModeCall × Source)) (buffered : Nat) :
    (∀ s o, ((p.after modes).planConst buffered s).1.offset = some o →
      o.Signed p.limits.constOffset ∧
      ∀ s' o', ((p.after modes).planConst buffered s').1.offset = some o' →
        o.positive = o'.positive →
        (o.signed = o'.signed ↔ o.magnitude = o'.magnitude ∨
          (ConstOffset.maxSigned ≤ o.magnitude ∧ ConstOffset.maxSigned ≤ o'.magnitude))) ∧
    (p.limits.constOffset.max ≤ ConstOffset.maxSigned →
      ∀ s o, ((p.after modes).planConst buffered s).1.offset = some o →
        o.signed.natAbs = o.magnitude ∧
        ∀ s' o', ((p.after modes).planConst buffered s').1.offset = some o' →
          o.positive = o'.positive → o.signed = o'.signed → o.magnitude = o'.magnitude) := by
  have hsigned := hp.always_signed modes buffered
  refine ⟨fun s o ho => ⟨hsigned s o ho, fun s' o' _ h => ConstOffset.signed_eq_iff h⟩, ?_⟩
  intro hlimit s o ho
  have hexact := (hsigned s o ho).exact hlimit
  refine ⟨hexact, fun s' o' ho' _ heq => ?_⟩
  rw [← hexact, heq, (hsigned s' o' ho').exact hlimit]

/-- On the default policy the distance of five is planned in both directions, and the words are exact. -/
theorem offsets_signed_default : ∃ p : Policy, p.Made ∧ ∃ s s',
    (p.planConst 0 s).1.offset = some ⟨5, true⟩ ∧ (p.planConst 0 s').1.offset = some ⟨5, false⟩ ∧
    p.limits.constOffset.max ≤ ConstOffset.maxSigned ∧
    (ConstOffset.mk 5 true).signed.natAbs = 5 ∧ (ConstOffset.mk 5 false).signed < 0 := by
  let c : PolicyConfig := ⟨.blank, .blank, none⟩
  -- The fifth word decides on the magnitude, the sixth on the sign.
  let up : Source := ⟨fun i => if i = 4 then 0xffffffffffffffff else 0, 0⟩
  let down : Source := ⟨fun i => if i = 4 ∨ i = 5 then 0xffffffffffffffff else 0, 0⟩
  obtain ⟨p, hp, hcheck⟩ := exists_build c
    (fun p => (p.planConst 0 up).1.offset = some ⟨5, true⟩ ∧
      (p.planConst 0 down).1.offset = some ⟨5, false⟩ ∧
      p.limits.constOffset.max ≤ ConstOffset.maxSigned)
    (by decide +kernel)
  obtain ⟨hup, hdown, hlimit⟩ := of_decide_eq_true hcheck
  obtain ⟨hsigned, hexact⟩ := offsets_signed (.build hp) [] 0
  exact ⟨p, .build hp, up, down, hup, hdown, hlimit, (hexact hlimit up _ hup).1,
    (hsigned down _ hdown).1.neg_iff.mpr ⟨rfl, by decide⟩⟩

/-- Limits may ask for distances that no signed word has in both directions. Then two magnitudes that are
planned downwards have one signed word, and it is exact for the lesser of them only, although the greater
one is that of a signed word too. -/
theorem offset_cut_off : ∃ p : Policy, p.Made ∧ ∃ s s',
    (p.planConst 0 s).1.offset = some ⟨2 ^ 63, false⟩ ∧
    (p.planConst 0 s').1.offset = some ⟨2 ^ 63 - 1, false⟩ ∧
    (ConstOffset.mk (2 ^ 63) false).signed = -(2 ^ 63 - 1) ∧
    (ConstOffset.mk (2 ^ 63) false).signed.natAbs ≠ 2 ^ 63 ∧
    (ConstOffset.mk (2 ^ 63 - 1) false).signed = -(2 ^ 63 - 1) := by
  let c : PolicyConfig :=
    { limits := ⟨fun | .constOffset => some ⟨2 ^ 63 - 1, 2 ^ 63⟩ | _ => none⟩
      tables := .blank
      eviction := none }
  let cut : Source := ⟨fun i => if i = 4 ∨ i = 5 then 0xffffffffffffffff else 0, 0⟩
  let kept : Source := ⟨fun i => if i = 5 then 0xffffffffffffffff else 0, 0⟩
  obtain ⟨p, hp, hcheck⟩ := exists_build c
    (fun p => (p.planConst 0 cut).1.offset = some ⟨2 ^ 63, false⟩ ∧
      (p.planConst 0 kept).1.offset = some ⟨2 ^ 63 - 1, false⟩)
    (by decide +kernel)
  obtain ⟨hcut, hkept⟩ := of_decide_eq_true hcheck
  exact ⟨p, .build hp, cut, kept, hcut, hkept, by decide, by decide, by decide⟩

end Policy

end FuzzPolicy
