import FuzzPolicy.Proofs.Binary64.Multiplication
import FuzzPolicy.Random.Source

/-!
# The float from a word

The high 53 bits of a word are a number that fits into a significand, so neither making a float of it nor
scaling that by 2⁻⁵³ rounds anything: `units_unitOfWord`. The float is therefore below one, and words are in
the order of their high bits.
-/

namespace FuzzPolicy.Draw

open Binary64 Float.Model Float.Model.UnpackedFloat

/-- A number that fits into a significand is made a float as it is. -/
theorem toFloat_of_lt {n : UInt64} (h : n.toNat < 2 ^ 53) :
    0 ≤ n.toFloat ∧ Binary64.units n.toFloat = n.toNat * oneUnits := by
  have hmodel : n.toFloat.toModel =
      Float.Model.pack (UnpackedFloat.normalize Format.binary64 (n.toNat : Int) 0 .positive) := rfl
  rw [nonNegative_iff, Binary64.units, hmodel]
  rcases Nat.eq_zero_or_pos n.toNat with hzero | hpos
  · rw [hzero, Nat.zero_mul]
    exact ⟨.zero .positive, rfl⟩
  · have hround : UnpackedFloat.normalize Format.binary64 (n.toNat : Int) 0 .positive =
        UnpackedFloat.round Format.binary64 .positive n.toNat 0 := by
      unfold UnpackedFloat.normalize
      rw [Int.compare_eq_gt.mpr (by omega)]
      rfl
    obtain ⟨hnonneg, hunits⟩ := pack_round hpos (e := 0) (by decide)
    have hexact : Binary64.round (n.toNat * 2 ^ 1074) = n.toNat * 2 ^ 1074 :=
      round_mul_two_pow h (by decide)
    rw [hround, hunits, show ((0 : Int) + 1074).toNat = 1074 from rfl, oneUnits]
    exact ⟨hnonneg, hexact⟩

theorem toNat_shiftRight_lt (w : UInt64) : (w >>> 11).toNat < 2 ^ 53 := by
  have hw : w.toNat < 2 ^ 64 := w.toNat_lt
  have hdiv : (w >>> 11).toNat = w.toNat / 2 ^ 11 := by
    rw [UInt64.toNat_shiftRight]
    exact Nat.shiftRight_eq_div_pow _ 11
  omega

/-- The units of 2⁻⁵³. -/
def stepUnits : Nat := 2 ^ 1021

theorem units_unitStep : Binary64.units unitStep = stepUnits := by decide +kernel

theorem unitStep_nonneg : 0 ≤ unitStep := by decide +kernel

theorem isFinite_unitStep : unitStep.isFinite = true := by
  rw [isFinite_iff unitStep_nonneg, units_unitStep]
  unfold stepUnits overflow places
  exact pow_lt_pow_right₀ one_lt_two (by omega)

theorem stepUnits_pos : 0 < stepUnits :=
  pow_pos two_pos _

theorem pow_mul_stepUnits : 2 ^ 53 * stepUnits = oneUnits := by
  unfold stepUnits oneUnits
  rw [← pow_add]

section

variable (w : UInt64)

theorem isFinite_toFloat_shiftRight : (w >>> 11).toFloat.isFinite = true := by
  obtain ⟨hnonneg, hunits⟩ := toFloat_of_lt (toNat_shiftRight_lt w)
  rw [isFinite_iff hnonneg, hunits]
  exact mul_oneUnits_lt_overflow (toNat_shiftRight_lt w)

theorem unitOfWord_nonneg : 0 ≤ unitOfWord w :=
  mul_nonneg (toFloat_of_lt (toNat_shiftRight_lt w)).1 unitStep_nonneg
    (isFinite_toFloat_shiftRight w) isFinite_unitStep

/-- **The float of a word is the number of its high 53 bits, in steps of 2⁻⁵³.** -/
theorem units_unitOfWord : Binary64.units (unitOfWord w) = (w >>> 11).toNat * stepUnits := by
  obtain ⟨hnonneg, hunits⟩ := toFloat_of_lt (toNat_shiftRight_lt w)
  have hexact : Binary64.round ((w >>> 11).toNat * 2 ^ 1021) = (w >>> 11).toNat * 2 ^ 1021 :=
    round_mul_two_pow (toNat_shiftRight_lt w) (by decide)
  rw [unitOfWord, units_mul_of_eq hnonneg unitStep_nonneg (isFinite_toFloat_shiftRight w)
    isFinite_unitStep hunits, units_unitStep]
  exact hexact

theorem units_unitOfWord_lt : Binary64.units (unitOfWord w) < oneUnits := by
  rw [units_unitOfWord, ← pow_mul_stepUnits]
  exact Nat.mul_lt_mul_of_pos_right (toNat_shiftRight_lt w) stepUnits_pos

theorem isFinite_unitOfWord : (unitOfWord w).isFinite = true := by
  have hone : 1 * oneUnits < overflow := mul_oneUnits_lt_overflow (by decide)
  rw [Nat.one_mul] at hone
  rw [isFinite_iff (unitOfWord_nonneg w)]
  exact Nat.lt_trans (units_unitOfWord_lt w) hone

end

/-- Words are in the order of their high bits. -/
theorem units_unitOfWord_le_iff {w w' : UInt64} :
    Binary64.units (unitOfWord w) ≤ Binary64.units (unitOfWord w') ↔ w >>> 11 ≤ w' >>> 11 := by
  rw [units_unitOfWord, units_unitOfWord, UInt64.le_iff_toNat_le]
  exact Nat.mul_le_mul_right_iff stepUnits_pos

end FuzzPolicy.Draw
