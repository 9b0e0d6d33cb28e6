import FuzzPolicy.Proofs.Binary64.Sum

/-!
# The float product

The product of two numbers of units is a number of units of 2⁻¹⁰⁷⁴ units, and the product of two finite
floats that are not negative is that number, rounded to units: `units_mul`. So the product is not negative
either, it grows with each factor, and a factor of at most one makes it no greater than the other. The
exponent of an exact product is never greater than that to which it is rounded, so in the model it is only
shifted to the right, but it may leave the range of floats at the lower end, and become zero.
-/

namespace FuzzPolicy.Binary64

open Float.Model Float.Model.UnpackedFloat

/-- One of the factors is full, or both have the least exponent. -/
theorem add_le_target {m m' : Nat} {e e' : Int} {hm : 0 < m} {hm' : 0 < m'}
    (h : Canonical (.finite .positive m e hm)) (h' : Canonical (.finite .positive m' e' hm')) :
    e + e' ≤ Format.binary64.targetExponent (totalExponent (m * m') (e + e')) := by
  rw [target_eq, totalExponent]
  cases h with
  | finite _ _ hlt hlo _ hfull =>
    cases h' with
    | finite _ _ hlt' hlo' _ hfull' =>
      have hne : m * m' ≠ 0 := Nat.ne_of_gt (Nat.mul_pos hm hm')
      have hlog (hwide : 2 ^ 52 ≤ m * m') : 52 ≤ (m * m').log2 := (Nat.le_log2 hne).mpr hwide
      rcases hfull with hfull | rfl
      · have := hlog (Nat.le_trans hfull (Nat.le_mul_of_pos_right m hm'))
        omega
      · rcases hfull' with hfull' | rfl
        · have := hlog (Nat.le_trans hfull' (Nat.le_mul_of_pos_left m' hm))
          omega
        · omega

theorem mul_finite {m m' : Nat} {e e' : Int} {hm : 0 < m} {hm' : 0 < m'}
    (h : Canonical (.finite .positive m e hm)) (h' : Canonical (.finite .positive m' e' hm')) :
    NonNegative (Float.Model.pack (UnpackedFloat.mul Format.binary64 (.finite .positive m e hm)
        (.finite .positive m' e' hm'))).unpack ∧
      unpackedUnits (Float.Model.pack (UnpackedFloat.mul Format.binary64
          (.finite .positive m e hm) (.finite .positive m' e' hm'))).unpack =
        roundFine 1074 (m * 2 ^ (e + 1074).toNat * (m' * 2 ^ (e' + 1074).toNat)) := by
  have hle := add_le_target h h'
  cases h with
  | finite _ _ _ hlo _ _ =>
    cases h' with
    | finite _ _ _ hlo' _ _ =>
      have hvalue : m * m' * 2 ^ (e + e' + 1074 + (1074 : Nat)).toNat =
          m * 2 ^ (e + 1074).toNat * (m' * 2 ^ (e' + 1074).toNat) := by
        rw [Nat.mul_mul_mul_comm, ← Nat.pow_add]
        congr 2
        omega
      rw [← hvalue]
      exact pack_roundWithAccuracy (Nat.mul_pos hm hm') (by omega) hle

theorem mul_unpacked {a b : UnpackedFloat} (ha : Canonical a) (hb : Canonical b)
    (ha0 : NonNegative a) (hb0 : NonNegative b) (hafin : a.isFinite = true)
    (hbfin : b.isFinite = true) :
    NonNegative (Float.Model.pack (UnpackedFloat.mul Format.binary64 a b)).unpack ∧
      unpackedUnits (Float.Model.pack (UnpackedFloat.mul Format.binary64 a b)).unpack =
        roundFine 1074 (unpackedUnits a * unpackedUnits b) := by
  have hzero (s : Sign) : NonNegative (Float.Model.pack (.zero s)).unpack ∧
      unpackedUnits (Float.Model.pack (.zero s)).unpack = roundFine 1074 0 := by
    rw [unpack_pack_zero, roundFine_of_zero]
    exact ⟨.zero s, rfl⟩
  cases ha0 with
  | infinity => cases hafin
  | zero s =>
      rw [show unpackedUnits (.zero s) = 0 from rfl, Nat.zero_mul]
      cases hb0 with
      | infinity => cases hbfin
      | zero s' => exact hzero _
      | finite hm => exact hzero _
  | finite hm =>
      cases hb0 with
      | infinity => cases hbfin
      | zero s => exact hzero _
      | finite hm' => exact mul_finite ha hb

section

variable {x y : Float} (hx : 0 ≤ x) (hy : 0 ≤ y) (hxfin : x.isFinite = true)
  (hyfin : y.isFinite = true)

include hx hy hxfin hyfin

theorem mul_unpack :
    NonNegative (x * y).toModel.unpack ∧
      units (x * y) = roundFine 1074 (units x * units y) :=
  mul_unpacked (canonical_unpack _) (canonical_unpack _) (nonNegative_iff.mp hx)
    (nonNegative_iff.mp hy) hxfin hyfin

theorem mul_nonneg : 0 ≤ x * y :=
  nonNegative_iff.mpr (mul_unpack hx hy hxfin hyfin).1

/-- **The float product is the product in units of 2⁻¹⁰⁷⁴ units, rounded.** -/
theorem units_mul : units (x * y) = roundFine 1074 (units x * units y) :=
  (mul_unpack hx hy hxfin hyfin).2

/-- A factor that is a whole number of ones does not need finer units. -/
theorem units_mul_of_eq {n : Nat} (h : units x = n * oneUnits) :
    units (x * y) = round (n * units y) := by
  rw [units_mul hx hy hxfin hyfin, h, Nat.mul_right_comm, oneUnits, roundFine_mul_two_pow]

/-- A factor of at most one makes a product of at most the other. -/
theorem units_mul_le_right (h : units x ≤ oneUnits) : units (x * y) ≤ units y := by
  calc units (x * y) = roundFine 1074 (units x * units y) := units_mul hx hy hxfin hyfin
    _ ≤ roundFine 1074 (units y * 2 ^ 1074) := by
        rw [Nat.mul_comm (units y)]
        exact roundFine_mono 1074 (Nat.mul_le_mul_right _ h)
    _ = units y := by rw [roundFine_mul_two_pow, round_units]

end

/-- The product grows with each factor. -/
theorem units_mul_le_mul_right {x x' y : Float} (hx : 0 ≤ x) (hx' : 0 ≤ x') (hy : 0 ≤ y)
    (hxfin : x.isFinite = true) (hx'fin : x'.isFinite = true) (hyfin : y.isFinite = true)
    (h : units x ≤ units x') : units (x * y) ≤ units (x' * y) := by
  rw [units_mul hx hy hxfin hyfin, units_mul hx' hy hx'fin hyfin]
  exact roundFine_mono 1074 (Nat.mul_le_mul_right _ h)

end FuzzPolicy.Binary64
