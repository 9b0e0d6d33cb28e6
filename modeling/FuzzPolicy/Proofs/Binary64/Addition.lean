import FuzzPolicy.Proofs.Binary64.Shifting

/-!
# The float sum

The sum of two floats that are not negative is their sum in units, rounded: `units_add`. So it is not
negative either, it is at least each of the two, and it grows with each of them.
-/

namespace FuzzPolicy.Binary64

open Float.Model Float.Model.UnpackedFloat

theorem round_unpackedUnits {u : UnpackedFloat} (h : Canonical u) :
    round (unpackedUnits u) = unpackedUnits u := by
  cases h with
  | infinity s => exact round_overflow
  | notANumber => exact round_zero
  | zero s => exact round_zero
  | @finite s m e hm hlt hlo hhi hfull =>
      refine round_eq_self ?_
        (Nat.le_of_lt (unpackedUnits_lt_overflow (.finite s hm hlt hlo hhi hfull)))
      change 2 ^ dropped (m * 2 ^ (e + 1074).toNat) ∣ m * 2 ^ (e + 1074).toNat
      rcases hfull with hfull | rfl
      · have hlog : m.log2 = 52 := (Nat.log2_eq_iff (by omega)).mpr ⟨hfull, hlt⟩
        have hdrop : dropped (m * 2 ^ (e + 1074).toNat) = (e + 1074).toNat := by
          rw [dropped, log2_mul_two_pow hm, hlog, Nat.add_sub_cancel_left]
        rw [hdrop]
        exact Nat.dvd_mul_left _ _
      · have hdrop : dropped (m * 2 ^ (-1074 + 1074 : Int).toNat) = 0 :=
          dropped_eq_zero (by simpa using hlt)
        rw [hdrop]
        exact Nat.one_dvd _

/-- Two positive floats are added at the lesser of their exponents. -/
theorem add_finite {m m' : Nat} {e e' : Int} (hm : 0 < m) (hm' : 0 < m') (he : -1074 ≤ e)
    (he' : -1074 ≤ e') :
    NonNegative (Float.Model.pack (UnpackedFloat.add Format.binary64 (.finite .positive m e hm)
        (.finite .positive m' e' hm'))).unpack ∧
      unpackedUnits (Float.Model.pack (UnpackedFloat.add Format.binary64
          (.finite .positive m e hm) (.finite .positive m' e' hm'))).unpack =
        round (m * 2 ^ (e + 1074).toNat + m' * 2 ^ (e' + 1074).toNat) := by
  have hle : -1074 ≤ min e e' := by omega
  have hpos : 0 < m * 2 ^ (e - min e e').toNat + m' * 2 ^ (e' - min e e').toNat :=
    Nat.add_pos_left (Nat.mul_pos hm (Nat.two_pow_pos _)) _
  have hvalue : (m * 2 ^ (e - min e e').toNat + m' * 2 ^ (e' - min e e').toNat) *
      2 ^ (min e e' + 1074).toNat = m * 2 ^ (e + 1074).toNat + m' * 2 ^ (e' + 1074).toNat := by
    rw [Nat.add_mul, Nat.mul_assoc, ← Nat.pow_add, Nat.mul_assoc, ← Nat.pow_add]
    congr 3 <;> omega
  have hsum : UnpackedFloat.add Format.binary64 (.finite .positive m e hm)
      (.finite .positive m' e' hm') = UnpackedFloat.round Format.binary64 .positive
        (m * 2 ^ (e - min e e').toNat + m' * 2 ^ (e' - min e e').toNat) (min e e') := by
    simp only [UnpackedFloat.add, decreaseExponent, Nat.shiftLeft_eq, Sign.apply,
      UnpackedFloat.normalize]
    rw [← Int.natCast_add, Int.compare_eq_gt.mpr (by omega)]
    rfl
  rw [hsum, ← hvalue]
  exact pack_round hpos hle

theorem add_unpacked {a b : UnpackedFloat} (ha : Canonical a) (hb : Canonical b)
    (ha0 : NonNegative a) (hb0 : NonNegative b) :
    NonNegative (Float.Model.pack (UnpackedFloat.add Format.binary64 a b)).unpack ∧
      unpackedUnits (Float.Model.pack (UnpackedFloat.add Format.binary64 a b)).unpack =
        round (unpackedUnits a + unpackedUnits b) := by
  have hinf : ∀ n, overflow ≤ n →
      NonNegative (Float.Model.pack (.infinity .positive)).unpack ∧
        unpackedUnits (Float.Model.pack (.infinity .positive)).unpack = round n := by
    intro n hn
    rw [unpack_pack_infinity, round_of_overflow_le hn]
    exact ⟨.infinity, rfl⟩
  cases ha0 with
  | infinity =>
      have hle : overflow ≤ unpackedUnits (.infinity .positive) + unpackedUnits b :=
        Nat.le_add_right _ _
      cases hb0 with
      | infinity => exact hinf _ hle
      | zero s => exact hinf _ hle
      | finite hm => exact hinf _ hle
  | zero s =>
      cases hb0 with
      | infinity => exact hinf _ (Nat.le_add_left _ _)
      | zero s' =>
          have hzero : ∃ s'', UnpackedFloat.add Format.binary64 (.zero s) (.zero s') = .zero s'' := by
            cases s <;> cases s' <;> exact ⟨_, rfl⟩
          obtain ⟨s'', hzero⟩ := hzero
          rw [hzero, unpack_pack_zero]
          exact ⟨.zero s'', round_zero.symm⟩
      | @finite m e hm =>
          have hself : UnpackedFloat.add Format.binary64 (.zero s) (.finite .positive m e hm) =
              .finite .positive m e hm := rfl
          rw [hself, unpack_pack hb, show unpackedUnits (.zero s) = 0 from rfl, Nat.zero_add,
            round_unpackedUnits hb]
          exact ⟨.finite hm, rfl⟩
  | @finite m e hm =>
      cases hb0 with
      | infinity => exact hinf _ (Nat.le_add_left _ _)
      | zero s =>
          have hself : UnpackedFloat.add Format.binary64 (.finite .positive m e hm) (.zero s) =
              .finite .positive m e hm := rfl
          rw [hself, unpack_pack ha, show unpackedUnits (.zero s) = 0 from rfl, Nat.add_zero,
            round_unpackedUnits ha]
          exact ⟨.finite hm, rfl⟩
      | finite hm' =>
          cases ha with
          | finite _ _ _ hlo _ _ =>
            cases hb with
            | finite _ _ _ hlo' _ _ => exact add_finite hm hm' hlo hlo'

theorem add_unpack {x y : Float} (hx : 0 ≤ x) (hy : 0 ≤ y) :
    NonNegative (x + y).toModel.unpack ∧ units (x + y) = round (units x + units y) :=
  add_unpacked (canonical_unpack _) (canonical_unpack _) (nonNegative_iff.mp hx)
    (nonNegative_iff.mp hy)

theorem add_nonneg {x y : Float} (hx : 0 ≤ x) (hy : 0 ≤ y) : 0 ≤ x + y :=
  nonNegative_iff.mpr (add_unpack hx hy).1

/-- **The float sum is the sum in units, rounded.** -/
theorem units_add {x y : Float} (hx : 0 ≤ x) (hy : 0 ≤ y) :
    units (x + y) = round (units x + units y) :=
  (add_unpack hx hy).2

/-- A float has a number of units that rounding leaves alone. -/
theorem round_units {x : Float} : round (units x) = units x :=
  round_unpackedUnits (canonical_unpack _)

theorem units_le_add_left {x y : Float} (hx : 0 ≤ x) (hy : 0 ≤ y) : units x ≤ units (x + y) := by
  calc units x = round (units x) := round_units.symm
    _ ≤ round (units x + units y) := round_mono (Nat.le_add_right _ _)
    _ = units (x + y) := (units_add hx hy).symm

theorem units_le_add_right {x y : Float} (hx : 0 ≤ x) (hy : 0 ≤ y) : units y ≤ units (x + y) := by
  calc units y = round (units y) := round_units.symm
    _ ≤ round (units x + units y) := round_mono (Nat.le_add_left _ _)
    _ = units (x + y) := (units_add hx hy).symm

theorem units_add_le_add {x x' y y' : Float} (hx : 0 ≤ x) (hy : 0 ≤ y) (hx' : 0 ≤ x')
    (hy' : 0 ≤ y') (h : units x ≤ units x') (h' : units y ≤ units y') :
    units (x + y) ≤ units (x' + y') := by
  rw [units_add hx hy, units_add hx' hy']
  exact round_mono (Nat.add_le_add h h')

end FuzzPolicy.Binary64
