import FuzzPolicy.Proofs.Binary64.Sum

/-!
# The whole part of a float

A float that is not negative is made an integer by leaving its places after the point out. In units that is
the quotient by those of one: `toNat_toUInt64`, as long as the quotient has 64 bits. What is beyond would
be cut to the greatest integer.
-/

namespace FuzzPolicy.Binary64

open Float.Model Float.Model.UnpackedFloat

theorem roundToInt_eq_div {m : Nat} {e : Int} (hlo : -1074 ≤ e) :
    roundToInt .positive m e = ((m * 2 ^ (e + 1074).toNat / oneUnits : Nat) : Int) := by
  have hshift : roundToInt .positive m e =
      ((m * 2 ^ (e - 0).toNat / 2 ^ (0 - (e - ((e - 0).toNat : Int))).toNat : Nat) : Int) := by
    unfold roundToInt decreaseExponent shiftToExponent
    dsimp only
    rw [exact_shiftRight, Nat.shiftLeft_eq]
    rfl
  -- Either the shift to the left or the one to the right does nothing, and `c` is what both miss.
  obtain ⟨c, hc⟩ : ∃ c, c + (0 - (e - ((e - 0).toNat : Int))).toNat = 1074 :=
    ⟨_, Nat.sub_add_cancel (by omega)⟩
  have hleft : m * 2 ^ (e + 1074).toNat = m * 2 ^ (e - 0).toNat * 2 ^ c := by
    rw [Nat.mul_assoc, ← Nat.pow_add]
    congr 2
    omega
  rw [hshift, hleft, oneUnits, ← hc, Nat.add_comm c, Nat.pow_add,
    Nat.mul_div_mul_right _ _ (Nat.two_pow_pos c)]

/-- **A float is made an integer by leaving out what is less than one.** -/
theorem toNat_toUInt64 {x : Float} (hx : 0 ≤ x) (h : units x < 2 ^ 64 * oneUnits) :
    x.toUInt64.toNat = units x / oneUnits := by
  have hquot : units x / oneUnits < 2 ^ 64 := by
    rw [Nat.mul_comm] at h
    exact Nat.div_lt_of_lt_mul h
  have htoInt : x.toModel.unpack.toInt 0 (UInt64.size - 1) = ((units x / oneUnits : Nat) : Int) := by
    have hcan := canonical_unpack x.toModel
    have hpos := nonNegative_iff.mp hx
    rw [units] at h ⊢
    generalize x.toModel.unpack = u at hcan hpos h
    cases hpos with
    | infinity =>
        have hle : 2 ^ 64 * oneUnits ≤ overflow := by
          unfold oneUnits overflow places
          rw [← pow_add]
          exact pow_le_pow_right₀ one_le_two (by omega)
        exact absurd h (Nat.not_lt.mpr hle)
    | zero s => rw [unpackedUnits, Nat.zero_div]; rfl
    | finite hm =>
        cases hcan with
        | finite _ _ _ hlo _ _ => exact roundToInt_eq_div hlo
  have hmodel : x.toUInt64 =
      UInt64.ofNatClamp (x.toModel.unpack.toInt 0 (UInt64.size - 1)).toNat := rfl
  rw [hmodel, htoInt, Int.toNat_natCast, UInt64.toNat_ofNatClamp_of_lt hquot]

end FuzzPolicy.Binary64
