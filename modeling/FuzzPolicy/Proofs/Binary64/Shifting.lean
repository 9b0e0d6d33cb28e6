import FuzzPolicy.Proofs.Binary64.Units

/-!
# How the model of floats rounds

The model rounds a significand by shifting it to the right until it fits, and once more if rounding has
made it too wide. This module shows that all of that is `round`: `pack_round` says that a positive
number, rounded and packed by the model, is `round` of its units.
-/

namespace FuzzPolicy.Binary64

open Float.Model Float.Model.UnpackedFloat

/-! ### Shifting

The model rounds by shifting a significand to the right, place by place. Of the places that have left
it keeps the last one and whether any before that was a one, which is just enough to see on which side
of one half the lost part is. -/

/-- A significand, shifted to the right by some places. -/
def shifted (m k : Nat) : ExtendedMantissa where
  mantissa := m / 2 ^ k
  roundBit := 2 ^ k ≤ 2 * (m % 2 ^ k)
  stickyBit := 2 * (m % 2 ^ k) % 2 ^ k ≠ 0

theorem shiftRightOne_shifted (m k : Nat) : (shifted m k).shiftRightOne = shifted m (k + 1) := by
  have hpos : 0 < 2 ^ k := Nat.two_pow_pos k
  have hlt : m % 2 ^ k < 2 ^ k := Nat.mod_lt _ hpos
  have hbit : m / 2 ^ k % 2 = 0 ∨ m / 2 ^ k % 2 = 1 := by omega
  have hmod : m % 2 ^ (k + 1) = m % 2 ^ k + 2 ^ k * (m / 2 ^ k % 2) := by
    rw [Nat.pow_succ, Nat.mod_mul]
  have hround : ((m / 2 ^ k) % 2 != 0) = decide (2 ^ (k + 1) ≤ 2 * (m % 2 ^ (k + 1))) := by
    rw [hmod, Nat.pow_succ]
    rcases hbit with hb | hb <;> rw [hb] <;> simp <;> omega
  have hsticky : (decide (2 ^ k ≤ 2 * (m % 2 ^ k)) || decide (2 * (m % 2 ^ k) % 2 ^ k ≠ 0)) =
      decide (2 * (m % 2 ^ (k + 1)) % 2 ^ (k + 1) ≠ 0) := by
    have htwice : 2 * (m % 2 ^ (k + 1)) % 2 ^ (k + 1) = 2 * (m % 2 ^ k) := by
      have hsmall : 2 * (m % 2 ^ k) < 2 ^ (k + 1) := by
        rw [Nat.pow_succ]
        omega
      rw [hmod, Nat.mul_add, ← Nat.mul_assoc, Nat.mul_comm 2 (2 ^ k), ← Nat.pow_succ,
        Nat.add_mul_mod_self_left]
      exact Nat.mod_eq_of_lt hsmall
    rw [htwice, ← Bool.decide_or, decide_eq_decide]
    constructor
    · rintro (h | h)
      · omega
      · intro hzero
        rw [hzero] at h
        simp at h
    · intro h
      by_cases hle : 2 ^ k ≤ 2 * (m % 2 ^ k)
      · exact Or.inl hle
      · rw [Nat.mod_eq_of_lt (by omega : 2 * (m % 2 ^ k) < 2 ^ k)]
        exact Or.inr h
  unfold shifted ExtendedMantissa.shiftRightOne
  rw [Nat.div_div_eq_div_mul, ← Nat.pow_succ, hround, hsticky]

theorem exact_shiftRight (m k : Nat) :
    ExtendedMantissa.ofMantissaAndAccuracy m .exact >>> k = shifted m k := by
  induction k with
  | zero => simp [shifted, HShiftRight.hShiftRight, Nat.repeat,
      ExtendedMantissa.ofMantissaAndAccuracy, Nat.mod_one]
  | succ k ih =>
      rw [← shiftRightOne_shifted, ← ih]
      rfl

theorem roundedMantissa_shifted (m k : Nat) :
    (shifted m k).roundedMantissa = halfEven m (2 ^ k) := by
  have hlt : m % 2 ^ k < 2 ^ k := Nat.mod_lt _ (Nat.two_pow_pos k)
  unfold shifted halfEven ExtendedMantissa.roundedMantissa
  by_cases hbelow : 2 * (m % 2 ^ k) < 2 ^ k
  · rw [if_pos hbelow, decide_eq_false (by omega : ¬ 2 ^ k ≤ 2 * (m % 2 ^ k))]
    by_cases hsticky : 2 * (m % 2 ^ k) % 2 ^ k ≠ 0
    · rw [decide_eq_true hsticky]
      rfl
    · rw [decide_eq_false hsticky]
      rfl
  · rw [if_neg hbelow, decide_eq_true (by omega : 2 ^ k ≤ 2 * (m % 2 ^ k))]
    have hrest : 2 * (m % 2 ^ k) % 2 ^ k = 2 * (m % 2 ^ k) - 2 ^ k := by
      rw [Nat.mod_eq_sub_mod (by omega)]
      exact Nat.mod_eq_of_lt (by omega)
    by_cases htie : 2 * (m % 2 ^ k) = 2 ^ k
    · rw [if_pos htie, decide_eq_false (by omega)]
      rfl
    · rw [if_neg htie, decide_eq_true (by omega)]
      rfl

/-! ### Rounding a positive number -/

theorem target_eq (total : Int) :
    Format.binary64.targetExponent total = max (total - 53) (-1074) := rfl

/-- The exponent to which a number is shifted drops the places that are lost. -/
theorem target_eq_lost {m k : Nat} {e : Int} (hm : 0 < m) (he : -1074 - k ≤ e) :
    Format.binary64.targetExponent (totalExponent m e) =
      lost k (m * 2 ^ (e + 1074 + k).toNat) - k - 1074 := by
  have hlog : (m * 2 ^ (e + 1074 + k).toNat).log2 = m.log2 + (e + 1074 + k).toNat :=
    log2_mul_two_pow hm _
  rw [target_eq, totalExponent, lost, dropped, hlog]
  omega

theorem target_eq_dropped {m : Nat} {e : Int} (hm : 0 < m) (he : -1074 ≤ e) :
    Format.binary64.targetExponent (totalExponent m e) =
      dropped (m * 2 ^ (e + 1074).toNat) - 1074 := by
  have htarget := target_eq_lost hm (e := e) (k := 0) (by omega)
  rwa [Int.natCast_zero, Int.add_zero, lost_zero, Int.sub_zero] at htarget

/-- Packing a positive number whose significand is as wide as its exponent demands. -/
theorem pack_positive {m k : Nat} (hm : 0 < m) (hlt : m < 2 ^ 53) (hfull : 2 ^ 52 ≤ m ∨ k = 0) :
    NonNegative (Float.Model.pack (.finite .positive m ((k : Int) - 1074) hm)).unpack ∧
      unpackedUnits (Float.Model.pack (.finite .positive m ((k : Int) - 1074) hm)).unpack =
        min (m * 2 ^ k) overflow := by
  by_cases hk : k ≤ 2045
  · have hcan : Canonical (.finite .positive m ((k : Int) - 1074) hm) :=
      .finite _ hm hlt (by omega) (by omega) (hfull.imp_right (by omega))
    have hunits : unpackedUnits (.finite .positive m ((k : Int) - 1074) hm) = m * 2 ^ k := by
      change m * 2 ^ ((k : Int) - 1074 + 1074).toNat = _
      rw [show ((k : Int) - 1074 + 1074).toNat = k by omega]
    rw [unpack_pack hcan, ← hunits]
    exact ⟨.finite hm, (Nat.min_eq_left (Nat.le_of_lt (unpackedUnits_lt_overflow hcan))).symm⟩
  · have hbig : overflow ≤ m * 2 ^ k :=
      calc overflow ≤ 2 ^ (52 + k) := Nat.pow_le_pow_right (by omega) (by
            unfold places
            omega)
        _ = 2 ^ 52 * 2 ^ k := Nat.pow_add 2 52 k
        _ ≤ m * 2 ^ k := Nat.mul_le_mul_right _ (hfull.resolve_right (by omega))
    rw [unpack_pack_of_lt .positive hm (by omega)]
    exact ⟨.infinity, (Nat.min_eq_right hbig).symm⟩

theorem shiftToTarget_exact (m : Nat) (e : Int) :
    shiftToTargetExponent Format.binary64 m e .exact =
      (shifted m (Format.binary64.targetExponent (totalExponent m e) - e).toNat,
        e + ((Format.binary64.targetExponent (totalExponent m e) - e).toNat : Int)) := by
  rw [← exact_shiftRight]
  rfl

/-- The second shift, after rounding: it does nothing unless the significand has grown to a 54th
place. -/
theorem shiftToTarget_of_lt {r : Nat} {e : Int} (hr : r < 2 ^ 53) (he : -1074 ≤ e) :
    shiftToTargetExponent Format.binary64 r e .exact = (shifted r 0, e) := by
  have hlog : r.log2 < 53 := by
    rcases Nat.eq_zero_or_pos r with rfl | hpos
    · decide
    · exact (Nat.log2_lt (by omega)).mpr hr
  have hshift : (Format.binary64.targetExponent (totalExponent r e) - e).toNat = 0 := by
    rw [target_eq, totalExponent]
    omega
  rw [shiftToTarget_exact, hshift, Int.natCast_zero, Int.add_zero]

theorem shiftToTarget_carry {e : Int} (he : -1074 ≤ e) :
    shiftToTargetExponent Format.binary64 (2 ^ 53) e .exact = (shifted (2 ^ 53) 1, e + 1) := by
  have hshift : (Format.binary64.targetExponent (totalExponent (2 ^ 53) e) - e).toNat = 1 := by
    rw [target_eq, totalExponent, Nat.log2_two_pow]
    omega
  rw [shiftToTarget_exact, hshift]
  rfl

/-- Rounding a number that has been shifted as far to the left as it must. Its exponent may be less than
that of any float, so that what is left can be nothing. -/
theorem pack_roundWithAccuracy {m k : Nat} {e : Int} (hm : 0 < m) (he : -1074 - k ≤ e)
    (hle : e ≤ Format.binary64.targetExponent (totalExponent m e)) :
    NonNegative (Float.Model.pack (roundWithAccuracy Format.binary64 .positive m e .exact)).unpack ∧
      unpackedUnits
          (Float.Model.pack (roundWithAccuracy Format.binary64 .positive m e .exact)).unpack =
        roundFine k (m * 2 ^ (e + 1074 + k).toNat) := by
  generalize hn : m * 2 ^ (e + 1074 + k).toNat = n
  have htarget := target_eq_lost hm he
  rw [hn] at htarget
  have hk : k ≤ lost k n := Nat.le_max_left _ _
  -- The places that are lost of whole units.
  obtain ⟨d, hd⟩ := Nat.exists_eq_add_of_le hk
  have hexponent : Format.binary64.targetExponent (totalExponent m e) = (d : Int) - 1074 := by
    rw [htarget, hd]
    omega
  rw [hexponent] at hle
  have hfirst : shiftToTargetExponent Format.binary64 m e .exact =
      (shifted m ((d : Int) - 1074 - e).toNat, (d : Int) - 1074) := by
    rw [shiftToTarget_exact, hexponent]
    congr 1
    omega
  have hround : (shifted m ((d : Int) - 1074 - e).toNat).roundedMantissa =
      halfEven n (2 ^ lost k n) := by
    rw [roundedMantissa_shifted, ← hn,
      ← halfEven_mul_mul m _ (Nat.two_pow_pos (e + 1074 + k).toNat), ← Nat.pow_add, hn, hd]
    congr 2
    omega
  have hfull : 2 ^ 52 ≤ halfEven n (2 ^ lost k n) ∨ d = 0 := by
    rcases Nat.eq_zero_or_pos d with hzero | hpos
    · exact Or.inr hzero
    · exact Or.inl (significand_le_halfEven (by omega))
  have hresult : roundFine k n = min (halfEven n (2 ^ lost k n) * 2 ^ d) overflow := by
    rw [roundFine, hd, Nat.add_sub_cancel_left]
  unfold roundWithAccuracy
  rw [hfirst]
  dsimp only
  rw [hround, hresult]
  rcases Nat.lt_or_eq_of_le (halfEven_le_significand k n) with hlt | heq
  · rw [shiftToTarget_of_lt hlt (by omega)]
    have hmant : (shifted (halfEven n (2 ^ lost k n)) 0).mantissa = halfEven n (2 ^ lost k n) := by
      unfold shifted
      simp
    simp only [hmant]
    rcases Nat.eq_zero_or_pos (halfEven n (2 ^ lost k n)) with hzero | hpos
    · rw [dif_pos hzero, hzero, Nat.zero_mul, Nat.zero_min, unpack_pack_zero]
      exact ⟨.zero _, rfl⟩
    · rw [dif_neg (by omega)]
      exact pack_positive hpos hlt hfull
  · rw [heq, shiftToTarget_carry (by omega)]
    have hmant : (shifted (2 ^ 53) 1).mantissa = 2 ^ 52 := rfl
    have hcarry : 2 ^ 53 * 2 ^ d = 2 ^ 52 * 2 ^ (d + 1) := by
      rw [Nat.pow_succ 2 d]
      ring
    have hexp : (d : Int) - 1074 + 1 = ((d + 1 : Nat) : Int) - 1074 := by
      push_cast
      ring
    simp only [hmant, hexp]
    rw [hcarry, dif_neg (by decide)]
    exact pack_positive (by decide) (by decide) (Or.inl (Nat.le_refl _))

/-- **The model rounds as `round` does.** -/
theorem pack_round {m : Nat} {e : Int} (hm : 0 < m) (he : -1074 ≤ e) :
    NonNegative (Float.Model.pack (UnpackedFloat.round Format.binary64 .positive m e)).unpack ∧
      unpackedUnits
          (Float.Model.pack (UnpackedFloat.round Format.binary64 .positive m e)).unpack =
        round (m * 2 ^ (e + 1074).toNat) := by
  have htarget := target_eq_dropped hm he
  generalize ht : Format.binary64.targetExponent (totalExponent m e) = t at htarget
  have hlow : -1074 ≤ t := by omega
  unfold UnpackedFloat.round decreaseExponent
  dsimp only
  rw [ht, Nat.shiftLeft_eq]
  -- Shifting to the left changes neither the number nor the exponent to shift to.
  have hvalue : m * 2 ^ (e - t).toNat * 2 ^ (e - ((e - t).toNat : Int) + 1074).toNat =
      m * 2 ^ (e + 1074).toNat := by
    rw [Nat.mul_assoc, ← Nat.pow_add]
    congr 2
    omega
  have hpos : 0 < m * 2 ^ (e - t).toNat := Nat.mul_pos hm (Nat.two_pow_pos _)
  have hsame : Format.binary64.targetExponent
      (totalExponent (m * 2 ^ (e - t).toNat) (e - ((e - t).toNat : Int))) = t := by
    rw [target_eq_dropped hpos (by omega), hvalue, htarget]
  have hrounded := pack_roundWithAccuracy hpos (e := e - (e - t).toNat) (k := 0) (by omega)
    (by rw [hsame]; omega)
  rwa [Int.natCast_zero, Int.add_zero, hvalue, roundFine_zero] at hrounded

end FuzzPolicy.Binary64
