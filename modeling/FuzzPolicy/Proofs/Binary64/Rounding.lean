import Mathlib

/-!
# Rounding to 53 places

Every float that is not negative is a whole number of *units*, the unit being 2⁻¹⁰⁷⁴, the least
positive float. So the sum of two floats is a whole number of units again, and what the float sum
adds to it is rounding: the number keeps its 53 highest places, a tie goes to the even neighbour, and
what is too great becomes infinity. Infinity counts as `overflow`, the first power of two that no
finite float reaches. That makes rounding a monotone function on `Nat`, which is all that the theory of
weights needs: `round_mono` and `round_eq_self`.

A product is not a whole number of units, but of finer ones. So it is finer units that are rounded,
`roundFine`, and `round` is the case in which they are the units.
-/

namespace FuzzPolicy.Binary64

/-- `n / d`, rounded to the nearest whole number. A tie goes to the even one. -/
def halfEven (n d : Nat) : Nat :=
  if 2 * (n % d) < d then n / d
  else if 2 * (n % d) = d then n / d + n / d % 2
  else n / d + 1

/-- The number of places of `n` that do not fit into a float. -/
def dropped (n : Nat) : Nat := n.log2 - 52

/-- The number of places of the greatest finite float, in units. -/
def places : Nat := 2098

/-- Infinity, in units. -/
def overflow : Nat := 2 ^ places

/-- A number of units, rounded to that of a float. -/
def round (n : Nat) : Nat :=
  min (halfEven n (2 ^ dropped n) * 2 ^ dropped n) overflow

/-- The number of places of `n` that are lost if it is given in units of 2⁻ᵏ units: those that do not fit,
and all that a float does not have. -/
def lost (k n : Nat) : Nat := max k (dropped n)

/-- A number of units of 2⁻ᵏ units, rounded to the units of a float. -/
def roundFine (k n : Nat) : Nat :=
  min (halfEven n (2 ^ lost k n) * 2 ^ (lost k n - k)) overflow

theorem lost_zero (n : Nat) : lost 0 n = dropped n :=
  Nat.zero_max _

theorem roundFine_zero (n : Nat) : roundFine 0 n = round n := by
  unfold roundFine round
  rw [lost_zero, Nat.sub_zero]

/-! ### The rounded quotient -/

theorem div_le_halfEven (n d : Nat) : n / d ≤ halfEven n d := by
  unfold halfEven
  split <;> [skip; split] <;> omega

theorem halfEven_le_div_add_one (n d : Nat) : halfEven n d ≤ n / d + 1 := by
  unfold halfEven
  split <;> [skip; split] <;> omega

theorem halfEven_of_dvd {n d : Nat} (hd : 0 < d) (h : d ∣ n) : halfEven n d = n / d := by
  unfold halfEven
  rw [Nat.mod_eq_zero_of_dvd h, if_pos (by omega)]

theorem halfEven_mono {m n : Nat} (d : Nat) (h : m ≤ n) : halfEven m d ≤ halfEven n d := by
  have hq : m / d ≤ n / d := Nat.div_le_div_right h
  rcases Nat.lt_or_eq_of_le hq with hlt | heq
  · calc halfEven m d ≤ m / d + 1 := halfEven_le_div_add_one m d
      _ ≤ n / d := hlt
      _ ≤ halfEven n d := div_le_halfEven n d
  · -- The quotients are the same, so the remainders are in the order of the numbers.
    have hr : m % d ≤ n % d := by
      have hm := Nat.div_add_mod m d
      have hn := Nat.div_add_mod n d
      rw [heq] at hm
      omega
    unfold halfEven
    rw [heq]
    split <;> split <;> (try split) <;> (try split) <;> omega

/-- The quotient of two numbers does not depend on the unit in which both are given. -/
theorem halfEven_mul_mul (n d : Nat) {c : Nat} (hc : 0 < c) :
    halfEven (n * c) (d * c) = halfEven n d := by
  have hmod : 2 * (n * c % (d * c)) = 2 * (n % d) * c := by
    rw [Nat.mul_mod_mul_right, Nat.mul_assoc]
  unfold halfEven
  simp only [Nat.mul_div_mul_right n d hc, hmod, Nat.mul_right_cancel_iff hc,
    Nat.mul_lt_mul_right hc]

/-! ### The places that are kept -/

theorem log2_mul_two_pow {m : Nat} (hm : 0 < m) (k : Nat) : (m * 2 ^ k).log2 = m.log2 + k := by
  induction k with
  | zero => rw [Nat.pow_zero, Nat.mul_one, Nat.add_zero]
  | succ k ih =>
      have hpos : 0 < m * 2 ^ k := Nat.mul_pos hm (Nat.two_pow_pos k)
      rw [Nat.pow_succ, ← Nat.mul_assoc, Nat.mul_comm _ 2, Nat.log2_two_mul (by omega), ih,
        Nat.add_assoc]

theorem lt_two_pow_dropped (n : Nat) : n < 2 ^ 53 * 2 ^ dropped n := by
  rw [← Nat.pow_add]
  exact Nat.lt_of_lt_of_le Nat.lt_log2_self (Nat.pow_le_pow_right (by omega) (by
    unfold dropped
    omega))

theorem two_pow_dropped_le {n : Nat} (h : 0 < dropped n) : 2 ^ 52 * 2 ^ dropped n ≤ n := by
  unfold dropped at h ⊢
  rw [← Nat.pow_add, show 52 + (n.log2 - 52) = n.log2 by omega]
  refine Nat.log2_self_le ?_
  rintro rfl
  simp at h

theorem dropped_mono {m n : Nat} (h : m ≤ n) : dropped m ≤ dropped n := by
  have hlog : m.log2 ≤ n.log2 := by
    rcases Nat.eq_zero_or_pos m with rfl | hm
    · simp
    · exact (Nat.le_log2 (by omega)).mpr (Nat.le_trans (Nat.log2_self_le (by omega)) h)
  unfold dropped
  omega

theorem dropped_eq_zero {n : Nat} (h : n < 2 ^ 53) : dropped n = 0 := by
  by_contra hpos
  have hle := two_pow_dropped_le (Nat.pos_of_ne_zero hpos)
  have htwo : 2 ^ 1 ≤ 2 ^ dropped n := Nat.pow_le_pow_right (by omega) (by omega)
  omega

theorem lost_mono (k : Nat) {m n : Nat} (h : m ≤ n) : lost k m ≤ lost k n :=
  max_le_max_left k (dropped_mono h)

theorem lt_two_pow_lost (k n : Nat) : n < 2 ^ 53 * 2 ^ lost k n :=
  Nat.lt_of_lt_of_le (lt_two_pow_dropped n)
    (Nat.mul_le_mul_left _ (Nat.pow_le_pow_right (by omega) (Nat.le_max_right _ _)))

theorem two_pow_lost_le {k n : Nat} (h : k < lost k n) : 2 ^ 52 * 2 ^ lost k n ≤ n := by
  unfold lost at h ⊢
  rw [show max k (dropped n) = dropped n by omega]
  exact two_pow_dropped_le (by omega)

/-- Rounding may carry into a 54th place, and only into that. -/
theorem halfEven_le_significand (k n : Nat) : halfEven n (2 ^ lost k n) ≤ 2 ^ 53 := by
  have hq : n / 2 ^ lost k n < 2 ^ 53 :=
    (Nat.div_lt_iff_lt_mul (Nat.two_pow_pos _)).mpr (lt_two_pow_lost k n)
  have hle := halfEven_le_div_add_one n (2 ^ lost k n)
  omega

theorem significand_le_halfEven {k n : Nat} (h : k < lost k n) :
    2 ^ 52 ≤ halfEven n (2 ^ lost k n) :=
  Nat.le_trans ((Nat.le_div_iff_mul_le (Nat.two_pow_pos _)).mpr (two_pow_lost_le h))
    (div_le_halfEven n _)

/-! ### Rounding -/

theorem round_le_overflow (n : Nat) : round n ≤ overflow :=
  Nat.min_le_right _ _

/-- **Rounding is monotone.** Where two numbers lose equally many places, the quotient is monotone;
where the greater loses more, a power of two that both keep lies between the results. -/
theorem roundFine_mono (k : Nat) {m n : Nat} (h : m ≤ n) : roundFine k m ≤ roundFine k n := by
  suffices hs : halfEven m (2 ^ lost k m) * 2 ^ (lost k m - k) ≤
      halfEven n (2 ^ lost k n) * 2 ^ (lost k n - k) by
    unfold roundFine
    omega
  have hk : k ≤ lost k m := Nat.le_max_left _ _
  rcases Nat.lt_or_eq_of_le (lost_mono k h) with hlt | heq
  · calc halfEven m (2 ^ lost k m) * 2 ^ (lost k m - k)
        ≤ 2 ^ 53 * 2 ^ (lost k m - k) := Nat.mul_le_mul_right _ (halfEven_le_significand k m)
      _ = 2 ^ 52 * 2 ^ (lost k m - k + 1) := by rw [Nat.pow_succ]; ring
      _ ≤ 2 ^ 52 * 2 ^ (lost k n - k) :=
          Nat.mul_le_mul_left _ (Nat.pow_le_pow_right (by omega) (by omega))
      _ ≤ halfEven n (2 ^ lost k n) * 2 ^ (lost k n - k) :=
          Nat.mul_le_mul_right _ (significand_le_halfEven (by omega))
  · rw [heq]
    exact Nat.mul_le_mul_right _ (halfEven_mono _ h)

theorem round_mono {m n : Nat} (h : m ≤ n) : round m ≤ round n := by
  rw [← roundFine_zero, ← roundFine_zero]
  exact roundFine_mono 0 h

/-- What fits into a float is not changed. -/
theorem round_eq_self {n : Nat} (hfit : 2 ^ dropped n ∣ n) (hle : n ≤ overflow) : round n = n := by
  unfold round
  rw [halfEven_of_dvd (Nat.two_pow_pos _) hfit, Nat.div_mul_cancel hfit]
  exact Nat.min_eq_left hle

@[simp] theorem round_zero : round 0 = 0 := by
  exact round_eq_self (Nat.dvd_zero _) (Nat.zero_le _)

@[simp] theorem round_overflow : round overflow = overflow := by
  refine round_eq_self ?_ (Nat.le_refl _)
  unfold dropped overflow
  rw [Nat.log2_two_pow]
  exact Nat.pow_dvd_pow 2 (by omega)

@[simp] theorem roundFine_of_zero (k : Nat) : roundFine k 0 = 0 := by
  unfold roundFine
  rw [halfEven_of_dvd (Nat.two_pow_pos _) (Nat.dvd_zero _), Nat.zero_div, Nat.zero_mul, Nat.zero_min]

/-- Whole units are rounded as such. -/
theorem roundFine_mul_two_pow (k n : Nat) : roundFine k (n * 2 ^ k) = round n := by
  rcases Nat.eq_zero_or_pos n with rfl | hn
  · rw [Nat.zero_mul, roundFine_of_zero, round_zero]
  have hlog : (n * 2 ^ k).log2 = n.log2 + k := log2_mul_two_pow hn k
  have hlost : lost k (n * 2 ^ k) = dropped n + k := by
    unfold lost dropped
    omega
  unfold roundFine round
  rw [hlost, Nat.add_sub_cancel, Nat.pow_add, halfEven_mul_mul n _ (Nat.two_pow_pos k)]

theorem round_of_overflow_le {n : Nat} (h : overflow ≤ n) : round n = overflow := by
  have hmono := round_mono h
  rw [round_overflow] at hmono
  exact Nat.le_antisymm (round_le_overflow n) hmono

end FuzzPolicy.Binary64
