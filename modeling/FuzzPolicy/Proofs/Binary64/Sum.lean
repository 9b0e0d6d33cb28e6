import FuzzPolicy.Proofs.Binary64.Addition
import FuzzPolicy.Table.Basic

/-!
# Sums of floats

Tables are drawn by sums of weights, taken from left to right with rounding at every step. What is
true of such a sum in spite of the rounding: it is not negative if no summand is, it is zero exactly
if all of them are, and it grows with each of them. So it stays finite when summands are made smaller.
Of ones it is even exact, as long as they are fewer than a significand can count.

The folds are followed from any accumulator that is not negative. The accumulator only grows, so a
summand that is positive is never lost again.
-/

namespace FuzzPolicy.Binary64

/-! ### Folds from an accumulator -/

theorem foldl_nonneg {ws : List Float} (h : ∀ w ∈ ws, 0 ≤ w) {a : Float} (ha : 0 ≤ a) :
    0 ≤ ws.foldl (· + ·) a := by
  induction ws generalizing a with
  | nil => exact ha
  | cons w ws ih =>
      rw [List.forall_mem_cons] at h
      exact ih h.2 (add_nonneg ha h.1)

/-- The accumulator only grows. -/
theorem units_le_foldl {ws : List Float} (h : ∀ w ∈ ws, 0 ≤ w) {a : Float} (ha : 0 ≤ a) :
    units a ≤ units (ws.foldl (· + ·) a) := by
  induction ws generalizing a with
  | nil => exact Nat.le_refl _
  | cons w ws ih =>
      rw [List.forall_mem_cons] at h
      calc units a ≤ units (a + w) := units_le_add_left ha h.1
        _ ≤ units (ws.foldl (· + ·) (a + w)) := ih h.2 (add_nonneg ha h.1)

theorem units_le_foldl_of_mem {ws : List Float} (h : ∀ w ∈ ws, 0 ≤ w) {a w : Float} (ha : 0 ≤ a)
    (hw : w ∈ ws) : units w ≤ units (ws.foldl (· + ·) a) := by
  induction ws generalizing a with
  | nil => cases hw
  | cons v ws ih =>
      rw [List.forall_mem_cons] at h
      rcases List.mem_cons.mp hw with rfl | hw
      · calc units w ≤ units (a + w) := units_le_add_right ha h.1
          _ ≤ units (ws.foldl (· + ·) (a + w)) := units_le_foldl h.2 (add_nonneg ha h.1)
      · exact ih h.2 (add_nonneg ha h.1) hw

theorem units_foldl_eq_zero {ws : List Float} (h : ∀ w ∈ ws, 0 ≤ w ∧ units w = 0) {a : Float}
    (ha : 0 ≤ a) (ha0 : units a = 0) : units (ws.foldl (· + ·) a) = 0 := by
  induction ws generalizing a with
  | nil => exact ha0
  | cons w ws ih =>
      rw [List.forall_mem_cons] at h
      obtain ⟨⟨hw, hw0⟩, hws⟩ := h
      -- Both zeros have no units, so the sign of the accumulator is of no concern.
      refine ih hws (add_nonneg ha hw) ?_
      rw [units_add ha hw, ha0, hw0]
      exact round_zero

/-- The sum grows with each summand. -/
theorem units_foldl_le_foldl {β : Type} {xs : List β} {f g : β → Float}
    (hf : ∀ x ∈ xs, 0 ≤ f x) (hg : ∀ x ∈ xs, 0 ≤ g x) (h : ∀ x ∈ xs, units (f x) ≤ units (g x))
    {a b : Float} (ha : 0 ≤ a) (hb : 0 ≤ b) (hab : units a ≤ units b) :
    units ((xs.map f).foldl (· + ·) a) ≤ units ((xs.map g).foldl (· + ·) b) := by
  induction xs generalizing a b with
  | nil => exact hab
  | cons x xs ih =>
      rw [List.forall_mem_cons] at hf hg h
      exact ih hf.2 hg.2 h.2 (add_nonneg ha hf.1) (add_nonneg hb hg.1)
        (units_add_le_add ha hf.1 hb hg.1 hab h.1)

/-- Summands without units may be left out, and others replaced by ones of the same units. -/
theorem units_foldl_filter {β : Type} {xs : List β} {f g : β → Float} {keep : β → Bool}
    (hf : ∀ x ∈ xs, 0 ≤ f x) (hg : ∀ x ∈ xs, 0 ≤ g x)
    (hkept : ∀ x ∈ xs, keep x = true → units (f x) = units (g x))
    (hleft : ∀ x ∈ xs, keep x = false → units (f x) = 0)
    {a b : Float} (ha : 0 ≤ a) (hb : 0 ≤ b) (hab : units a = units b) :
    units ((xs.map f).foldl (· + ·) a) = units (((xs.filter keep).map g).foldl (· + ·) b) := by
  induction xs generalizing a b with
  | nil => exact hab
  | cons x xs ih =>
      rw [List.forall_mem_cons] at hf hg hkept hleft
      cases hx : keep x with
      | false =>
          -- Rounding leaves the units of the accumulator alone, so adding a zero changes nothing.
          have hax : units (a + f x) = units b := by
            rw [units_add ha hf.1, hleft.1 hx, Nat.add_zero, round_units, hab]
          rw [List.filter_cons_of_neg (by simp [hx])]
          exact ih hf.2 hg.2 hkept.2 hleft.2 (add_nonneg ha hf.1) hb hax
      | true =>
          have hax : units (a + f x) = units (b + g x) := by
            rw [units_add ha hf.1, units_add hb hg.1, hab, hkept.1 hx]
          rw [List.filter_cons_of_pos hx]
          exact ih hf.2 hg.2 hkept.2 hleft.2 (add_nonneg ha hf.1) (add_nonneg hb hg.1) hax

/-! ### Sums -/

/-- The sum starts from the negative zero, which is not less than zero. -/
theorem zero_le_neg_zero : (0 : Float) ≤ -0.0 :=
  nonNegative_iff.mpr (.zero .negative)

theorem units_neg_zero : units (-0.0) = 0 := rfl

theorem neg_zero_le_zero : (-0.0 : Float) ≤ 0 :=
  (le_zero_iff zero_le_neg_zero).mpr units_neg_zero

theorem sumFloats_nonneg {ws : List Float} (h : ∀ w ∈ ws, 0 ≤ w) : 0 ≤ sumFloats ws :=
  foldl_nonneg h zero_le_neg_zero

/-- **A sum is positive exactly if one of the summands is.** -/
theorem sumFloats_le_zero_iff {ws : List Float} (h : ∀ w ∈ ws, 0 ≤ w) :
    sumFloats ws ≤ 0 ↔ ∀ w ∈ ws, w ≤ 0 := by
  rw [le_zero_iff (sumFloats_nonneg h)]
  constructor
  · intro hsum w hw
    rw [le_zero_iff (h w hw)]
    have hle : units w ≤ units (sumFloats ws) := units_le_foldl_of_mem h zero_le_neg_zero hw
    omega
  · intro hzero
    exact units_foldl_eq_zero (fun w hw => ⟨h w hw, (le_zero_iff (h w hw)).mp (hzero w hw)⟩)
      zero_le_neg_zero units_neg_zero

/-- **Smaller summands keep a finite sum finite.** -/
theorem isFinite_sumFloats_of_le {β : Type} {xs : List β} {f g : β → Float}
    (hf : ∀ x ∈ xs, 0 ≤ f x) (hg : ∀ x ∈ xs, 0 ≤ g x) (h : ∀ x ∈ xs, f x ≤ g x)
    (hfin : (sumFloats (xs.map g)).isFinite = true) :
    (sumFloats (xs.map f)).isFinite = true := by
  have hf' : ∀ w ∈ xs.map f, 0 ≤ w := List.forall_mem_map.mpr hf
  have hg' : ∀ w ∈ xs.map g, 0 ≤ w := List.forall_mem_map.mpr hg
  have hle : units (sumFloats (xs.map f)) ≤ units (sumFloats (xs.map g)) :=
    units_foldl_le_foldl hf hg (fun x hx => (le_iff (hf x hx) (hg x hx)).mp (h x hx))
      zero_le_neg_zero zero_le_neg_zero (Nat.le_refl _)
  rw [isFinite_iff (sumFloats_nonneg hg')] at hfin
  rw [isFinite_iff (sumFloats_nonneg hf')]
  omega

/-! ### Ones -/

/-- The units of one. -/
def oneUnits : Nat := 2 ^ 1074

theorem units_one : units 1.0 = oneUnits := by decide +kernel

theorem oneUnits_pos : 0 < oneUnits :=
  pow_pos two_pos _

theorem mul_oneUnits_lt_overflow {n : Nat} (h : n < 2 ^ 53) : n * oneUnits < overflow :=
  mul_two_pow_lt_two_pow h (by decide)

theorem one_nonneg : (0 : Float) ≤ 1.0 := by decide +kernel

theorem one_pos : (0 : Float) < 1.0 := by
  rw [pos_iff one_nonneg, units_one]
  exact oneUnits_pos

/-- A number that fits into a significand fits into a float at any exponent. -/
theorem round_mul_two_pow {n k : Nat} (h : n < 2 ^ 53) (hk : k + 53 ≤ places) :
    round (n * 2 ^ k) = n * 2 ^ k := by
  rcases Nat.eq_zero_or_pos n with rfl | hn
  · rw [Nat.zero_mul, round_zero]
  have hlog : n.log2 < 53 := (Nat.log2_lt (by omega)).mpr h
  have hdropped : dropped (n * 2 ^ k) ≤ k := by
    rw [dropped, log2_mul_two_pow hn]
    omega
  have hle : n * 2 ^ k < overflow := mul_two_pow_lt_two_pow h hk
  exact round_eq_self (Nat.dvd_mul_left_of_dvd (Nat.pow_dvd_pow 2 hdropped) n) (Nat.le_of_lt hle)

theorem units_add_one {k : Nat} (h : k + 1 < 2 ^ 53) {a : Float} (ha : 0 ≤ a)
    (hk : units a = k * oneUnits) : units (a + 1.0) = (k + 1) * oneUnits := by
  rw [units_add ha one_nonneg, hk, units_one, ← Nat.succ_mul]
  exact round_mul_two_pow h (by decide)

theorem units_foldl_ones {n k : Nat} (h : k + n < 2 ^ 53) {a : Float} (ha : 0 ≤ a)
    (hk : units a = k * oneUnits) :
    units ((List.replicate n 1.0).foldl (· + ·) a) = (k + n) * oneUnits := by
  induction n generalizing k a with
  | zero => exact hk
  | succ n ih =>
      have hnext : units (a + 1.0) = (k + 1) * oneUnits := units_add_one (by omega) ha hk
      rw [List.replicate_succ, List.foldl_cons, ih (by omega) (add_nonneg ha one_nonneg) hnext,
        Nat.add_assoc, Nat.add_comm 1 n]

/-- **Counting by ones is exact**, as long as the count fits into a significand. -/
theorem units_sumFloats_ones {n : Nat} (h : n < 2 ^ 53) :
    units (sumFloats (List.replicate n 1.0)) = n * oneUnits := by
  have hzero : units (-0.0) = 0 * oneUnits := by rw [units_neg_zero, Nat.zero_mul]
  have hcount := units_foldl_ones (by rwa [Nat.zero_add]) zero_le_neg_zero hzero
  rwa [Nat.zero_add] at hcount

end FuzzPolicy.Binary64
