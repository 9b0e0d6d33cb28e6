import FuzzPolicy.Proofs.Binary64.Packing

/-!
# Floats in units

`units` measures a float that is not negative in units of 2⁻¹⁰⁷⁴. The comparisons of floats are those
of their units, and a float is finite exactly if it has fewer units than infinity. Nothing is said of
negative floats and of what is not a number: `0 ≤ x` keeps both out, and is what the lemmas ask for.
-/

namespace FuzzPolicy.Binary64

open Float.Model Float.Model.UnpackedFloat

/-- The units of an unpacked float, whatever its sign. -/
def unpackedUnits : UnpackedFloat → Nat
  | .infinity _ => overflow
  | .notANumber => 0
  | .zero _ => 0
  | .finite _ m e _ => m * 2 ^ (e + 1074).toNat

/-- The units of a float that is not negative. -/
def units (x : Float) : Nat :=
  unpackedUnits x.toModel.unpack

/-- An unpacked float that is a number and not below zero. Both zeros are such. -/
inductive NonNegative : UnpackedFloat → Prop
  | infinity : NonNegative (.infinity .positive)
  | zero (s : Sign) : NonNegative (.zero s)
  | finite {m : Nat} {e : Int} (hm : 0 < m) : NonNegative (.finite .positive m e hm)

/-! ### What is not negative -/

theorem nonNegative_iff {x : Float} : 0 ≤ x ↔ NonNegative x.toModel.unpack := by
  have hzero : (0 : Float).toModel.unpack = .zero .positive := rfl
  have hle : 0 ≤ x ↔ (UnpackedFloat.zero .positive).le x.toModel.unpack = true := by
    rw [← hzero]
    change Float.le 0 x = true ↔ _
    exact decide_eq_true_iff
  rw [hle]
  generalize x.toModel.unpack = u
  constructor
  · intro h
    cases u with
    | infinity s =>
        cases s with
        | negative => exact absurd h (by decide)
        | positive => exact .infinity
    | notANumber => exact absurd h (by decide)
    | zero s => exact .zero s
    | finite s m e hm =>
        cases s with
        | negative => exact absurd h (by simp [UnpackedFloat.le, UnpackedFloat.compare])
        | positive => exact .finite hm
  · intro h
    cases h with
    | infinity => rfl
    | zero s => cases s <;> rfl
    | finite hm => rfl

/-! ### The order -/

/-- A full significand outweighs every significand at a lesser exponent. -/
theorem mul_two_pow_lt {m m' a b : Nat} (hm : m < 2 ^ 53) (hm' : 2 ^ 52 ≤ m') (h : a < b) :
    m * 2 ^ a < m' * 2 ^ b :=
  calc m * 2 ^ a < 2 ^ 53 * 2 ^ a := Nat.mul_lt_mul_of_pos_right hm (Nat.two_pow_pos a)
    _ = 2 ^ 52 * 2 ^ (a + 1) := by rw [Nat.pow_succ]; ring
    _ ≤ 2 ^ 52 * 2 ^ b := Nat.mul_le_mul_left _ (Nat.pow_le_pow_right (by omega) h)
    _ ≤ m' * 2 ^ b := Nat.mul_le_mul_right _ hm'

theorem mul_two_pow_lt_two_pow {m a b : Nat} (hm : m < 2 ^ 53) (h : a + 53 ≤ b) :
    m * 2 ^ a < 2 ^ b :=
  calc m * 2 ^ a < 2 ^ 53 * 2 ^ a := Nat.mul_lt_mul_of_pos_right hm (Nat.two_pow_pos a)
    _ = 2 ^ (a + 53) := by rw [← Nat.pow_add, Nat.add_comm]
    _ ≤ 2 ^ b := Nat.pow_le_pow_right (by omega) h

theorem unpackedUnits_lt_overflow {s : Sign} {m : Nat} {e : Int} {hm : 0 < m}
    (h : Canonical (.finite s m e hm)) : unpackedUnits (.finite s m e hm) < overflow := by
  cases h with
  | finite _ _ hlt hlo hhi _ =>
      refine mul_two_pow_lt_two_pow hlt ?_
      unfold places
      omega

theorem unpackedUnits_pos {s : Sign} {m : Nat} {e : Int} (hm : 0 < m) :
    0 < unpackedUnits (.finite s m e hm) :=
  Nat.mul_pos hm (Nat.two_pow_pos _)

theorem overflow_pos : 0 < overflow :=
  Nat.two_pow_pos _

/-- Exponents are compared first, and that is right as all significands are full but those at the
least exponent. -/
theorem compare_finite {m m' : Nat} {e e' : Int} {hm : 0 < m} {hm' : 0 < m'}
    (h : Canonical (.finite .positive m e hm)) (h' : Canonical (.finite .positive m' e' hm')) :
    (compare e e').then (compare m m') =
      compare (m * 2 ^ (e + 1074).toNat) (m' * 2 ^ (e' + 1074).toNat) := by
  cases h with
  | finite _ _ hlt hlo _ hfull =>
    cases h' with
    | finite _ _ hlt' hlo' _ hfull' =>
      rcases Int.lt_trichotomy e e' with hlt₁ | rfl | hgt
      · have hval : m * 2 ^ (e + 1074).toNat < m' * 2 ^ (e' + 1074).toNat :=
          mul_two_pow_lt hlt (hfull'.resolve_right (by omega)) (by omega)
        rw [Int.compare_eq_lt.mpr hlt₁, Nat.compare_eq_lt.mpr hval]
        rfl
      · rw [Int.compare_eq_eq.mpr rfl, Ordering.then]
        rcases Nat.lt_trichotomy m m' with hl | rfl | hg
        · rw [Nat.compare_eq_lt.mpr hl,
            Nat.compare_eq_lt.mpr (Nat.mul_lt_mul_of_pos_right hl (Nat.two_pow_pos _))]
        · rw [Nat.compare_eq_eq.mpr rfl, Nat.compare_eq_eq.mpr rfl]
        · rw [Nat.compare_eq_gt.mpr hg,
            Nat.compare_eq_gt.mpr (Nat.mul_lt_mul_of_pos_right hg (Nat.two_pow_pos _))]
      · have hval : m' * 2 ^ (e' + 1074).toNat < m * 2 ^ (e + 1074).toNat :=
          mul_two_pow_lt hlt' (hfull.resolve_right (by omega)) (by omega)
        rw [Int.compare_eq_gt.mpr hgt, Nat.compare_eq_gt.mpr hval]
        rfl

/-- **Floats are compared by their units.** -/
theorem compare_eq {a b : UnpackedFloat} (ha : Canonical a) (hb : Canonical b)
    (ha0 : NonNegative a) (hb0 : NonNegative b) :
    a.compare b = some (compare (unpackedUnits a) (unpackedUnits b)) := by
  cases ha0 with
  | infinity =>
      cases hb0 with
      | infinity => exact congrArg some (Nat.compare_eq_eq.mpr rfl).symm
      | zero s => exact congrArg some (Nat.compare_eq_gt.mpr overflow_pos).symm
      | finite hm => exact congrArg some (Nat.compare_eq_gt.mpr (unpackedUnits_lt_overflow hb)).symm
  | zero s =>
      cases hb0 with
      | infinity => exact congrArg some (Nat.compare_eq_lt.mpr overflow_pos).symm
      | zero s' => exact congrArg some (Nat.compare_eq_eq.mpr rfl).symm
      | finite hm => exact congrArg some (Nat.compare_eq_lt.mpr (unpackedUnits_pos hm)).symm
  | finite hm =>
      cases hb0 with
      | infinity => exact congrArg some (Nat.compare_eq_lt.mpr (unpackedUnits_lt_overflow ha)).symm
      | zero s => exact congrArg some (Nat.compare_eq_gt.mpr (unpackedUnits_pos hm)).symm
      | finite hm' => exact congrArg some (compare_finite ha hb)

theorem float_compare {x y : Float} (hx : 0 ≤ x) (hy : 0 ≤ y) :
    x.toModel.unpack.compare y.toModel.unpack = some (compare (units x) (units y)) :=
  compare_eq (canonical_unpack _) (canonical_unpack _) (nonNegative_iff.mp hx)
    (nonNegative_iff.mp hy)

theorem le_iff {x y : Float} (hx : 0 ≤ x) (hy : 0 ≤ y) : x ≤ y ↔ units x ≤ units y := by
  have hle : x ≤ y ↔ (x.toModel.unpack.compare y.toModel.unpack).any (·.isLE) = true :=
    decide_eq_true_iff
  rw [hle, float_compare hx hy, Option.any_some, Nat.isLE_compare]

theorem lt_iff {x y : Float} (hx : 0 ≤ x) (hy : 0 ≤ y) : x < y ↔ units x < units y := by
  have hlt : x < y ↔ (x.toModel.unpack.compare y.toModel.unpack == some .lt) = true :=
    decide_eq_true_iff
  rw [hlt, float_compare hx hy, beq_iff_eq, Option.some.injEq, Nat.compare_eq_lt]

theorem beq_iff_units {x y : Float} (hx : 0 ≤ x) (hy : 0 ≤ y) : x == y ↔ units x = units y := by
  have hbeq : x == y ↔ (x.toModel.unpack.compare y.toModel.unpack == some .eq) = true := Iff.rfl
  rw [hbeq, float_compare hx hy, beq_iff_eq, Option.some.injEq, Nat.compare_eq_eq]

/-! ### Zero and infinity -/

theorem zero_le_zero : (0 : Float) ≤ 0 :=
  nonNegative_iff.mpr (.zero .positive)

@[simp] theorem units_zero : units 0 = 0 := rfl

theorem le_zero_iff {x : Float} (hx : 0 ≤ x) : x ≤ 0 ↔ units x = 0 := by
  rw [le_iff hx zero_le_zero, units_zero, Nat.le_zero]

theorem pos_iff {x : Float} (hx : 0 ≤ x) : 0 < x ↔ 0 < units x := by
  rw [lt_iff zero_le_zero hx, units_zero]

theorem isFinite_iff {x : Float} (hx : 0 ≤ x) : x.isFinite = true ↔ units x < overflow := by
  have h := canonical_unpack x.toModel
  have hpos := nonNegative_iff.mp hx
  have hfin : x.isFinite = x.toModel.unpack.isFinite := rfl
  rw [hfin, units]
  cases hx : x.toModel.unpack with
  | infinity s => simp [UnpackedFloat.isFinite, unpackedUnits]
  | notANumber =>
      rw [hx] at hpos
      cases hpos
  | zero s => simp [UnpackedFloat.isFinite, unpackedUnits, overflow_pos]
  | finite s m e hm =>
      rw [hx] at h
      simp [UnpackedFloat.isFinite, unpackedUnits_lt_overflow h]

/-- What is not negative is a number, so it is infinite if not finite. -/
theorem isInf_iff {x : Float} (hx : 0 ≤ x) : x.isInf = true ↔ x.isFinite = false := by
  have hinf : x.isInf = x.toModel.unpack.isInf := rfl
  have hfin : x.isFinite = x.toModel.unpack.isFinite := rfl
  have hpos := nonNegative_iff.mp hx
  rw [hinf, hfin]
  generalize x.toModel.unpack = u at hpos
  cases hpos <;> simp [UnpackedFloat.isInf, UnpackedFloat.isFinite]

/-- A float that is greater than zero is not negative. -/
theorem nonneg_of_pos {x : Float} (h : 0 < x) : 0 ≤ x := by
  have hlt : (UnpackedFloat.zero .positive).compare x.toModel.unpack = some .lt :=
    beq_iff_eq.mp (decide_eq_true_iff.mp h)
  have hle : (0 : Float) ≤ x ↔
      ((UnpackedFloat.zero .positive).compare x.toModel.unpack).any (·.isLE) = true :=
    decide_eq_true_iff
  rw [hle, hlt]
  rfl

/-- A float that is finite and not below zero is not negative. -/
theorem nonneg_of_isFinite {x : Float} (hfin : x.isFinite = true) (h : ¬ x < 0) : 0 ≤ x := by
  have hlt : x < 0 ↔
      (x.toModel.unpack.compare (UnpackedFloat.zero .positive) == some .lt) = true :=
    decide_eq_true_iff
  have hmodel : x.toModel.unpack.isFinite = true := hfin
  rw [hlt] at h
  rw [nonNegative_iff]
  cases hx : x.toModel.unpack with
  | infinity s =>
      rw [hx] at hmodel
      cases hmodel
  | notANumber =>
      rw [hx] at hmodel
      cases hmodel
  | zero s => exact .zero s
  | finite s m e hm =>
      cases s with
      | negative =>
          rw [hx] at h
          exact absurd rfl h
      | positive => exact .finite hm

theorem not_le_zero {x : Float} (h : 0 < x) : ¬ x ≤ 0 := by
  rw [le_zero_iff (nonneg_of_pos h)]
  exact Nat.ne_of_gt ((pos_iff (nonneg_of_pos h)).mp h)

theorem not_lt_zero {x : Float} (h : 0 ≤ x) : ¬ x < 0 := by
  rw [lt_iff h zero_le_zero, units_zero]
  exact Nat.not_lt_zero _

/-! ### Floats of the same units -/

theorem eq_of_unpackedUnits_eq {a b : UnpackedFloat} (ha : Canonical a) (hb : Canonical b)
    (ha0 : NonNegative a) (hb0 : NonNegative b) (hpos : 0 < unpackedUnits a)
    (h : unpackedUnits a = unpackedUnits b) : a = b := by
  have hcompare : a.compare b = some .eq := by
    rw [compare_eq ha hb ha0 hb0, h, Nat.compare_eq_eq.mpr rfl]
  cases ha0 with
  | zero s => cases hpos
  | infinity =>
      cases hb0 with
      | infinity => rfl
      | zero s => cases hcompare
      | finite hm => cases hcompare
  | @finite m e hm =>
      cases hb0 with
      | infinity => cases hcompare
      | zero s => cases hcompare
      | @finite m' e' hm' =>
          have hthen : (compare e e').then (compare m m') = .eq := Option.some.inj hcompare
          obtain ⟨he, hm⟩ := Ordering.then_eq_eq.mp hthen
          obtain rfl := Int.compare_eq_eq.mp he
          obtain rfl := Nat.compare_eq_eq.mp hm
          rfl

/-- **A positive float is told by its units.** The zeros are not, as there are two. -/
theorem eq_of_units_eq {x y : Float} (hx : 0 < x) (hy : 0 ≤ y) (h : units x = units y) : x = y := by
  have hx0 : 0 ≤ x := nonneg_of_pos hx
  have hunpack : x.toModel.unpack = y.toModel.unpack :=
    eq_of_unpackedUnits_eq (canonical_unpack _) (canonical_unpack _) (nonNegative_iff.mp hx0)
      (nonNegative_iff.mp hy) ((pos_iff hx0).mp hx) h
  have hmodel : x.toModel = y.toModel := by
    rw [← pack_unpack x.toModel, hunpack, pack_unpack]
  cases x
  cases y
  cases hmodel
  rfl

end FuzzPolicy.Binary64
