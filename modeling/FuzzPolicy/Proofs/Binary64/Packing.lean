import FuzzPolicy.Proofs.Binary64.Rounding

/-!
# The floats that there are

A float is stored as a word of 64 bits and computed with as a sign, a significand and an exponent.
Unpacking a word gives significands of 53 places, or fewer at the least exponent; `Canonical` says
which triples these are. Packing loses nothing of them, and makes infinity of what has a greater
exponent. Unpacking loses nothing either, as only one word is stored for what is not a number.
-/

namespace FuzzPolicy.Binary64

open Float.Model Float.Model.UnpackedFloat

/-- What unpacking gives: the significand has 53 places, or the exponent is the least. -/
inductive Canonical : UnpackedFloat → Prop
  | infinity (s : Sign) : Canonical (.infinity s)
  | notANumber : Canonical .notANumber
  | zero (s : Sign) : Canonical (.zero s)
  | finite (s : Sign) {m : Nat} {e : Int} (hm : 0 < m) (hlt : m < 2 ^ 53) (hlo : -1074 ≤ e)
      (hhi : e ≤ 971) (hfull : 2 ^ 52 ≤ m ∨ e = -1074) : Canonical (.finite s m e hm)

/-! ### Unpacking -/

theorem toNat_append_one (m : BitVec 52) : (1#1 ++ m).toNat = 2 ^ 52 + m.toNat := by
  rw [BitVec.toNat_append, ← Nat.shiftLeft_add_eq_or_of_lt m.isLt]
  rfl

theorem canonical_unpack (v : Float.Model) : Canonical v.unpack := by
  unfold Float.Model.unpack UnpackedFloat.unpack
  dsimp only
  have hm := (@unpackMantissa Format.binary64 v.toBits.toBitVec).isLt
  have he := (@unpackExponent Format.binary64 v.toBits.toBitVec).isLt
  have hbias : ((Format.binary64.exponentBias : Nat) : Int) = 1023 := rfl
  have hbits : ((Format.binary64.mantissaBitsWithoutImplicit : Nat) : Int) = 52 := rfl
  change _ < 2 ^ 52 at hm
  change _ < 2 ^ 11 at he
  split
  · split
    · exact .infinity _
    · exact .notANumber
  · rename_i hones
    split
    · rename_i hzeros
      split
      · exact .zero _
      · -- The exponent field is zero: the least exponent, and no implicit place.
        have hfield : (@unpackExponent Format.binary64 v.toBits.toBitVec).toNat = 0 := by
          rw [hzeros]
          rfl
        refine .finite _ _ (by omega) ?_ ?_ (Or.inr ?_) <;> rw [hfield, hbias, hbits] <;> omega
    · rename_i hzeros
      have hpos : (@unpackExponent Format.binary64 v.toBits.toBitVec).toNat ≠ 0 :=
        fun h => hzeros (BitVec.eq_of_toNat_eq h)
      have htop : (@unpackExponent Format.binary64 v.toBits.toBitVec).toNat ≠ 2047 :=
        fun h => hones (BitVec.eq_of_toNat_eq h)
      have hsig := toNat_append_one (@unpackMantissa Format.binary64 v.toBits.toBitVec)
      refine .finite _ _ ?_ ?_ ?_ (Or.inl ?_)
      · rw [hsig]
        omega
      · rw [hbias, hbits]
        omega
      · rw [hbias, hbits]
        omega
      · rw [hsig]
        omega

/-! ### Packing -/

@[simp] theorem unpackSign_packComponents (s : Sign) (e : BitVec 11) (m : BitVec 52) :
    unpackSign (packComponents Format.binary64 s e m) = s.toBitVec := by
  apply BitVec.eq_of_getElem_eq
  intro i hi
  obtain rfl : i = 0 := by omega
  calc (unpackSign (packComponents Format.binary64 s e m))[0]
      = ((s.toBitVec ++ e : BitVec 12) ++ m : BitVec 64).getLsbD 63 := by
        rw [unpackSign, BitVec.getElem_cast, BitVec.extractLsb, BitVec.getElem_extractLsb']
        rfl
    _ = s.toBitVec[0] := by
        rw [BitVec.getLsbD_append, BitVec.getLsbD_append]
        rfl

@[simp] theorem ofBitVec_toBitVec (s : Sign) : Sign.ofBitVec s.toBitVec = s := by
  cases s <;> rfl

@[simp] theorem toBitVec_ofBitVec (b : BitVec 1) : (Sign.ofBitVec b).toBitVec = b := by
  revert b
  decide

/-- Unpacking what was put together from an exponent field that is neither zero nor all ones. -/
theorem unpack_packComponents_normal (s : Sign) {b : Nat} (hpos : 0 < b) (htop : b < 2047)
    (m : BitVec 52) (hm : 0 < (1#1 ++ m).toNat) :
    UnpackedFloat.unpack Format.binary64
        (packComponents Format.binary64 s (BitVec.ofNat 11 b) m) =
      .finite s (1#1 ++ m).toNat (b - 1075) hm := by
  have hb : (BitVec.ofNat 11 b).toNat = b := by
    rw [BitVec.toNat_ofNat]
    exact Nat.mod_eq_of_lt (by omega)
  have hzeros : BitVec.ofNat 11 b ≠ 0#11 := by
    intro h
    rw [h] at hb
    simp at hb
    omega
  have hones : BitVec.ofNat 11 b ≠ -1#11 := by
    intro h
    rw [h] at hb
    simp at hb
    omega
  unfold UnpackedFloat.unpack
  simp only [unpackMantissa_packComponents, unpackExponent_packComponents,
    unpackSign_packComponents, ofBitVec_toBitVec, hones, hzeros, ↓reduceIte, hb]
  rfl

theorem unpack_packComponents_subnormal (s : Sign) (m : BitVec 52) (hm : 0 < m.toNat) :
    UnpackedFloat.unpack Format.binary64 (packComponents Format.binary64 s 0#11 m) =
      .finite s m.toNat (-1074) hm := by
  have hne : m ≠ 0#52 := by
    rintro rfl
    simp at hm
  have hones : (0#11 : BitVec 11) ≠ -1#11 := by decide
  unfold UnpackedFloat.unpack
  simp only [unpackMantissa_packComponents, unpackExponent_packComponents,
    unpackSign_packComponents, ofBitVec_toBitVec, hones, hne, ↓reduceIte, ↓reduceDIte]
  rfl

theorem unpack_pack_infinity (s : Sign) :
    (Float.Model.pack (.infinity s)).unpack = .infinity s := by
  cases s <;> rfl

theorem unpack_pack_zero (s : Sign) : (Float.Model.pack (.zero s)).unpack = .zero s := by
  cases s <;> rfl

/-- Packing makes infinity of an exponent that is too great. -/
theorem unpack_pack_of_lt (s : Sign) {m : Nat} {e : Int} (hm : 0 < m) (he : 971 < e) :
    (Float.Model.pack (.finite s m e hm)).unpack = .infinity s := by
  have hbias : ((Format.binary64.exponentBias : Nat) : Int) = 1023 := rfl
  have hbits : ((Format.binary64.mantissaBitsWithoutImplicit : Nat) : Int) = 52 := rfl
  have hpack : UnpackedFloat.pack Format.binary64 (.finite s m e hm) =
      UnpackedFloat.pack Format.binary64 (.infinity s) := by
    simp only [UnpackedFloat.pack]
    rw [if_pos]
    rw [hbias, hbits]
    omega
  change UnpackedFloat.unpack Format.binary64 (UnpackedFloat.pack Format.binary64 _) = _
  rw [hpack]
  exact unpack_pack_infinity s

/-- A significand with the implicit place is stored without it. -/
theorem pack_full (s : Sign) {m : Nat} {e : Int} (hm : 0 < m) (hfull : 2 ^ 52 ≤ m)
    (hlt : m < 2 ^ 53) (hhi : e ≤ 971) :
    UnpackedFloat.pack Format.binary64 (.finite s m e hm) =
      packComponents Format.binary64 s (BitVec.ofNat 11 (e + 1023 + 52).toNat)
        (BitVec.ofNat 52 m) := by
  have hbias : ((Format.binary64.exponentBias : Nat) : Int) = 1023 := rfl
  have hbits : ((Format.binary64.mantissaBitsWithoutImplicit : Nat) : Int) = 52 := rfl
  have hsig : Format.binary64.mantissaBits = 53 := rfl
  have hlog : m.log2 = 52 := (Nat.log2_eq_iff (by omega)).mpr ⟨hfull, hlt⟩
  simp only [UnpackedFloat.pack, hbias, hbits, hsig]
  rw [if_neg (by omega), if_pos (by omega)]

/-- A significand at the least exponent is stored as it is. -/
theorem pack_low (s : Sign) {m : Nat} (hm : 0 < m) (hlow : m < 2 ^ 52) :
    UnpackedFloat.pack Format.binary64 (.finite s m (-1074) hm) =
      packComponents Format.binary64 s 0#11 (BitVec.ofNat 52 m) := by
  have hbias : ((Format.binary64.exponentBias : Nat) : Int) = 1023 := rfl
  have hbits : ((Format.binary64.mantissaBitsWithoutImplicit : Nat) : Int) = 52 := rfl
  have hsig : Format.binary64.mantissaBits = 53 := rfl
  have hlog : m.log2 < 52 := (Nat.log2_lt (by omega)).mpr hlow
  simp only [UnpackedFloat.pack, hbias, hbits, hsig]
  rw [if_neg (by omega), if_neg (by omega)]

/-- **Packing loses nothing** of what unpacking can give. -/
theorem unpack_pack {u : UnpackedFloat} (h : Canonical u) : (Float.Model.pack u).unpack = u := by
  cases h with
  | infinity s => exact unpack_pack_infinity s
  | notANumber => rfl
  | zero s => exact unpack_pack_zero s
  | @finite s m e hm hlt hlo hhi hfull =>
      change UnpackedFloat.unpack Format.binary64 (UnpackedFloat.pack Format.binary64 _) = _
      by_cases hnormal : 2 ^ 52 ≤ m
      · have hmant : (1#1 ++ BitVec.ofNat 52 m).toNat = m := by
          rw [toNat_append_one, BitVec.toNat_ofNat]
          omega
        rw [pack_full s hm hnormal hlt hhi,
          unpack_packComponents_normal s (by omega) (by omega) _ (by omega)]
        congr 1
        omega
      · have he : e = -1074 := hfull.resolve_left hnormal
        subst he
        have hmant : (BitVec.ofNat 52 m).toNat = m := by
          rw [BitVec.toNat_ofNat]
          exact Nat.mod_eq_of_lt (by omega)
        rw [pack_low s hm (by omega), unpack_packComponents_subnormal s _ (by omega)]
        congr 1

/-! ### Words -/

/-- A word is put together from its three fields. -/
theorem packComponents_fields {w : BitVec Format.binary64.numBits} {e : BitVec 11} {m : BitVec 52}
    (he : unpackExponent w = e) (hm : unpackMantissa w = m) :
    packComponents Format.binary64 (Sign.ofBitVec (unpackSign w)) e m = w := by
  subst he hm
  simp only [packComponents, toBitVec_ofBitVec, unpackSign, unpackExponent, unpackMantissa,
    BitVec.extractLsb]
  apply BitVec.eq_of_getLsbD_eq
  intro i hi
  simp only [BitVec.getLsbD_append, BitVec.getLsbD_cast, BitVec.getLsbD_extractLsb']
  by_cases hmant : i < 52
  · simp [hmant]
  · by_cases hexp : i - 52 < 11
    · simp [hmant, hexp, show 52 + (i - 52) = i by omega]
    · simp [hmant, hexp, show 63 + (i - 52 - 11) = i by omega]
      omega

theorem pack_unpack_word {w : BitVec Format.binary64.numBits} (hvalid : Format.binary64.Valid w) :
    UnpackedFloat.pack Format.binary64 (UnpackedFloat.unpack Format.binary64 w) = w := by
  have hbias : ((Format.binary64.exponentBias : Nat) : Int) = 1023 := rfl
  have hbits : ((Format.binary64.mantissaBitsWithoutImplicit : Nat) : Int) = 52 := rfl
  have hexp : (unpackExponent w).toNat < 2 ^ 11 := (unpackExponent w).isLt
  have hmant : (unpackMantissa w).toNat < 2 ^ 52 := (unpackMantissa w).isLt
  unfold UnpackedFloat.unpack
  dsimp only
  split
  · rename_i hones
    split
    · rename_i hzero
      exact packComponents_fields hones hzero
    · rename_i hne
      exact (hvalid.eq_packedNaN hones hne).symm
  · rename_i hones
    split
    · rename_i hzeros
      split
      · rename_i hzero
        exact packComponents_fields hzeros hzero
      · have hleast : ((unpackExponent w).toNat : Int) - (Format.binary64.exponentBias +
            Format.binary64.mantissaBitsWithoutImplicit) + 1 = -1074 := by
          rw [hzeros]
          rfl
        simp only [hleast]
        rw [pack_low _ _ hmant]
        refine packComponents_fields hzeros (BitVec.eq_of_toNat_eq ?_)
        rw [BitVec.toNat_ofNat, Nat.mod_eq_of_lt hmant]
    · rename_i hzeros
      have htop : (unpackExponent w).toNat ≠ 2047 :=
        fun h => hones (BitVec.eq_of_toNat_eq h)
      have hsig := toNat_append_one (unpackMantissa w)
      rw [pack_full _ _ (by omega) (by omega) (by rw [hbias, hbits]; omega)]
      refine packComponents_fields (BitVec.eq_of_toNat_eq ?_) (BitVec.eq_of_toNat_eq ?_)
      · rw [BitVec.toNat_ofNat, hbias, hbits]
        change _ = _ % 2 ^ 11
        omega
      · rw [BitVec.toNat_ofNat, hsig]
        change _ = _ % 2 ^ 52
        omega

/-- **Unpacking loses nothing**, so floats that are unpacked alike are the same. -/
theorem pack_unpack (v : Float.Model) : Float.Model.pack v.unpack = v := by
  obtain ⟨⟨w⟩, hvalid⟩ := v
  simp only [Float.Model.pack, Float.Model.unpack, pack_unpack_word hvalid]

end FuzzPolicy.Binary64
