import Mathlib
import FuzzPolicy.Proofs.Document.Grammar

/-!
# Numerals as they are written

A numeral that is `Proper` is spelled by its characters. Those that `Numeral.ofNat` and `Numeral.ofFloat` make
are. For a double the point is that the digits of its decimal do not begin with a zero unless they are all
zero, and that such a decimal is not moved by its exponent, so a zero is never followed by more digits
before the point.
-/

namespace FuzzPolicy

open Document

namespace Decimal

theorem dropZeros_digits_ne_zero {n : Nat} {d : Decimal} (h : d.digits ≠ 0) :
    (d.dropZeros n).digits ≠ 0 := by
  induction n generalizing d with
  | zero => exact h
  | succ n ih =>
    rw [dropZeros]
    split
    · next hzero =>
      apply ih
      show d.digits / 10 ≠ 0
      omega
    · exact h

/-- The decimal of zero is not moved by an exponent. -/
theorem exponent_trim {d : Decimal} (h : d.trim.digits = 0) : d.trim.exponent = 0 := by
  rw [trim] at h ⊢
  split at h
  · next hzero => rw [if_pos hzero]
  · next hne => exact absurd h (dropZeros_digits_ne_zero hne)

end Decimal

namespace Numeral

/-! ### Digits of numbers -/

theorem isDigits_digitsOf (n : Nat) : IsDigits (digitsOf n) :=
  ⟨Nat.toDigits_ne_nil, fun _ h => Nat.isDigit_of_mem_toDigits (by decide) (by decide) h⟩

/-- Only the digits of zero begin with a zero. -/
theorem head_digitsOf {n : Nat} (h : (digitsOf n).head? = some '0') : n = 0 := by
  induction n using Nat.strongRecOn with
  | ind n ih =>
    rcases Nat.lt_or_ge n 10 with hn | hn
    · rw [digitsOf, Nat.toDigits_of_lt_base hn] at h
      exact Nat.digitChar_eq_zero.mp (Option.some.inj h)
    · have hdiv : n / 10 = 0 := by
        apply ih _ (by omega)
        rw [digitsOf, Nat.toDigits_of_base_le (by decide) hn,
          List.head?_append] at h
        obtain ⟨c, cs, hcs⟩ := List.exists_cons_of_ne_nil (Nat.toDigits_ne_nil (b := 10) (n := n / 10))
        rw [hcs] at h
        rw [digitsOf, hcs]
        exact h
      omega

theorem isWhole_digitsOf (n : Nat) : IsWhole (digitsOf n) := by
  refine ⟨isDigits_digitsOf n, fun h => ?_⟩
  rw [head_digitsOf h]
  rfl

theorem digitsValue_digitsOf (n : Nat) : digitsValue (digitsOf n) = n :=
  Nat.ofDigitChars_ten_toDigits

/-! ### Proper numerals -/

/-- Each part of the numeral is made of digits, and no zero stands before other whole digits. -/
structure Proper (n : Numeral) : Prop where
  whole : IsWhole n.whole
  fraction : ∀ c ∈ n.fraction, c.isDigit
  exponent : ∀ e, n.exponent = some e → IsDigits e.digits

/-- An exponent as it is written. -/
def exponentChars : Option Exponent → List Char
  | none => []
  | some e => 'e' :: (if e.negative then '-' else '+') :: e.digits

theorem Proper.spells {n : Numeral} (h : Proper n) : SpellsNumber n n.chars := by
  have hfraction : SpellsFraction n.fraction
      (if n.fraction.isEmpty then [] else '.' :: n.fraction) := by
    split
    · next hempty =>
      rw [List.isEmpty_iff.mp hempty]
      exact .none
    · next hne => exact .point ⟨fun hnil => hne (by simp [hnil]), h.fraction⟩
  have hexponent : SpellsExponent n.exponent (exponentChars n.exponent) := by
    cases hsome : n.exponent with
    | none => exact .none
    | some e =>
      obtain ⟨negative, digits⟩ := e
      have hdigits := h.exponent _ hsome
      cases negative with
      | true => exact .minus (.inl rfl) hdigits
      | false => exact .plus (.inl rfl) hdigits
  have hmagnitude := SpellsMagnitude.intro h.whole hfraction hexponent
  cases hnegative : n.negative with
  | false =>
    simp only [chars, hnegative, List.append_assoc]
    exact .plain hnegative hmagnitude
  | true =>
    simp only [chars, hnegative, List.append_assoc]
    exact .minus hnegative hmagnitude

theorem proper_ofNat (k : Nat) : Proper (ofNat k) :=
  ⟨isWhole_digitsOf k, by simp [ofNat], by simp [ofNat]⟩

/-! ### Doubles -/

theorem isDigit_zeros {n : Nat} : ∀ c ∈ zeros n, c.isDigit := by
  intro c hc
  rw [List.eq_of_mem_replicate hc]
  rfl

/-- The first digits of a positive number, with or without zeros behind them, are whole digits. -/
theorem isWhole_take {n k : Nat} (zs : List Char) (hn : n ≠ 0) (hk : 0 < k)
    (hzs : ∀ c ∈ zs, c.isDigit) : IsWhole ((digitsOf n).take k ++ zs) := by
  obtain ⟨hne, hdigits⟩ := isDigits_digitsOf n
  obtain ⟨d, ds, hds⟩ := List.exists_cons_of_ne_nil hne
  obtain ⟨k, rfl⟩ := Nat.exists_eq_add_one.mpr hk
  have htake : (digitsOf n).take (k + 1) = d :: ds.take k := by rw [hds, List.take_succ_cons]
  refine ⟨⟨by simp [htake], fun c hc => ?_⟩, fun hhead => ?_⟩
  · rcases List.mem_append.mp hc with hc | hc
    · exact hdigits c (List.mem_of_mem_take hc)
    · exact hzs c hc
  · refine absurd (head_digitsOf ?_) hn
    rw [htake] at hhead
    rw [hds]
    exact hhead

/-- A decimal is laid out properly. -/
theorem proper_ofDecimal {layout : Layout} {negative : Bool} {d : Decimal}
    (hd : d.digits = 0 → d.exponent = 0) : Proper (ofDecimal layout negative d) := by
  obtain ⟨hne, hdigits⟩ := isDigits_digitsOf d.digits
  unfold ofDecimal
  dsimp only
  split
  · split
    · refine ⟨?_, by split <;> simp, by simp⟩
      by_cases hzero : d.digits = 0
      · simpa [hd hzero, zeros] using isWhole_digitsOf d.digits
      · simpa using isWhole_take _ (k := (digitsOf d.digits).length) hzero
          (List.length_pos_iff.mpr hne) isDigit_zeros
    · next hexp =>
      have hnonzero : d.digits ≠ 0 := fun hzero => hexp (Int.le_of_eq (hd hzero).symm)
      split
      · next hplaces =>
        refine ⟨?_, fun c hc => hdigits c (List.mem_of_mem_drop hc), by simp⟩
        simpa using isWhole_take [] hnonzero (Int.pos_iff_toNat_pos.mp hplaces) (by simp)
      · refine ⟨isWhole_digitsOf 0, fun c hc => ?_, by simp⟩
        exact (List.mem_append.mp hc).elim (isDigit_zeros c) (hdigits c)
  · refine ⟨?_, fun c hc => hdigits c (List.mem_of_mem_drop hc), ?_⟩
    · by_cases hzero : d.digits = 0
      · rw [hzero]
        exact isWhole_digitsOf 0
      · simpa using isWhole_take [] hzero Nat.one_pos (by simp)
    · rintro e ⟨rfl⟩
      exact isDigits_digitsOf _

/-- Documents show of every double that it is no integer. -/
theorem shows_ofDecimal (negative : Bool) (d : Decimal) :
    (ofDecimal .document negative d).fraction ≠ [] ∨
      (ofDecimal .document negative d).exponent ≠ none := by
  unfold ofDecimal
  dsimp only
  split
  · left
    split
    · simp [Layout.document]
    · split
      · next hexp hplaces =>
        simp only [ne_eq, List.drop_eq_nil_iff, Nat.not_le]
        omega
      · simp [(isDigits_digitsOf d.digits).ne_nil]
  · right
    simp

theorem proper_ofFloat (layout : Layout) (x : Float) : Proper (ofFloat layout x) :=
  proper_ofDecimal Decimal.exponent_trim

theorem shows_ofFloat (x : Float) :
    (ofFloat .document x).fraction ≠ [] ∨ (ofFloat .document x).exponent ≠ none :=
  shows_ofDecimal _ _

end Numeral

end FuzzPolicy
