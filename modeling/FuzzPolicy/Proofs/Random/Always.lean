import Mathlib
import FuzzPolicy.Random.Source

/-!
# What a draw always gives

A draw is a function of the words of its source, so a property of its outcome that does not depend on
the words holds on every run. `Draw.Always` is that notion, with one rule for each way of making draws:
what the parts always give decides what the whole always gives. A number drawn from a range is always
in it, also when the words are refused for ever.
-/

namespace FuzzPolicy.Draw

variable {α β : Type}

/-- The second draw goes on with the source that the first leaves. -/
theorem bind_apply (d : Draw α) (f : α → Draw β) (s : Source) : (d >>= f) s = f (d s).1 (d s).2 :=
  rfl

/-- Whatever the words of the source are, the outcome has the property. -/
def Always (d : Draw α) (P : α → Prop) : Prop :=
  ∀ s, P (d s).1

theorem Always.mono {d : Draw α} {P Q : α → Prop} (h : d.Always P) (himp : ∀ a, P a → Q a) :
    d.Always Q :=
  fun s => himp _ (h s)

theorem Always.and {d : Draw α} {P Q : α → Prop} (hP : d.Always P) (hQ : d.Always Q) :
    d.Always fun a => P a ∧ Q a :=
  fun s => ⟨hP s, hQ s⟩

theorem always_true (d : Draw α) : d.Always fun _ => True :=
  fun _ => trivial

theorem always_pure {P : α → Prop} {a : α} (h : P a) : (pure a : Draw α).Always P :=
  fun _ => h

theorem always_bind {d : Draw α} {f : α → Draw β} {P : α → Prop} {Q : β → Prop}
    (hd : d.Always P) (hf : ∀ a, P a → (f a).Always Q) : (d >>= f).Always Q :=
  fun s => hf (d s).1 (hd s) (d s).2

/-- The rule of a draw of which nothing needs to be known. -/
theorem always_bind_any {d : Draw α} {f : α → Draw β} {Q : β → Prop}
    (hf : ∀ a, (f a).Always Q) : (d >>= f).Always Q :=
  always_bind d.always_true fun a _ => hf a

theorem always_ite {c : Prop} [Decidable c] {d e : Draw α} {P : α → Prop}
    (hd : c → d.Always P) (he : ¬ c → e.Always P) : (if c then d else e).Always P := by
  by_cases h : c
  · rw [if_pos h]
    exact hd h
  · rw [if_neg h]
    exact he h

/-- The rule of two branches that go on in the same way. -/
theorem always_ite_bind_of {c : Prop} [Decidable c] {d e : Draw α} {f : α → Draw β} {P : α → Prop}
    {Q : β → Prop} (hd : d.Always P) (he : e.Always P) (hf : ∀ a, P a → (f a).Always Q) :
    (if c then d >>= f else e >>= f).Always Q :=
  always_ite (fun _ => always_bind hd hf) fun _ => always_bind he hf

theorem always_ite_bind {c : Prop} [Decidable c] {d e : Draw α} {f : α → Draw β} {Q : β → Prop}
    (hf : ∀ a, (f a).Always Q) : (if c then d >>= f else e >>= f).Always Q :=
  always_ite_bind_of d.always_true e.always_true fun a _ => hf a

/-! ### Numbers -/

/-- The high half of a product with a word is below the other factor. -/
theorem word_mul_div_lt {n : Nat} (hn : 0 < n) (w : UInt64) :
    w.toNat * n / Nat.pow 2 64 < n := by
  have hw : w.toNat < Nat.pow 2 64 := w.toNat_lt
  exact Nat.div_lt_of_lt_mul (Nat.mul_lt_mul_of_pos_right hw hn)

theorem always_belowWithin_lt {n : Nat} (hn : 0 < n) (refusals : Nat) :
    (belowWithin n refusals).Always (· < n) := by
  -- Whether a word is refused does not matter: either it is the answer or a later one is.
  induction refusals with
  | zero =>
      unfold belowWithin
      exact always_bind_any fun w => always_pure (word_mul_div_lt hn w)
  | succ refusals ih =>
      unfold belowWithin
      exact always_bind_any fun w =>
        always_ite (fun _ => always_pure (word_mul_div_lt hn w)) fun _ => ih

theorem always_below_lt {n : Nat} (hn : 0 < n) : (below n).Always (· < n) :=
  always_belowWithin_lt hn patience

/-- **A number drawn from a range is in the range.** -/
theorem always_between {lo hi : Nat} (h : lo ≤ hi) :
    (between lo hi).Always fun n => lo ≤ n ∧ n ≤ hi := by
  unfold between
  refine always_bind (always_below_lt (Nat.succ_pos _)) ?_
  intro n hn
  exact always_pure ⟨by omega, by omega⟩

/-- An integer drawn from a range of signed words is in the range. -/
theorem always_intBetween {lo hi : Int} (hlo : -2 ^ 63 ≤ lo) (h : lo ≤ hi) (hhi : hi < 2 ^ 63) :
    (intBetween lo hi).Always fun n => lo ≤ n ∧ n ≤ hi := by
  unfold intBetween
  refine always_ite (fun hfull => ?_) fun _ => ?_
  · -- The range has all signed words, so its ends are the least and the greatest of them.
    have hwidth : hi - lo + 1 = 2 ^ 64 := hfull
    refine always_bind_any fun w => always_pure ?_
    have hlow := w.toInt64.le_toInt
    have hhigh := w.toInt64.toInt_lt
    omega
  · refine always_bind (always_below_lt (by omega)) ?_
    intro n hn
    exact always_pure (by omega)

/-! ### Repeated draws -/

theorem always_replicate {d : Draw α} {P : α → Prop} (h : d.Always P) (n : Nat) :
    (replicate n d).Always fun as => as.length = n ∧ ∀ a ∈ as, P a := by
  induction n with
  | zero => exact always_pure ⟨rfl, by simp⟩
  | succ n ih =>
      unfold replicate
      refine always_bind h ?_
      intro a ha
      refine always_bind ih ?_
      intro as has
      exact always_pure ⟨by rw [List.length_cons, has.1], List.forall_mem_cons.mpr ⟨ha, has.2⟩⟩

end FuzzPolicy.Draw
