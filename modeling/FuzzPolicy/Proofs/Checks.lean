import Mathlib.Logic.Basic

/-!
# Sequences of checks

Validation is a sequence of checks each of which may fail. The whole passes exactly if every check
does, and otherwise it fails with the fault of one that fails.
-/

namespace FuzzPolicy.Checks

variable {α β ε : Type}

theorem bind_of_ok {x : Except ε α} {f : α → Except ε β} {a : α} (h : x = .ok a) :
    (x >>= f) = f a := by
  rw [h]
  rfl

theorem bind_of_error {x : Except ε α} {f : α → Except ε β} {e : ε} (h : x = .error e) :
    (x >>= f) = .error e := by
  rw [h]
  rfl

/-- What is done after a check is reached only if the check passes. -/
theorem bind_eq_ok_iff {x : Except ε α} {f : α → Except ε β} {b : β} :
    (x >>= f) = .ok b ↔ ∃ a, x = .ok a ∧ f a = .ok b := by
  cases x with
  | error e =>
      constructor
      · intro h
        cases h
      · rintro ⟨a, h, -⟩
        cases h
  | ok a =>
      constructor
      · intro h
        exact ⟨a, rfl, h⟩
      · rintro ⟨a', h, hf⟩
        cases h
        exact hf

/-- The whole fails by the check, or by what is done after the check passes. -/
theorem bind_eq_error_iff {x : Except ε α} {f : α → Except ε β} {e : ε} :
    (x >>= f) = .error e ↔ x = .error e ∨ ∃ a, x = .ok a ∧ f a = .error e := by
  cases x with
  | error e' =>
      constructor
      · intro h
        cases h
        exact .inl rfl
      · rintro (h | ⟨a, h, -⟩)
        · cases h
          rfl
        · cases h
  | ok a =>
      constructor
      · intro h
        exact .inr ⟨a, rfl, h⟩
      · rintro (h | ⟨a', h, hf⟩)
        · cases h
        · cases h
          exact hf

/-- Two checks in a row pass exactly if both do. -/
theorem seq_eq_ok_iff {x y : Except ε Unit} :
    (x >>= fun _ => y) = .ok () ↔ x = .ok () ∧ y = .ok () := by
  rw [bind_eq_ok_iff]
  exact ⟨fun ⟨_, hx, hy⟩ => ⟨hx, hy⟩, fun ⟨hx, hy⟩ => ⟨(), hx, hy⟩⟩

/-- A check that fails on a condition passes exactly if the condition does not hold. -/
theorem fail_if_eq_ok_iff {c : Prop} [Decidable c] {e : ε} :
    (if c then .error e else .ok () : Except ε Unit) = .ok () ↔ ¬ c := by
  by_cases h : c
  · rw [if_pos h]
    exact ⟨nofun, fun hn => absurd h hn⟩
  · rw [if_neg h]
    exact ⟨fun _ => h, fun _ => rfl⟩

/-- A check that fails unless a condition holds passes exactly if it does. -/
theorem pass_if_eq_ok_iff {c : Prop} [Decidable c] {e : ε} :
    (if c then .ok () else .error e : Except ε Unit) = .ok () ↔ c := by
  by_cases h : c
  · rw [if_pos h]
    exact ⟨fun _ => h, fun _ => rfl⟩
  · rw [if_neg h]
    exact ⟨nofun, fun hc => absurd hc h⟩

/-- Such a check fails exactly on its condition. -/
theorem fail_if_eq_error_iff {c : Prop} [Decidable c] {e e' : ε} :
    (if c then .error e else .ok () : Except ε Unit) = .error e' ↔ c ∧ e = e' := by
  by_cases h : c
  · rw [if_pos h]
    exact ⟨fun heq => ⟨h, Except.error.inj heq⟩, fun ⟨_, heq⟩ => congrArg Except.error heq⟩
  · rw [if_neg h]
    exact ⟨nofun, fun ⟨hc, _⟩ => absurd hc h⟩

theorem pass_if_eq_error_iff {c : Prop} [Decidable c] {e e' : ε} :
    (if c then .ok () else .error e : Except ε Unit) = .error e' ↔ ¬ c ∧ e = e' := by
  rw [← fail_if_eq_error_iff, ite_not]

/-- **All checks pass exactly if each does.** -/
theorem forM_eq_ok_iff {xs : List α} {check : α → Except ε Unit} :
    xs.forM check = .ok () ↔ ∀ x ∈ xs, check x = .ok () := by
  induction xs with
  | nil =>
      constructor
      · intro _ x hx
        cases hx
      · intro _
        rfl
  | cons x xs ih =>
      change (check x >>= fun _ => xs.forM check) = .ok () ↔ _
      rw [bind_eq_ok_iff, List.forall_mem_cons, ← ih]
      exact ⟨fun ⟨_, hx, hxs⟩ => ⟨hx, hxs⟩, fun ⟨hx, hxs⟩ => ⟨(), hx, hxs⟩⟩

/-- The fault of the whole is that of one of the checks. -/
theorem exists_of_forM_eq_error {xs : List α} {check : α → Except ε Unit} {e : ε}
    (h : xs.forM check = .error e) : ∃ x ∈ xs, check x = .error e := by
  induction xs with
  | nil => cases h
  | cons x xs ih =>
      change (check x >>= fun _ => xs.forM check) = .error e at h
      rcases bind_eq_error_iff.mp h with hx | ⟨_, -, hxs⟩
      · exact ⟨x, List.mem_cons_self, hx⟩
      · obtain ⟨y, hy, hfail⟩ := ih hxs
        exact ⟨y, List.mem_cons_of_mem _ hy, hfail⟩

/-- If some check fails, the whole fails by one that does. -/
theorem forM_eq_error {xs : List α} {check : α → Except ε Unit}
    (h : ∃ x ∈ xs, check x ≠ .ok ()) :
    ∃ x ∈ xs, ∃ e, check x = .error e ∧ xs.forM check = .error e := by
  cases hall : xs.forM check with
  | ok _ =>
      obtain ⟨x, hx, hfail⟩ := h
      exact absurd (forM_eq_ok_iff.mp hall x hx) hfail
  | error e =>
      obtain ⟨x, hx, hfail⟩ := exists_of_forM_eq_error hall
      exact ⟨x, hx, e, hfail, rfl⟩

end FuzzPolicy.Checks
