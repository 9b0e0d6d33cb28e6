import FuzzPolicy.Document.Record
import FuzzPolicy.Proofs.Checks
import Mathlib.Data.List.Perm.Basic

/-!
# What a record is read from

`Format.readMembers` goes through the members of an object with a draft in its hands. What it answers can be
said without an order (`Format.Fills`): every member names a field and gives its value, or may be skipped;
no field is named twice; and a field that is not named keeps what it had. So the members can stand in any
order (`Fills.perm`).
-/

namespace FuzzPolicy.Document

open Checks

theorem ofText_eq_ok_iff {α : Type} {x : Except TextFault α} {a : α} :
    (ofText x : Reading α) = .ok a ↔ x = .ok a := by
  cases x with
  | error fault => exact ⟨nofun, nofun⟩
  | ok b =>
    rw [ofText]
    exact ⟨fun h => congrArg _ (Except.ok.inj h), fun h => congrArg _ (Except.ok.inj h)⟩

/-- The member has the name of the field as its key. -/
def Gives {φ : Type} [Vocabulary φ] (m : Quoted × Tree) (f : φ) : Prop :=
  m.1.text = .ok (Vocabulary.name f)

theorem Gives.unique {φ : Type} [Vocabulary φ] {m : Quoted × Tree} {f g : φ} (hf : Gives m f)
    (hg : Gives m g) : f = g :=
  Vocabulary.name_injective (Except.ok.inj (hf.symm.trans hg))

namespace Format

variable {φ : Type} {format : Format φ}

section

variable [DecidableEq φ] {d : Draft format} {f g : φ} (v : format.Value f)

@[simp] theorem fill_self : format.fill d f v f = some v := by
  simp [fill]

theorem fill_of_ne (h : f ≠ g) : format.fill d f v g = d g := by
  simp [fill, h]

end

variable [Vocabulary φ] {d₀ d : Draft format} {f : φ}
  {ms ms' : List (Quoted × Tree)} {m : Quoted × Tree} {closing : Closing}

/-- What has become of a member in a draft: its field has the value that is read from it, or it is
unknown and may be skipped. -/
inductive Accounts (format : Format φ) (d : Draft format) (m : Quoted × Tree) : Prop where
  | field {f : φ} {v : format.Value f} (hf : Gives m f) (hv : format.read f m.2 = .ok v)
      (hd : d f = some v)
  | skipped {s : String} (hopen : format.closed = false) (hs : m.1.text = .ok s)
      (hunknown : Vocabulary.ofName? (α := φ) s = none) (hskip : skip m.2 = .ok ())

/-- One draft is another with the fields that members give. -/
structure Fills (format : Format φ) (ms : List (Quoted × Tree)) (d₀ d : Draft format) : Prop where
  accounts : ∀ m ∈ ms, format.Accounts d m
  once : ms.Pairwise fun m m' => ∀ f : φ, Gives m f → ¬Gives m' f
  fresh : ∀ m ∈ ms, ∀ f : φ, Gives m f → d₀ f = none
  kept : ∀ f : φ, (∀ m ∈ ms, ¬Gives m f) → d f = d₀ f

/-- The members of a record can stand in any order. -/
theorem Fills.perm (h : format.Fills ms d₀ d) (hperm : ms.Perm ms') : format.Fills ms' d₀ d := by
  refine ⟨fun m hm => h.accounts m (hperm.mem_iff.mpr hm), ?_,
    fun m hm => h.fresh m (hperm.mem_iff.mpr hm),
    fun f hf => h.kept f fun m hm => hf m (hperm.mem_iff.mp hm)⟩
  exact hperm.pairwise h.once fun hm f hf hf' => hm f hf' hf

/-- A member that gives a field gives it its value. -/
theorem Fills.value (h : format.Fills ms d₀ d) (hm : m ∈ ms) (hf : Gives m f) :
    ∃ v, format.read f m.2 = .ok v ∧ d f = some v := by
  cases h.accounts m hm with
  | field hf' hv hd =>
    obtain rfl := hf.unique hf'
    exact ⟨_, hv, hd⟩
  | skipped _ hs hunknown _ =>
    rw [hf] at hs
    obtain rfl := Except.ok.inj hs
    rw [Vocabulary.ofName?_name] at hunknown
    cases hunknown

theorem fills_nil_iff : format.Fills [] d₀ d ↔ d₀ = d := by
  constructor
  · intro h
    funext f
    exact (h.kept f (by simp)).symm
  · rintro rfl
    exact ⟨by simp, .nil, by simp, fun _ _ => rfl⟩

/-- A member that gives no field must be one that may be skipped. -/
theorem fills_cons_unknown_iff {s : String} (hs : m.1.text = .ok s)
    (hunknown : Vocabulary.ofName? (α := φ) s = none) :
    format.Fills (m :: ms) d₀ d ↔
      format.closed = false ∧ skip m.2 = .ok () ∧ format.Fills ms d₀ d := by
  have hnot (f : φ) : ¬Gives m f := by
    intro hf
    rw [hf] at hs
    obtain rfl := Except.ok.inj hs
    rw [Vocabulary.ofName?_name] at hunknown
    cases hunknown
  constructor
  · intro h
    cases h.accounts m List.mem_cons_self with
    | field hf => exact absurd hf (hnot _)
    | skipped hopen _ _ hskip =>
      refine ⟨hopen, hskip, fun m' hm' => h.accounts m' (List.mem_cons_of_mem _ hm'),
        h.once.of_cons, fun m' hm' => h.fresh m' (List.mem_cons_of_mem _ hm'), fun g hg => ?_⟩
      exact h.kept g (List.forall_mem_cons.mpr ⟨hnot g, hg⟩)
  · rintro ⟨hopen, hskip, h⟩
    refine ⟨List.forall_mem_cons.mpr ⟨.skipped hopen hs hunknown hskip, h.accounts⟩,
      List.pairwise_cons.mpr ⟨fun _ _ g hg => absurd hg (hnot g), h.once⟩,
      List.forall_mem_cons.mpr ⟨fun g hg => absurd hg (hnot g), h.fresh⟩, fun g hg => ?_⟩
    exact h.kept g fun m' hm' => hg m' (List.mem_cons_of_mem _ hm')

/-- The key of a member of a record has a text. -/
theorem Accounts.text (h : format.Accounts d m) : ∃ s, m.1.text = .ok s := by
  cases h with
  | field hf => exact ⟨_, hf⟩
  | skipped _ hs => exact ⟨_, hs⟩

variable [DecidableEq φ]

/-- A member that gives a field must be the only one that does. -/
theorem fills_cons_iff (hf : Gives m f) :
    format.Fills (m :: ms) d₀ d ↔
      d₀ f = none ∧ ∃ v, format.read f m.2 = .ok v ∧ format.Fills ms (format.fill d₀ f v) d := by
  constructor
  · intro h
    have hnew : d₀ f = none := h.fresh m List.mem_cons_self f hf
    obtain ⟨honce, htail⟩ := List.pairwise_cons.mp h.once
    obtain ⟨v, hv, hd⟩ := h.value List.mem_cons_self hf
    refine ⟨hnew, v, hv, fun m' hm' => h.accounts m' (List.mem_cons_of_mem _ hm'), htail, ?_, ?_⟩
    · intro m' hm' g hg
      have hne : f ≠ g := by
        rintro rfl
        exact honce m' hm' f hf hg
      rw [fill_of_ne v hne]
      exact h.fresh m' (List.mem_cons_of_mem _ hm') g hg
    · intro g hg
      by_cases hne : f = g
      · subst hne
        rw [fill_self, hd]
      · rw [fill_of_ne v hne]
        exact h.kept g (List.forall_mem_cons.mpr ⟨fun hm => hne (hf.unique hm), hg⟩)
  · rintro ⟨hnew, v, hv, h⟩
    have hother (m') (hm' : m' ∈ ms) : ¬Gives m' f := by
      intro hg
      have hnone := h.fresh m' hm' f hg
      rw [fill_self] at hnone
      cases hnone
    have hd : d f = some v := (h.kept f hother).trans (fill_self v)
    refine ⟨List.forall_mem_cons.mpr ⟨.field hf hv hd, h.accounts⟩,
      List.pairwise_cons.mpr ⟨?_, h.once⟩, List.forall_mem_cons.mpr ⟨?_, ?_⟩, ?_⟩
    · intro m' hm' g hg hg'
      obtain rfl := hf.unique hg
      exact hother m' hm' hg'
    · intro g hg
      obtain rfl := hf.unique hg
      exact hnew
    · intro m' hm' g hg
      have hnone := h.fresh m' hm' g hg
      by_cases hne : f = g
      · subst hne
        exact hnew
      · rwa [fill_of_ne v hne] at hnone
    · intro g hg
      have hne : f ≠ g := by
        rintro rfl
        exact hg m List.mem_cons_self hf
      rw [h.kept g fun m' hm' => hg m' (List.mem_cons_of_mem _ hm'), fill_of_ne v hne]

/-- **Members are read as a set.** The members of an object are accepted exactly if the object is closed and
they fill the draft. -/
theorem readMembers_eq_ok_iff :
    format.readMembers closing ms d₀ = .ok d ↔ closing.check = .ok () ∧ format.Fills ms d₀ d := by
  induction ms generalizing d₀ with
  | nil =>
    rw [readMembers, bind_eq_ok_iff, fills_nil_iff]
    constructor
    · rintro ⟨_, hclosing, hd⟩
      exact ⟨ofText_eq_ok_iff.mp hclosing, Except.ok.inj hd⟩
    · rintro ⟨hclosing, rfl⟩
      exact ⟨(), ofText_eq_ok_iff.mpr hclosing, rfl⟩
  | cons m ms ih =>
    obtain ⟨key, t⟩ := m
    rw [readMembers]
    -- The key has no text, or names nothing, or a field that is filled already, or a new one.
    cases hs : key.text with
    | error fault =>
      refine ⟨nofun, fun ⟨_, h⟩ => ?_⟩
      obtain ⟨s, hs'⟩ := (h.accounts _ List.mem_cons_self).text
      cases hs.symm.trans hs'
    | ok s =>
      rw [bind_of_ok (ofText_eq_ok_iff.mpr rfl)]
      cases hname : Vocabulary.ofName? (α := φ) s with
      | none =>
        rw [fills_cons_unknown_iff hs hname]
        cases hclosed : format.closed with
        | true =>
          refine ⟨nofun, fun ⟨_, h, _⟩ => ?_⟩
          cases h
        | false =>
          show (ofText (skip t) >>= fun _ => format.readMembers closing ms d₀) = .ok d ↔ _
          rw [bind_eq_ok_iff]
          constructor
          · rintro ⟨_, hskip, hrest⟩
            obtain ⟨hclosing, hfills⟩ := ih.mp hrest
            exact ⟨hclosing, rfl, ofText_eq_ok_iff.mp hskip, hfills⟩
          · rintro ⟨hclosing, -, hskip, hfills⟩
            exact ⟨(), ofText_eq_ok_iff.mpr hskip, ih.mpr ⟨hclosing, hfills⟩⟩
      | some f =>
        have hf : Gives (key, t) f := by
          rw [Gives, Vocabulary.name_eq_of_ofName?_eq_some hname]
          exact hs
        rw [fills_cons_iff hf]
        cases hd : d₀ f with
        | some v =>
          refine ⟨fun h => ?_, fun ⟨_, h, _⟩ => ?_⟩
          · simp only [hd, Option.isSome_some, ↓reduceIte] at h
            cases h
          · cases h
        | none =>
          simp only [hd, Option.isSome_none, Bool.false_eq_true, ↓reduceIte]
          rw [bind_eq_ok_iff]
          constructor
          · rintro ⟨v, hv, hrest⟩
            obtain ⟨hclosing, hfills⟩ := ih.mp hrest
            exact ⟨hclosing, trivial, v, hv, hfills⟩
          · rintro ⟨hclosing, -, v, hv, hfills⟩
            exact ⟨v, hv, ih.mpr ⟨hclosing, hfills⟩⟩

end Format

end FuzzPolicy.Document
