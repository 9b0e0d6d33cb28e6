import FuzzPolicy.Proofs.Config.Build
import FuzzPolicy.Proofs.Config.RoundTrip

/-!
# Override documents are read faithfully

A misspelt name must not get lost. Here the configuration that is read from a text is compared with what the
text writes, key by key: `Overridden` says that the members of an object are all known, that none comes
twice, and that the values given are exactly those of the members that are not null. The values are
compared part by part: both ends of a range, and value and weight of every entry of a table.

Nothing in this depends on the order of the members, so a document can be put in another order
(`Rearranged`) and be read as the same.
-/

namespace FuzzPolicy

open Document Checks

namespace Document

/-- Whether the tree is the null that gives nothing. -/
def Tree.isNull : Tree → Bool
  | .null => true
  | _ => false

theorem Tree.not_isNull_iff {t : Tree} : (!t.isNull) = true ↔ t ≠ .null := by
  cases t <;> simp [Tree.isNull]

/-! ### Members -/

/-- Every key is a name of the vocabulary, and no two are the same. -/
structure Keyed (φ : Type) [Vocabulary φ] (ms : List (Quoted × Tree)) : Prop where
  declared : ∀ m ∈ ms, ∃ f : φ, Gives m f
  once : ms.Pairwise fun m m' => m.1.text ≠ m'.1.text

/-- The given values are those of the members that are not null. -/
structure Overridden {φ : Type} [Vocabulary φ] {V : φ → Type}
    (read : (f : φ) → Tree → Reading (V f)) (ms : List (Quoted × Tree))
    (given : (f : φ) → Option (V f)) : Prop extends Keyed φ ms where
  present : ∀ f, (given f).isSome ↔ ∃ m ∈ ms, Gives m f ∧ m.2 ≠ .null
  holds : ∀ m ∈ ms, ∀ f v, Gives m f → given f = some v → read f m.2 = .ok v

section

variable {φ : Type} [Vocabulary φ] {V : φ → Type} {read : (f : φ) → Tree → Reading (V f)}
  {ms : List (Quoted × Tree)} {given : (f : φ) → Option (V f)}

/-- As many values are given as there are members that are not null. -/
theorem Overridden.count (h : Overridden read ms given) (hall : (Vocabulary.all : List φ).Nodup) :
    ((Vocabulary.all : List φ).filter fun f => (given f).isSome).length =
      (ms.filter fun m => !m.2.isNull).length := by
  let names := ((Vocabulary.all : List φ).filter fun f => (given f).isSome).map fun f =>
    (.ok (Vocabulary.name f) : Except TextFault String)
  let keys := (ms.filter fun m => !m.2.isNull).map fun m => m.1.text
  have hnames : names.Nodup := by
    refine (hall.filter _).map fun f g hfg => ?_
    exact Vocabulary.name_injective (Except.ok.inj hfg)
  have hkeys : keys.Nodup := List.pairwise_map.mpr (h.once.filter _)
  have hperm : names.Perm keys := by
    refine (List.perm_ext_iff_of_nodup hnames hkeys).mpr fun x => ?_
    constructor
    · intro hx
      obtain ⟨f, hf, rfl⟩ := List.mem_map.mp hx
      obtain ⟨m, hm, hgives, hne⟩ := (h.present f).mp (List.mem_filter.mp hf).2
      exact List.mem_map.mpr
        ⟨m, List.mem_filter.mpr ⟨hm, Tree.not_isNull_iff.mpr hne⟩, hgives⟩
    · intro hx
      obtain ⟨m, hm, rfl⟩ := List.mem_map.mp hx
      obtain ⟨hm, hne⟩ := List.mem_filter.mp hm
      obtain ⟨f, hf⟩ := h.declared m hm
      have hsome := (h.present f).mpr ⟨m, hm, hf, Tree.not_isNull_iff.mp hne⟩
      exact List.mem_map.mpr ⟨f, List.mem_filter.mpr ⟨Vocabulary.mem_all f, hsome⟩, hf.symm⟩
  simpa [names, keys] using hperm.length_eq

end

/-! ### Other orders -/

/-- The same tree, or the same object with its members in another order. -/
inductive Reordered : Tree → Tree → Prop where
  | same (t : Tree) : Reordered t t
  | members {ms ms' : List (Quoted × Tree)} {closing : Closing} (h : ms.Perm ms') :
      Reordered (.object ms closing) (.object ms' closing)

/-- The reader does not look at the order of members. -/
def Tolerant {α : Type} (read : Tree → Reading α) : Prop :=
  ∀ t t' a, Reordered t t' → read t = .ok a → read t' = .ok a

theorem Tolerant.bind {α β : Type} {read : Tree → Reading α} (h : Tolerant read)
    (f : α → Reading β) : Tolerant fun t => read t >>= f := by
  intro t t' b hsame hread
  obtain ⟨a, ha, hf⟩ := bind_eq_ok_iff.mp hread
  exact bind_eq_ok_iff.mpr ⟨a, h t t' a hsame ha, hf⟩

theorem Rearranged.keys {ms between : List (Quoted × Tree)}
    (h : List.Forall₂ (fun m m' => m'.1 = m.1 ∧ Reordered m.2 m'.2) ms between) :
    ms.map Prod.fst = between.map Prod.fst ∧
      ∀ m' ∈ between, ∃ m ∈ ms, m'.1 = m.1 ∧ Reordered m.2 m'.2 := by
  induction h with
  | nil => exact ⟨rfl, by simp⟩
  | @cons m m' ms between hm _ ih =>
    obtain ⟨hkeys, hmem⟩ := ih
    refine ⟨by simp [hkeys, hm.1], List.forall_mem_cons.mpr ⟨⟨m, List.mem_cons_self, hm⟩, ?_⟩⟩
    intro n' hn'
    obtain ⟨n, hn, hsame⟩ := hmem n' hn'
    exact ⟨n, List.mem_cons_of_mem _ hn, hsame⟩

end Document

/-! ### Configurations -/

namespace PolicyConfig

/-- The object under a field of a document has these members, or the field is left out. -/
def Under (ms : List (Quoted × Tree)) (f : Field) (inner : List (Quoted × Tree)) : Prop :=
  (∃ m ∈ ms, Gives m f ∧ m.2 = .object inner .closed) ∨ (inner = [] ∧ ∀ m ∈ ms, ¬Gives m f)

variable {c : PolicyConfig} {ms ms' inLimits inTables : List (Quoted × Tree)}

/-- A field holds what is read from the object under it. -/
theorem Under.value {f : Field} {inner : List (Quoted × Tree)} {d : Draft format}
    (h : Under ms f inner) (hfills : format.Fills ms format.blank d) :
    (∃ v, format.read f (.object inner .closed) = .ok v ∧ d f = some v) ∨
      inner = [] ∧ d f = none := by
  rcases h with ⟨m, hm, hf, hobject⟩ | ⟨rfl, hnone⟩
  · have hvalue := hfills.value hm hf
    rw [hobject] at hvalue
    exact .inl hvalue
  · exact .inr ⟨rfl, hfills.kept f hnone⟩

end PolicyConfig

end FuzzPolicy
