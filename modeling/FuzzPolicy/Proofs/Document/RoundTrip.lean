import FuzzPolicy.Proofs.Document.Printing
import FuzzPolicy.Proofs.Document.Readers

/-!
# What is written is read back

A tree `Carries` a value if the tree prints and the value is read from it. There is one lemma for every
writer: it says that the tree that it makes carries the value, given as much for the parts.

For numbers there are conditions. A natural number must have 64 bits. A double must be finite, and the
numeral that is written must be read as the same double, which is not so for every double
(`Numeral.toFloat`).
-/

namespace FuzzPolicy.Document

open Checks

/-- The tree stands for the value, on paper and for the reader. -/
structure Carries {α : Type} (read : Tree → Reading α) (t : Tree) (a : α) : Prop where
  prints : Prints t
  reads : read t = .ok a

/-- Whether no name of the vocabulary has a character that must be escaped. -/
def plainNames (α : Type) [Vocabulary α] : Bool :=
  (Vocabulary.all : List α).all fun a => (Vocabulary.name a).toList.all isPlain

variable {α : Type} {read : Tree → Reading α}

theorem plainText_name [Vocabulary α] (h : plainNames α = true) (a : α) :
    PlainText (Vocabulary.name a) :=
  List.all_eq_true.mp (List.all_eq_true.mp h a (Vocabulary.mem_all a))

theorem Carries.readText (h : Strict read) {t : Tree} {a : α} (hc : Carries read t a) :
    readText read (render t) = .ok a :=
  (readText_eq_ok_iff h).mpr ⟨t, hc.prints.writes, hc.reads⟩

/-- A reader that goes on to make something of the value. -/
theorem Carries.map {β : Type} {t : Tree} {a : α} (h : Carries read t a) (f : α → β) :
    Carries (fun t => do return f (← read t)) t (f a) :=
  ⟨h.prints, bind_of_ok h.reads⟩

/-! ### Single values -/

/-- The double is finite, and the numeral that documents write for it is read as it. -/
structure ReadsBack (x : Float) : Prop where
  finite : x.isFinite = true
  same : (Numeral.ofFloat .document x).toFloat = x

theorem carries_ofCount {n : Nat} (h : n < 2 ^ 64) : Carries readCount (ofCount n) n := by
  refine ⟨prints_number (Numeral.proper_ofNat n), ?_⟩
  have hvalue : Numeral.digitsValue (Numeral.ofNat n).whole = n := Numeral.digitsValue_digitsOf n
  have hnumber : numberValue (.ofNat n) = .ok (.natural n) := by
    have hword : n < Nat.pow 2 64 := h
    simp only [numberValue, hvalue, decide_eq_true hword]
    rfl
  rw [ofCount, readCount, hnumber]
  rfl

/-- A double is never written like an integer. -/
theorem numberValue_ofFloat {x : Float} (h : ReadsBack x) :
    numberValue (.ofFloat .document x) = .ok (.real x) := by
  have hinteger : ((Numeral.ofFloat .document x).fraction.isEmpty &&
      (Numeral.ofFloat .document x).exponent.isNone) = false := by
    rcases Numeral.shows_ofFloat x with hne | hne
    · simp [hne]
    · simp [Option.isNone_eq_false_iff, Option.isSome_iff_ne_none, hne]
  simp [numberValue, hinteger, h.same, h.finite]

theorem carries_ofFloat {x : Float} (h : ReadsBack x) : Carries readFloat (ofFloat x) x := by
  rw [ofFloat, if_pos h.finite]
  refine ⟨prints_number (Numeral.proper_ofFloat .document x), ?_⟩
  rw [readFloat, numberValue_ofFloat h]
  rfl

theorem carries_bool (b : Bool) : Carries readBool (.bool b) b :=
  ⟨prints_bool b, rfl⟩

theorem text_ofText (s : String) : (Quoted.ofText s).text = .ok s := by
  have hchars (cs : List Char) : Quoted.charsOf .closed (cs.map .char) = .ok cs := by
    induction cs with
    | nil => rfl
    | cons c cs ih => rw [List.map_cons, Quoted.charsOf, ih]; rfl
  rw [Quoted.text, Quoted.ofText, hchars]
  exact congrArg _ String.ofList_toList

theorem carries_ofVariant [Vocabulary α] (h : plainNames α = true) (a : α) :
    Carries readVariant (ofVariant a) a := by
  refine ⟨prints_ofString (plainText_name h a), ?_⟩
  rw [ofVariant, ofString, readVariant, text_ofText]
  show readName (Vocabulary.name a) = _
  rw [readName, Vocabulary.ofName?_name]

/-! ### Options and lists -/

theorem carries_ofOption {write : α → Tree} {o : Option α}
    (h : ∀ a, o = some a → Carries read (write a) a ∧ write a ≠ .null) :
    Carries (readOption read) (ofOption write o) o := by
  cases o with
  | none => exact ⟨prints_null, rfl⟩
  | some a =>
    obtain ⟨⟨hprints, hread⟩, hnull⟩ := h a rfl
    refine ⟨hprints, ?_⟩
    rw [ofOption]
    unfold readOption
    split
    · next heq => exact absurd heq hnull
    · next heq =>
      rw [heq] at hprints
      obtain ⟨toks, hspells, -⟩ := hprints
      cases hspells
    · exact bind_of_ok hread

theorem carries_ofList {write : α → Tree} {as : List α}
    (h : ∀ a ∈ as, Carries read (write a) a) : Carries (readList read) (ofList write as) as := by
  constructor
  · refine prints_array fun t ht => ?_
    obtain ⟨a, ha, rfl⟩ := List.mem_map.mp ht
    exact (h a ha).prints
  · refine readList_eq_ok_iff.mpr ⟨_, rfl, ?_⟩
    rw [List.forall₂_map_left_iff, List.forall₂_same]
    exact fun a ha => (h a ha).reads

/-! ### Records -/

namespace Format

variable {φ : Type} [Vocabulary φ] [DecidableEq φ] {format : Format φ}

/-- The fields of a record can be read back in the order in which they are declared. -/
theorem carries_draft (write : φ → Tree) {v : (f : φ) → format.Value f} (hnames : plainNames φ = true)
    (hall : (Vocabulary.all : List φ).Nodup) (h : ∀ f, Carries (format.read f) (write f) (v f)) :
    Carries format.readDraft
      (ofFields ((Vocabulary.all : List φ).map fun f => (Vocabulary.name f, write f)))
      (fun f => some (v f)) := by
  have hgives (f : φ) : Gives (Quoted.ofText (Vocabulary.name f), write f) f := text_ofText _
  constructor
  · refine prints_ofFields fun m hm => ?_
    obtain ⟨f, -, rfl⟩ := List.mem_map.mp hm
    exact ⟨plainText_name hnames f, (h f).prints⟩
  · rw [ofFields, List.map_map]
    refine readMembers_eq_ok_iff.mpr ⟨rfl, ?_, ?_, fun _ _ _ _ => rfl, fun f hf => ?_⟩
    · intro m hm
      obtain ⟨f, -, rfl⟩ := List.mem_map.mp hm
      exact .field (hgives f) (h f).reads rfl
    · refine List.pairwise_map.mpr (hall.imp fun {f g} hne e he he' => hne ?_)
      exact ((hgives f).unique he).trans ((hgives g).unique he').symm
    · exact absurd (hgives f) (hf _ (List.mem_map_of_mem (Vocabulary.mem_all f)))

theorem carries_whole (write : φ → Tree) {v : (f : φ) → format.Value f} (hnames : plainNames φ = true)
    (hall : (Vocabulary.all : List φ).Nodup) (h : ∀ f, Carries (format.read f) (write f) (v f)) :
    Carries format.readWhole
      (ofFields ((Vocabulary.all : List φ).map fun f => (Vocabulary.name f, write f))) v := by
  obtain ⟨hprints, hread⟩ := carries_draft write hnames hall h
  exact ⟨hprints, readWhole_eq_ok_iff_readDraft.mpr hread⟩

end Format

end FuzzPolicy.Document
