import FuzzPolicy.Proofs.Document.Parsing
import FuzzPolicy.Proofs.Document.Parts
import FuzzPolicy.Proofs.Document.Soundness

/-!
# Readers accept sound text only

A reader stops at the first problem it meets, and what it does not look at it skips. So a tree from which a
value is read has no flaw anywhere (`Strict`), and with that the parser can be forgotten: a value is read
from a text exactly if it is read from the tree that the text writes (`readText_eq_ok_iff`).
-/

namespace FuzzPolicy.Document

open Checks

/-- The reader takes nothing from a tree that has a flaw. -/
def Strict {α : Type} (read : Tree → Reading α) : Prop :=
  ∀ t a, read t = .ok a → Sound t

/-! ### Single values -/

theorem strict_readCount : Strict readCount := by
  intro t a h
  cases t with
  | number n => rfl
  | _ => exact absurd h mismatch_ne_ok

theorem strict_readFloat : Strict readFloat := by
  intro t a h
  cases t with
  | number n => rfl
  | _ => exact absurd h mismatch_ne_ok

theorem strict_readBool : Strict readBool := by
  intro t a h
  cases t with
  | bool b => rfl
  | _ => exact absurd h mismatch_ne_ok

theorem strict_readUnit : Strict readUnit := by
  intro t a h
  cases t with
  | null => rfl
  | _ => exact absurd h mismatch_ne_ok

/-- Pieces have a text only if the string is closed behind them. -/
theorem Quoted.check_of_charsOf {ending : Ending} {ps : List Piece} {cs : List Char}
    (h : charsOf ending ps = .ok cs) : ending.check = .ok () := by
  fun_induction charsOf ending ps generalizing cs with
  | case1 =>
    obtain ⟨_, hcheck, -⟩ := bind_eq_ok_iff.mp h
    exact hcheck
  | case2 c ps ih | case3 u _ v ps _ ih | case9 u ps _ _ ih =>
    obtain ⟨_, hrest, -⟩ := bind_eq_ok_iff.mp h
    exact ih hrest
  | case4 | case5 | case6 | case7 | case8 => cases h

theorem Quoted.check_of_text {q : Quoted} {s : String} (h : q.text = .ok s) :
    q.ending.check = .ok () := by
  obtain ⟨_, hchars, -⟩ := bind_eq_ok_iff.mp h
  exact check_of_charsOf hchars

section

variable {α : Type} [Vocabulary α]

theorem strict_readVariant : Strict (readVariant (α := α)) := by
  intro t a h
  unfold readVariant at h
  split at h
  · next q =>
    obtain ⟨s, hs, -⟩ := bind_eq_ok_iff.mp h
    exact q.check_of_text (ofText_eq_ok_iff.mp hs)
  · next key v more closing =>
    obtain ⟨s, hs, h⟩ := bind_eq_ok_iff.mp h
    obtain ⟨a', -, h⟩ := bind_eq_ok_iff.mp h
    obtain ⟨u, hu, h⟩ := bind_eq_ok_iff.mp h
    have hkey := key.check_of_text (ofText_eq_ok_iff.mp hs)
    split at h
    · show skipMembers .closed [(key, v)] = .ok ()
      exact seq_eq_ok_iff.mpr ⟨hkey, seq_eq_ok_iff.mpr ⟨strict_readUnit v u hu, rfl⟩⟩
    · cases h
    · cases h
  · cases h
  · cases h
  · cases h

end

variable {α : Type} {read : Tree → Reading α}

theorem strict_readOption (h : Strict read) : Strict (readOption read) := by
  intro t a hread
  unfold readOption at hread
  split at hread
  · rfl
  · cases hread
  · obtain ⟨v, hv, -⟩ := bind_eq_ok_iff.mp hread
    exact h t v hv

theorem strict_readList (h : Strict read) : Strict (readList read) := by
  intro t as hread
  obtain ⟨ts, rfl, hitems⟩ := readList_eq_ok_iff.mp hread
  show skipItems .closed ts = .ok ()
  clear hread
  induction hitems with
  | nil => rfl
  | cons ht _ ih => exact seq_eq_ok_iff.mpr ⟨h _ _ ht, ih⟩

/-! ### Records -/

namespace Format

variable {φ : Type} {format : Format φ}

theorem skipItems_of_readItems [DecidableEq φ] (h : ∀ f, Strict (format.read f)) {closing : Closing}
    {fs : List φ} {ts : List Tree} {d₀ d : Draft format}
    (hread : format.readItems closing fs ts d₀ = .ok d) :
    skipItems closing ts = .ok () := by
  induction ts generalizing fs d₀ with
  | nil =>
    cases fs <;>
    · obtain ⟨_, hclosing, -⟩ := bind_eq_ok_iff.mp hread
      exact ofText_eq_ok_iff.mp hclosing
  | cons t ts ih =>
    cases fs with
    | nil => cases hread
    | cons f fs =>
      obtain ⟨v, hv, hread⟩ := bind_eq_ok_iff.mp hread
      exact seq_eq_ok_iff.mpr ⟨h f t v hv, ih hread⟩

variable [Vocabulary φ]

theorem Accounts.skip (h : ∀ f, Strict (format.read f)) {d : Draft format} {m : Quoted × Tree}
    (hm : format.Accounts d m) : m.1.ending.check = .ok () ∧ Document.skip m.2 = .ok () := by
  cases hm with
  | field hf hv => exact ⟨m.1.check_of_text hf, h _ _ _ hv⟩
  | skipped _ hs _ hskip => exact ⟨m.1.check_of_text hs, hskip⟩

variable [DecidableEq φ]

theorem skipMembers_of_readMembers (h : ∀ f, Strict (format.read f)) {closing : Closing}
    {ms : List (Quoted × Tree)} {d₀ d : Draft format}
    (hread : format.readMembers closing ms d₀ = .ok d) : skipMembers closing ms = .ok () := by
  obtain ⟨hclosing, hfills⟩ := readMembers_eq_ok_iff.mp hread
  have hms := hfills.accounts
  clear hread hfills
  induction ms with
  | nil => exact hclosing
  | cons m ms ih =>
    obtain ⟨hm, hms⟩ := List.forall_mem_cons.mp hms
    obtain ⟨hkey, hvalue⟩ := hm.skip h
    exact seq_eq_ok_iff.mpr ⟨hkey, seq_eq_ok_iff.mpr ⟨hvalue, ih hms⟩⟩

theorem strict_readDraft (h : ∀ f, Strict (format.read f)) : Strict format.readDraft := by
  intro t d hread
  cases t with
  | array ts closing => exact skipItems_of_readItems h hread
  | object ms closing => exact skipMembers_of_readMembers h hread
  | _ => exact absurd hread mismatch_ne_ok

theorem strict_readWhole (h : ∀ f, Strict (format.read f)) : Strict format.readWhole := by
  intro t values hread
  obtain ⟨d, hd, -⟩ := bind_eq_ok_iff.mp hread
  exact strict_readDraft h t d hd

end Format

/-! ### Whole documents -/

/-- **Only documents are read.** A strict reader takes a value from a text exactly if it takes it from the
tree that the text writes. -/
theorem readText_eq_ok_iff (h : Strict read) {text : String} {a : α} :
    readText read text = .ok a ↔ ∃ t, Writes t text ∧ read t = .ok a := by
  constructor
  · intro hread
    unfold readText at hread
    cases hparse : parse text with
    | mk t more =>
      rw [hparse] at hread
      obtain ⟨a', ha, hread⟩ := bind_eq_ok_iff.mp hread
      cases more with
      | true => cases hread
      | false =>
        obtain rfl := Except.ok.inj hread
        exact ⟨t, writes_of_parse hparse (h t a' ha), ha⟩
  · rintro ⟨t, hwrites, ha⟩
    rw [readText, parse_of_writes hwrites]
    exact bind_of_ok ha

end FuzzPolicy.Document
