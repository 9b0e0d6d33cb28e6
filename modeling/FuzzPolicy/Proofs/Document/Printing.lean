import FuzzPolicy.Document.Printer
import FuzzPolicy.Document.Value
import FuzzPolicy.Proofs.Document.Numerals

/-!
# What is printed is derived by the grammar

A tree `Prints` if its characters spell it. There is one lemma for every way in which a document is put
together, and `Prints.writes` says that such a tree is written by its rendering.

Not every tree prints: a control character is printed by its number, and that is another piece of a string.
The names in documents are made of plain characters.
-/

namespace FuzzPolicy.Document

/-- The characters of the tree spell it, whatever follows. -/
def Prints (t : Tree) : Prop :=
  ∃ toks, Spells (.value t) toks ∧ ∀ rest, Covers toks (t.chars ++ rest) rest

/-- The text has no character that must be escaped. -/
def PlainText (s : String) : Prop :=
  ∀ c ∈ s.toList, isPlain c

theorem Prints.writes {t : Tree} (h : Prints t) : Writes t (render t) := by
  obtain ⟨toks, hspells, hcovers⟩ := h
  have hlaid := hcovers [] [] (.nil (by simp))
  refine ⟨toks, hspells, ?_⟩
  rw [render, String.toList_ofList]
  simpa using hlaid

/-! ### Single tokens -/

theorem prints_token {t : Tree} (h : Spells (.value t) [t.chars]) : Prints t :=
  ⟨_, h, fun _ => covers_token _ rfl⟩

theorem prints_null : Prints .null :=
  prints_token .null

theorem prints_bool (b : Bool) : Prints (.bool b) := by
  cases b with
  | true => exact prints_token .yes
  | false => exact prints_token .no

theorem prints_number {n : Numeral} (h : n.Proper) : Prints (.number n) :=
  prints_token (.number h.spells)

theorem escapeChar_of_isPlain {c : Char} (h : isPlain c = true) : escapeChar c = [c] := by
  have hne {d : Char} (hd : isPlain d = false) : c ≠ d := by
    rintro rfl
    rw [h] at hd
    cases hd
  have hprints : ¬c.toNat < 0x20 := by
    simp only [isPlain, Bool.and_eq_true, decide_eq_true_eq] at h
    omega
  simp [escapeChar, hne (d := '"') rfl, hne (d := '\\') rfl, hne (d := '\x08') rfl,
    hne (d := '\x0c') rfl, hne (d := '\n') rfl, hne (d := '\r') rfl, hne (d := '\t') rfl, hprints]

theorem spells_ofText {s : String} (h : PlainText s) :
    SpellsString (.ofText s) (Quoted.ofText s).chars := by
  have hpieces (cs : List Char) (hcs : ∀ c ∈ cs, isPlain c) :
      SpellsPieces (cs.map .char) ((cs.map Piece.char).flatMap Piece.chars ++ ['"']) := by
    induction cs with
    | nil => exact .nil
    | cons c cs ih =>
      rw [List.forall_mem_cons] at hcs
      have hchar : Piece.chars (.char c) = [c] := escapeChar_of_isPlain hcs.1
      rw [List.map_cons, List.flatMap_cons, hchar, List.append_assoc]
      exact .cons (.plain hcs.1) (ih hcs.2)
  exact .intro rfl (hpieces s.toList h)

theorem prints_ofString {s : String} (h : PlainText s) : Prints (ofString s) :=
  prints_token (.string (spells_ofText h))

/-! ### Arrays and objects -/

theorem spells_items {t : Tree} {ts : List Tree} (ht : Prints t) (hts : ∀ u ∈ ts, Prints u) :
    ∃ toks, Spells (.items (t :: ts)) toks ∧
      ∀ rest, Covers toks (t.chars ++ (charsOfItems ts ++ ']' :: rest)) rest := by
  induction ts generalizing t with
  | nil =>
    obtain ⟨toks, hspells, hcovers⟩ := ht
    exact ⟨_, .lastItem hspells, fun rest =>
      (hcovers (']' :: rest)).append (covers_token [']'] rfl)⟩
  | cons u us ih =>
    rw [List.forall_mem_cons] at hts
    obtain ⟨toks, hspells, hcovers⟩ := ht
    obtain ⟨more, hmore, hcovers'⟩ := ih hts.1 hts.2
    refine ⟨_, .item hspells hmore, fun rest => ?_⟩
    have hcomma := (covers_token [','] rfl).append (hcovers' rest)
    simp only [charsOfItems, List.append_assoc, List.cons_append]
    exact (hcovers _).append hcomma

theorem prints_array {ts : List Tree} (h : ∀ t ∈ ts, Prints t) : Prints (.array ts .closed) := by
  cases ts with
  | nil =>
    exact ⟨_, .emptyArray, fun rest =>
      (covers_token ['['] rfl).append (covers_token [']'] rfl)⟩
  | cons t ts =>
    rw [List.forall_mem_cons] at h
    obtain ⟨toks, hspells, hcovers⟩ := spells_items h.1 h.2
    refine ⟨_, .array hspells, fun rest => ?_⟩
    simp only [Tree.chars, List.append_assoc, List.cons_append]
    exact (covers_token ['['] rfl).append (hcovers rest)

/-- A member whose key and value are spelled by their characters. -/
def MemberPrints (m : Quoted × Tree) : Prop :=
  SpellsString m.1 m.1.chars ∧ Prints m.2

theorem spells_members {key : Quoted} {t : Tree} {ms : List (Quoted × Tree)}
    (hkey : SpellsString key key.chars) (ht : Prints t) (hms : ∀ m ∈ ms, MemberPrints m) :
    ∃ toks, Spells (.members ((key, t) :: ms)) toks ∧
      ∀ rest, Covers toks (key.chars ++ ':' :: (t.chars ++ (charsOfMembers ms ++ '}' :: rest))) rest := by
  induction ms generalizing key t with
  | nil =>
    obtain ⟨toks, hspells, hcovers⟩ := ht
    refine ⟨_, .lastMember hkey hspells, fun rest => ?_⟩
    have hvalue := (hcovers ('}' :: rest)).append (covers_token ['}'] rfl)
    exact (covers_token _ rfl).append ((covers_token [':'] rfl).append hvalue)
  | cons m ms ih =>
    obtain ⟨key', t'⟩ := m
    rw [List.forall_mem_cons] at hms
    obtain ⟨toks, hspells, hcovers⟩ := ht
    obtain ⟨more, hmore, hcovers'⟩ := ih hms.1.1 hms.1.2 hms.2
    refine ⟨_, .member hkey hspells hmore, fun rest => ?_⟩
    have hcomma := (covers_token [','] rfl).append (hcovers' rest)
    have hvalue := (covers_token [':'] rfl).append ((hcovers _).append hcomma)
    simp only [charsOfMembers, List.append_assoc, List.cons_append]
    exact (covers_token _ rfl).append hvalue

theorem prints_object {ms : List (Quoted × Tree)} (h : ∀ m ∈ ms, MemberPrints m) :
    Prints (.object ms .closed) := by
  cases ms with
  | nil =>
    exact ⟨_, .emptyObject, fun rest =>
      (covers_token ['{'] rfl).append (covers_token ['}'] rfl)⟩
  | cons m ms =>
    obtain ⟨key, t⟩ := m
    rw [List.forall_mem_cons] at h
    obtain ⟨toks, hspells, hcovers⟩ := spells_members h.1.1 h.1.2 h.2
    refine ⟨_, .object hspells, fun rest => ?_⟩
    simp only [Tree.chars, List.append_assoc, List.cons_append]
    exact (covers_token ['{'] rfl).append (hcovers rest)

theorem prints_ofFields {fields : List (String × Tree)}
    (h : ∀ f ∈ fields, PlainText f.1 ∧ Prints f.2) : Prints (ofFields fields) := by
  refine prints_object fun m hm => ?_
  obtain ⟨f, hf, rfl⟩ := List.mem_map.mp hm
  exact ⟨spells_ofText (h f hf).1, (h f hf).2⟩

end FuzzPolicy.Document
