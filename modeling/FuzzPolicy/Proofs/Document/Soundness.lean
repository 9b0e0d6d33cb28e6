import FuzzPolicy.Document.Value
import FuzzPolicy.Proofs.Checks
import FuzzPolicy.Proofs.Document.Grammar

/-!
# What is parsed is derived by the grammar

A tree without a flaw is the tree of a text that the grammar derives: `writes_of_parse`. That a tree has no
flaw is what `skip` looks for, so `Sound` asks that of it.

The parser is deterministic and gives a tree for any text. The statements about its parts therefore say:
if what came out has no flaw, the characters that were used up spell it.
-/

namespace FuzzPolicy.Document

open Checks

/-- The text of the tree is sound. -/
def Sound (t : Tree) : Prop :=
  skip t = .ok ()

/-! ### Numbers -/

section

variable {cs rest whole : List Char} {negative : Bool} {t : Tree}

theorem isDigits_takeWhile (cs : List Char) (h : cs.takeWhile Char.isDigit ≠ []) :
    IsDigits (cs.takeWhile Char.isDigit) :=
  ⟨h, List.all_eq_true.mp List.all_takeWhile⟩

theorem exponentSign_sound {minus : Bool} {after : List Char}
    (h : exponentSign cs = (minus, after)) :
    minus = false ∧ (cs = after ∨ cs = '+' :: after) ∨ minus = true ∧ cs = '-' :: after := by
  unfold exponentSign at h
  split at h <;> simp_all

theorem numberExponent_sound {fraction : List Char}
    (h : numberExponent negative whole fraction cs = (t, rest)) (ht : Sound t) :
    ∃ e tok, t = .number ⟨negative, whole, fraction, e⟩ ∧ SpellsExponent e tok ∧
      cs = tok ++ rest := by
  unfold numberExponent at h
  split at h
  · obtain ⟨rfl, rfl⟩ := Prod.mk.inj h
    exact ⟨none, [], rfl, .none, rfl⟩
  · next e cs' =>
    by_cases he : e = 'e' ∨ e = 'E'
    · simp only [he, ↓reduceIte, Bool.or_eq_true, decide_eq_true_eq] at h
      cases hs : exponentSign cs' with
      | mk minus after =>
        simp only [hs] at h
        cases after with
        | nil =>
          obtain ⟨rfl, rfl⟩ := Prod.mk.inj h
          cases ht
        | cons d ds =>
          simp only at h
          split at h
          · obtain ⟨rfl, rfl⟩ := Prod.mk.inj h
            cases ht
          · next hne =>
            obtain ⟨rfl, rfl⟩ := Prod.mk.inj h
            have hdigits := isDigits_takeWhile (d :: ds) (by simpa using hne)
            have hsplit := List.takeWhile_append_dropWhile (p := Char.isDigit) (l := d :: ds)
            obtain ⟨rfl, rfl | rfl⟩ | ⟨rfl, rfl⟩ := exponentSign_sound hs
            · exact ⟨_, _, rfl, .plain he hdigits, by rw [List.cons_append, hsplit]⟩
            · exact ⟨_, _, rfl, .plus he hdigits, by simp only [List.cons_append, hsplit]⟩
            · exact ⟨_, _, rfl, .minus he hdigits, by simp only [List.cons_append, hsplit]⟩
    · simp only [he, ↓reduceIte, Bool.or_eq_true, decide_eq_true_eq] at h
      obtain ⟨rfl, rfl⟩ := Prod.mk.inj h
      exact ⟨none, [], rfl, .none, rfl⟩

theorem numberFraction_sound (h : numberFraction negative whole cs = (t, rest)) (ht : Sound t) :
    ∃ fraction e point exponent, t = .number ⟨negative, whole, fraction, e⟩ ∧
      SpellsFraction fraction point ∧ SpellsExponent e exponent ∧
      cs = point ++ (exponent ++ rest) := by
  unfold numberFraction at h
  split at h
  · next cs' =>
    cases cs' with
    | nil =>
      obtain ⟨rfl, rfl⟩ := Prod.mk.inj h
      cases ht
    | cons d ds =>
      simp only at h
      split at h
      · obtain ⟨rfl, rfl⟩ := Prod.mk.inj h
        cases ht
      · next hne =>
        have hdigits := isDigits_takeWhile (d :: ds) (by simpa using hne)
        obtain ⟨e, exponent, htree, he, hcs⟩ := numberExponent_sound h ht
        refine ⟨_, e, _, exponent, htree, .point hdigits, he, ?_⟩
        rw [← hcs, List.cons_append, List.takeWhile_append_dropWhile]
  · obtain ⟨e, exponent, htree, he, hcs⟩ := numberExponent_sound h ht
    exact ⟨[], e, [], exponent, htree, .none, he, hcs⟩

/-- A number, once its whole digits are told from what follows. -/
theorem magnitude_sound (hw : IsWhole whole) (h : numberFraction negative whole cs = (t, rest))
    (ht : Sound t) :
    ∃ n tok, t = .number n ∧ n.negative = negative ∧ SpellsMagnitude n tok ∧
      whole ++ cs = tok ++ rest := by
  obtain ⟨fraction, e, point, exponent, htree, hf, he, rfl⟩ := numberFraction_sound h ht
  refine ⟨_, _, htree, rfl, .intro hw hf he, ?_⟩
  simp only [List.append_assoc]

theorem number_sound (h : number negative cs = (t, rest)) (ht : Sound t) :
    ∃ n tok, t = .number n ∧ n.negative = negative ∧ SpellsMagnitude n tok ∧ cs = tok ++ rest := by
  have hzero : IsWhole ['0'] := ⟨⟨by simp, by simp⟩, fun _ => rfl⟩
  unfold number at h
  split at h
  · obtain ⟨rfl, rfl⟩ := Prod.mk.inj h
    cases ht
  · next cs' =>
    cases cs' with
    | nil => exact magnitude_sound hzero h ht
    | cons c cs' =>
      simp only at h
      split at h
      · obtain ⟨rfl, rfl⟩ := Prod.mk.inj h
        cases ht
      · exact magnitude_sound hzero h ht
  · next hne hnotzero =>
    simp only at h
    split at h
    · obtain ⟨rfl, rfl⟩ := Prod.mk.inj h
      cases ht
    · next hdigits =>
      have hw : IsWhole (cs.takeWhile Char.isDigit) := by
        refine ⟨isDigits_takeWhile cs (by simpa using hdigits), fun hhead => ?_⟩
        cases cs with
        | nil => cases hhead
        | cons c cs' =>
          by_cases hc : c.isDigit = true
          · obtain rfl : c = '0' := by simpa [hc] using hhead
            exact absurd rfl (hnotzero cs')
          · simp [hc] at hhead
      have hnumber := magnitude_sound hw h ht
      rwa [List.takeWhile_append_dropWhile] at hnumber

end

/-! ### Words and strings -/

theorem word_sound {letters cs rest : List Char} (h : word letters cs = .ok rest) :
    cs = letters ++ rest := by
  induction letters generalizing cs with
  | nil =>
    cases cs <;> exact Except.ok.inj h
  | cons e es ih =>
    cases cs with
    | nil => cases h
    | cons c cs =>
      rw [word] at h
      split at h
      · next heq => rw [heq, ih h, List.cons_append]
      · cases h

theorem wordTree_sound {tree t : Tree} {kind : Unfinished} {letters cs rest : List Char}
    (h : wordTree tree kind letters cs = (t, rest)) (ht : Sound t) :
    t = tree ∧ cs = letters ++ rest := by
  unfold wordTree at h
  split at h <;> obtain ⟨rfl, rfl⟩ := Prod.mk.inj h
  · next hword => exact ⟨rfl, word_sound hword⟩
  · cases kind <;> cases ht
  · cases ht

theorem SpellsPiece.cons_sound {p : Piece} {tok cs rest : List Char} {q : Quoted}
    (hp : SpellsPiece p tok) (h : ∃ tok, SpellsPieces q.pieces tok ∧ cs = tok ++ rest) :
    ∃ tok', SpellsPieces (q.cons p).pieces tok' ∧ tok ++ cs = tok' ++ rest := by
  obtain ⟨tok', hq, rfl⟩ := h
  exact ⟨tok ++ tok', .cons hp hq, (List.append_assoc _ _ _).symm⟩

/-- A string that ends in a quote is spelled by the characters up to there. -/
theorem quoted_sound {cs : List Char} (h : (quoted cs).1.ending = .closed) :
    ∃ tok, SpellsPieces (quoted cs).1.pieces tok ∧ cs = tok ++ (quoted cs).2 := by
  fun_induction quoted cs with
  -- The text breaks off or goes wrong, so no quote ends the string.
  | case1 | case4 | case5 | case7 | case8 | case9 => cases h
  | case2 cs => exact ⟨['"'], .nil, rfl⟩
  | case3 a b c d cs u hu q rest hq ih =>
    rw [hq] at ih
    exact (SpellsPiece.unit hu).cons_sound (ih h)
  | case6 e cs _ _ c hc q rest hq ih =>
    rw [hq] at ih
    exact (SpellsPiece.short hc).cons_sound (ih h)
  | case10 c cs hquote _ _ hslash hlast hprints q rest hq ih =>
    have hc : isPlain c = true := by
      have hslash : c ≠ '\\' := by
        rintro rfl
        cases cs with
        | nil => exact hlast rfl rfl
        | cons e cs => exact hslash e cs rfl rfl
      have hquote : c ≠ '"' := hquote
      simp [isPlain, hquote, hslash, Nat.le_of_not_lt hprints]
    rw [hq] at ih
    exact (SpellsPiece.plain hc).cons_sound (ih h)

/-! ### Values -/

theorem Ending.eq_closed {ending : Ending} (h : ending.check = .ok ()) : ending = .closed := by
  cases ending with
  | closed => rfl
  | cut => cases h

/-- The parser is right within a number of steps: what comes out without a flaw was written. -/
structure SoundAt (n : Nat) : Prop where
  value : ∀ {cs t rest}, value n cs = (t, rest) → Sound t →
    ∃ toks, Spells (.value t) toks ∧ Covers toks cs rest
  items : ∀ {cs ts closing rest}, items n cs = (ts, closing, rest) →
    skipItems closing ts = .ok () →
      closing = .closed ∧ ∃ toks, Spells (.items ts) toks ∧ Covers toks cs rest
  members : ∀ {cs ms closing rest}, members n cs = (ms, closing, rest) →
    skipMembers closing ms = .ok () →
      closing = .closed ∧ ∃ toks, Spells (.members ms) toks ∧ Covers toks ('"' :: cs) rest

theorem value_sound {n : Nat} (hn : SoundAt n) {cs rest : List Char} {t : Tree}
    (h : value (n + 1) cs = (t, rest)) (ht : Sound t) :
    ∃ toks, Spells (.value t) toks ∧ Covers toks cs rest := by
  simp only [value] at h
  -- By the first character behind the blanks, in the order in which the parser asks for it.
  split at h
  · obtain ⟨rfl, rfl⟩ := Prod.mk.inj h
    cases ht
  · next r hr =>
    obtain ⟨rfl, rfl⟩ := wordTree_sound h ht
    exact ⟨_, .null, covers_skipped _ hr⟩
  · next r hr =>
    obtain ⟨rfl, rfl⟩ := wordTree_sound h ht
    exact ⟨_, .yes, covers_skipped _ hr⟩
  · next r hr =>
    obtain ⟨rfl, rfl⟩ := wordTree_sound h ht
    exact ⟨_, .no, covers_skipped _ hr⟩
  · next r hr =>
    obtain ⟨rfl, rfl⟩ := Prod.mk.inj h
    have hclosed := Ending.eq_closed ht
    obtain ⟨tok, hspells, hcs⟩ := quoted_sound hclosed
    exact ⟨_, .string (.intro hclosed hspells), covers_skipped _ (hr.trans (congrArg _ hcs))⟩
  · next r hr =>
    obtain ⟨x, tok, rfl, hx, hspells, rfl⟩ := number_sound h ht
    exact ⟨_, .number (.minus hx hspells), covers_skipped _ hr⟩
  · next r hr =>
    split at h
    · obtain ⟨rfl, rfl⟩ := Prod.mk.inj h
      cases ht
    · next r' hr' =>
      obtain ⟨rfl, rfl⟩ := Prod.mk.inj h
      exact ⟨_, .emptyArray, (covers_skipped ['['] hr).append (covers_skipped _ hr')⟩
    · obtain ⟨rfl, rfl⟩ := Prod.mk.inj h
      obtain ⟨hclosed, toks, hspells, hcovers⟩ := hn.items rfl ht
      rw [hclosed]
      exact ⟨_, .array hspells, (covers_skipped ['['] hr).append hcovers.of_skipBlanks⟩
  · next r hr =>
    split at h
    · obtain ⟨rfl, rfl⟩ := Prod.mk.inj h
      cases ht
    · next r' hr' =>
      obtain ⟨rfl, rfl⟩ := Prod.mk.inj h
      exact ⟨_, .emptyObject, (covers_skipped ['{'] hr).append (covers_skipped _ hr')⟩
    · next r' hr' =>
      obtain ⟨rfl, rfl⟩ := Prod.mk.inj h
      obtain ⟨hclosed, toks, hspells, hcovers⟩ := hn.members rfl ht
      rw [hclosed]
      rw [← hr'] at hcovers
      exact ⟨_, .object hspells, (covers_skipped ['{'] hr).append hcovers.of_skipBlanks⟩
    · obtain ⟨rfl, rfl⟩ := Prod.mk.inj h
      cases ht
  · next c r _ _ _ _ _ _ _ hr =>
    split at h
    · next hd =>
      obtain ⟨x, tok, rfl, hx, hspells, hcs⟩ := number_sound h ht
      exact ⟨_, .number (.plain hx hspells), covers_skipped _ (by rw [hr, hcs])⟩
    · obtain ⟨rfl, rfl⟩ := Prod.mk.inj h
      cases ht

theorem items_sound {n : Nat} (hn : SoundAt n) {cs rest : List Char} {ts : List Tree}
    {closing : Closing} (h : items (n + 1) cs = (ts, closing, rest))
    (ht : skipItems closing ts = .ok ()) :
    closing = .closed ∧ ∃ toks, Spells (.items ts) toks ∧ Covers toks cs rest := by
  cases hvalue : value n cs with
  | mk t r =>
    simp only [items, hvalue] at h
    split at h
    · cases h
      cases (seq_eq_ok_iff.mp ht).2
    · next r' hr =>
      cases h
      obtain ⟨ht, hts⟩ := seq_eq_ok_iff.mp ht
      obtain ⟨toks, hspells, hcovers⟩ := hn.value hvalue ht
      obtain ⟨hclosed, more, hspells', hcovers'⟩ := hn.items rfl hts
      exact ⟨hclosed, _, .item hspells hspells',
        hcovers.append ((covers_skipped [','] hr).append hcovers')⟩
    · next r' hr =>
      cases h
      obtain ⟨toks, hspells, hcovers⟩ := hn.value hvalue (seq_eq_ok_iff.mp ht).1
      exact ⟨rfl, _, .lastItem hspells, hcovers.append (covers_skipped _ hr)⟩
    · cases h
      cases (seq_eq_ok_iff.mp ht).2

theorem skipMembers_cons {closing : Closing} {key : Quoted} {v : Tree}
    {ms : List (Quoted × Tree)} (h : skipMembers closing ((key, v) :: ms) = .ok ()) :
    key.ending.check = .ok () ∧ skip v = .ok () ∧ skipMembers closing ms = .ok () :=
  have hkey := seq_eq_ok_iff.mp h
  have hvalue := seq_eq_ok_iff.mp hkey.2
  ⟨hkey.1, hvalue.1, hvalue.2⟩

theorem members_sound {n : Nat} (hn : SoundAt n) {cs rest : List Char}
    {ms : List (Quoted × Tree)} {closing : Closing}
    (h : members (n + 1) cs = (ms, closing, rest)) (hm : skipMembers closing ms = .ok ()) :
    closing = .closed ∧ ∃ toks, Spells (.members ms) toks ∧ Covers toks ('"' :: cs) rest := by
  cases hkey : quoted cs with
  | mk key r =>
    simp only [members, hkey] at h
    have hstring (hclosed : key.ending.check = .ok ()) :
        ∃ tok, SpellsString key tok ∧ Covers [tok] ('"' :: cs) r := by
      have hclosed := Ending.eq_closed hclosed
      have hquoted : (quoted cs).1.ending = .closed := by rw [hkey]; exact hclosed
      obtain ⟨tok, hspells, hcs⟩ := quoted_sound hquoted
      rw [hkey] at hspells hcs
      exact ⟨_, .intro hclosed hspells, covers_token _ (congrArg _ hcs)⟩
    split at h
    · cases h
      cases (skipMembers_cons hm).2.1
    · next r' hcolon =>
      cases hvalue : value n r' with
      | mk v r'' =>
        simp only [hvalue] at h
        split at h
        · cases h
          cases (skipMembers_cons hm).2.2
        · next s hcomma =>
          split at h
          · cases h
            cases (skipMembers_cons hm).2.2
          · next s' hquote =>
            cases h
            obtain ⟨hk, hv, hms⟩ := skipMembers_cons hm
            obtain ⟨tok, hspells, hcovers⟩ := hstring hk
            obtain ⟨toks, hspells', hcovers'⟩ := hn.value hvalue hv
            obtain ⟨hclosed, more, hspells'', hcovers''⟩ := hn.members rfl hms
            rw [← hquote] at hcovers''
            have hvalue := (covers_skipped [':'] hcolon).append hcovers'
            have hmore := (covers_skipped [','] hcomma).append hcovers''.of_skipBlanks
            exact ⟨hclosed, _, .member hspells hspells' hspells'',
              hcovers.append (hvalue.append hmore)⟩
          · cases h
            cases (skipMembers_cons hm).2.2
        · next s hclose =>
          cases h
          obtain ⟨hk, hv, -⟩ := skipMembers_cons hm
          obtain ⟨tok, hspells, hcovers⟩ := hstring hk
          obtain ⟨toks, hspells', hcovers'⟩ := hn.value hvalue hv
          have hvalue := (covers_skipped [':'] hcolon).append hcovers'
          exact ⟨rfl, _, .lastMember hspells hspells',
            hcovers.append (hvalue.append (covers_skipped _ hclose))⟩
        · cases h
          cases (skipMembers_cons hm).2.2
    · cases h
      cases (skipMembers_cons hm).2.1

theorem soundAt (n : Nat) : SoundAt n := by
  induction n with
  | zero =>
    constructor
    · rintro cs t rest ⟨rfl, rfl⟩ ⟨⟩
    · rintro cs ts closing rest ⟨rfl, rfl, rfl⟩ ⟨⟩
    · rintro cs ms closing rest ⟨rfl, rfl, rfl⟩ ⟨⟩
  | succ n ih => exact ⟨value_sound ih, items_sound ih, members_sound ih⟩

/-- **Soundness.** A tree without a flaw, behind which the text is over, is written there. -/
theorem writes_of_parse {t : Tree} {text : String} (h : parse text = (t, false)) (ht : Sound t) :
    Writes t text := by
  simp only [parse] at h
  cases hvalue : value (2 * text.toList.length + 2) text.toList with
  | mk tree rest =>
    rw [hvalue] at h
    obtain ⟨rfl, hend⟩ := Prod.mk.inj h
    obtain ⟨toks, hspells, hcovers⟩ := (soundAt _).value hvalue ht
    have hrest : skipBlanks rest = [] := by simpa using hend
    have hlaid : Laid [] rest := Laid.of_skipBlanks (by rw [hrest]; exact .nil (by simp))
    exact ⟨toks, hspells, by simpa using hcovers [] hlaid⟩

end FuzzPolicy.Document
