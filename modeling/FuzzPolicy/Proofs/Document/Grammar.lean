import FuzzPolicy.Document.Parser

/-!
# The grammar of documents

What a text must be to write a tree, said without a parser: `Spells` has one rule for every way to write a
value as a row of tokens, and `Laid` puts blanks between the tokens. `Writes` is both together. A tree with
a flaw in it is spelled by no tokens.

The grammar is that of JSON. Two texts with the same tokens write the same tree, and so do two texts that
only differ in how a character is escaped or in the case of a letter where both cases are allowed.

Design points:

* Strings and numbers are single tokens, so no blanks can come between their characters.
* The relation is over phrases. The rest of an array and the rest of an object are phrases of their own,
  as they are for the parser.
-/

namespace FuzzPolicy.Document

/-- The characters of a token. -/
abbrev Token := List Char

/-! ### Numbers -/

/-- A row of digits. -/
structure IsDigits (cs : Token) : Prop where
  ne_nil : cs ≠ []
  isDigit : ∀ c ∈ cs, c.isDigit

/-- How the whole digits of a number are written. -/
structure IsWhole (cs : Token) : Prop extends IsDigits cs where
  /-- No zero stands before other digits. -/
  eq_zero : cs.head? = some '0' → cs = ['0']

/-- How the digits after the point are written. -/
inductive SpellsFraction : List Char → Token → Prop where
  | none : SpellsFraction [] []
  | point {ds : List Char} (h : IsDigits ds) : SpellsFraction ds ('.' :: ds)

/-- How an exponent is written. -/
inductive SpellsExponent : Option Numeral.Exponent → Token → Prop where
  | none : SpellsExponent none []
  | plain {e : Char} {ds : List Char} (he : e = 'e' ∨ e = 'E') (h : IsDigits ds) :
      SpellsExponent (some ⟨false, ds⟩) (e :: ds)
  | plus {e : Char} {ds : List Char} (he : e = 'e' ∨ e = 'E') (h : IsDigits ds) :
      SpellsExponent (some ⟨false, ds⟩) (e :: '+' :: ds)
  | minus {e : Char} {ds : List Char} (he : e = 'e' ∨ e = 'E') (h : IsDigits ds) :
      SpellsExponent (some ⟨true, ds⟩) (e :: '-' :: ds)

/-- How a number is written behind its sign. -/
inductive SpellsMagnitude (n : Numeral) : Token → Prop where
  | intro {fraction exponent : Token} (hw : IsWhole n.whole)
      (hf : SpellsFraction n.fraction fraction) (he : SpellsExponent n.exponent exponent) :
      SpellsMagnitude n (n.whole ++ (fraction ++ exponent))

/-- How a number is written. -/
inductive SpellsNumber (n : Numeral) : Token → Prop where
  | plain {tok : Token} (hn : n.negative = false) (h : SpellsMagnitude n tok) : SpellsNumber n tok
  | minus {tok : Token} (hn : n.negative = true) (h : SpellsMagnitude n tok) :
      SpellsNumber n ('-' :: tok)

/-! ### Strings -/

/-- The characters that stand for themselves in a string. -/
def isPlain (c : Char) : Bool :=
  c ≠ '"' && c ≠ '\\' && 0x20 ≤ c.toNat

/-- How a piece of a string is written. -/
inductive SpellsPiece : Piece → Token → Prop where
  | plain {c : Char} (h : isPlain c = true) : SpellsPiece (.char c) [c]
  | short {e c : Char} (h : shortEscape e = some c) : SpellsPiece (.char c) ['\\', e]
  | unit {a b c d : Char} {u : Nat} (h : hexUnit a b c d = some u) :
      SpellsPiece (.unit u) ['\\', 'u', a, b, c, d]

/-- How a string is written behind its opening quote. -/
inductive SpellsPieces : List Piece → Token → Prop where
  | nil : SpellsPieces [] ['"']
  | cons {p : Piece} {ps : List Piece} {cs ds : Token} (h : SpellsPiece p cs)
      (hs : SpellsPieces ps ds) : SpellsPieces (p :: ps) (cs ++ ds)

/-- How a string is written. -/
inductive SpellsString (q : Quoted) : Token → Prop where
  | intro {cs : Token} (hc : q.ending = .closed) (h : SpellsPieces q.pieces cs) :
      SpellsString q ('"' :: cs)

/-! ### Values -/

/-- What stands in a document. -/
inductive Phrase where
  | value (t : Tree)
  /-- The items of an array, with the bracket that closes it. -/
  | items (ts : List Tree)
  /-- The members of an object, with the bracket that closes it. -/
  | members (ms : List (Quoted × Tree))

/-- How a phrase is written as tokens. -/
inductive Spells : Phrase → List Token → Prop where
  | null : Spells (.value .null) [['n', 'u', 'l', 'l']]
  | yes : Spells (.value (.bool true)) [['t', 'r', 'u', 'e']]
  | no : Spells (.value (.bool false)) [['f', 'a', 'l', 's', 'e']]
  | number {n : Numeral} {tok : Token} (h : SpellsNumber n tok) : Spells (.value (.number n)) [tok]
  | string {q : Quoted} {tok : Token} (h : SpellsString q tok) : Spells (.value (.string q)) [tok]
  | emptyArray : Spells (.value (.array [] .closed)) [['['], [']']]
  | array {ts : List Tree} {toks : List Token} (h : Spells (.items ts) toks) :
      Spells (.value (.array ts .closed)) (['['] :: toks)
  | emptyObject : Spells (.value (.object [] .closed)) [['{'], ['}']]
  | object {ms : List (Quoted × Tree)} {toks : List Token} (h : Spells (.members ms) toks) :
      Spells (.value (.object ms .closed)) (['{'] :: toks)
  | lastItem {t : Tree} {toks : List Token} (h : Spells (.value t) toks) :
      Spells (.items [t]) (toks ++ [[']']])
  | item {t : Tree} {ts : List Tree} {toks more : List Token} (h : Spells (.value t) toks)
      (hs : Spells (.items ts) more) : Spells (.items (t :: ts)) (toks ++ [','] :: more)
  | lastMember {key : Quoted} {t : Tree} {tok : Token} {toks : List Token}
      (hk : SpellsString key tok) (h : Spells (.value t) toks) :
      Spells (.members [(key, t)]) (tok :: [':'] :: (toks ++ [['}']]))
  | member {key : Quoted} {t : Tree} {ms : List (Quoted × Tree)} {tok : Token}
      {toks more : List Token} (hk : SpellsString key tok) (h : Spells (.value t) toks)
      (hs : Spells (.members ms) more) :
      Spells (.members ((key, t) :: ms)) (tok :: [':'] :: (toks ++ [','] :: more))

/-- The text has these tokens, with blanks before, between and behind them. -/
inductive Laid : List Token → List Char → Prop where
  | nil {blanks : List Char} (h : ∀ c ∈ blanks, isBlank c) : Laid [] blanks
  | cons {blanks : List Char} {tok : Token} {toks : List Token} {cs : List Char}
      (h : ∀ c ∈ blanks, isBlank c) (hs : Laid toks cs) :
      Laid (tok :: toks) (blanks ++ (tok ++ cs))

/-- The text writes the tree. -/
def Writes (t : Tree) (text : String) : Prop :=
  ∃ toks, Spells (.value t) toks ∧ Laid toks text.toList

/-! ### Blanks -/

theorem skipBlanks_append {blanks cs : List Char} (h : ∀ c ∈ blanks, isBlank c) :
    skipBlanks (blanks ++ cs) = skipBlanks cs := by
  simp only [skipBlanks, List.dropWhile_append_of_pos h]

theorem skipBlanks_cons {c : Char} {cs : List Char} (h : isBlank c = false) :
    skipBlanks (c :: cs) = c :: cs := by
  simp [skipBlanks, h]

/-- What is skipped is blank. -/
theorem blanks_append_skipBlanks (cs : List Char) :
    ∃ blanks, (∀ c ∈ blanks, isBlank c) ∧ blanks ++ skipBlanks cs = cs :=
  ⟨cs.takeWhile isBlank, List.all_eq_true.mp List.all_takeWhile, List.takeWhile_append_dropWhile⟩

theorem skipBlanks_eq_nil {cs : List Char} (h : ∀ c ∈ cs, isBlank c) : skipBlanks cs = [] := by
  rw [← List.append_nil cs, skipBlanks_append h]
  rfl

/-- Blanks before a text do not matter to what it is made of. -/
theorem Laid.of_skipBlanks {toks : List Token} {cs : List Char} (h : Laid toks (skipBlanks cs)) :
    Laid toks cs := by
  obtain ⟨blanks, hblanks, hcs⟩ := blanks_append_skipBlanks cs
  generalize skipBlanks cs = rest at h hcs
  subst hcs
  cases h with
  | nil hb => exact .nil fun c hc => (List.mem_append.mp hc).elim (hblanks c) (hb c)
  | cons hb hs =>
    rw [← List.append_assoc]
    exact .cons (fun c hc => (List.mem_append.mp hc).elim (hblanks c) (hb c)) hs

/-- Where a text is over, there are only blanks. -/
theorem Laid.skipBlanks_nil {cs : List Char} (h : Laid [] cs) : skipBlanks cs = [] := by
  cases h with
  | nil hb => exact skipBlanks_eq_nil hb

/-- Behind the blanks stands the first token. -/
theorem Laid.skipBlanks_cons {c : Char} {tail : Token} {toks : List Token} {cs : List Char}
    (h : Laid ((c :: tail) :: toks) cs) (hc : isBlank c = false) :
    ∃ rest, skipBlanks cs = c :: (tail ++ rest) ∧ Laid toks rest := by
  cases h with
  | @cons _ _ _ rest hb hs =>
    exact ⟨rest, by rw [skipBlanks_append hb]; exact Document.skipBlanks_cons hc, hs⟩

/-- Blanks before the first token can be left out. -/
theorem Laid.skipped {c : Char} {tail : Token} {toks : List Token} {cs : List Char}
    (h : Laid ((c :: tail) :: toks) cs) (hc : isBlank c = false) :
    Laid ((c :: tail) :: toks) (skipBlanks cs) := by
  obtain ⟨rest, hcs, hrest⟩ := h.skipBlanks_cons hc
  rw [hcs]
  exact .cons (List.forall_mem_nil _) hrest

/-- A token and what it is followed by. -/
theorem Laid.token {tok : Token} {toks : List Token} {cs : List Char} (h : Laid toks cs) :
    Laid (tok :: toks) (tok ++ cs) :=
  .cons (List.forall_mem_nil _) h

/-! ### Stretches of text -/

/-- Whatever is made of the rest, these tokens can stand before it. -/
def Covers (toks : List Token) (cs rest : List Char) : Prop :=
  ∀ more, Laid more rest → Laid (toks ++ more) cs

section

variable {toks toks' : List Token} {cs mid rest : List Char}

theorem Covers.of_skipBlanks (h : Covers toks (skipBlanks cs) rest) : Covers toks cs rest :=
  fun more hmore => (h more hmore).of_skipBlanks

theorem Covers.append (h : Covers toks cs mid) (h' : Covers toks' mid rest) :
    Covers (toks ++ toks') cs rest := by
  intro more hmore
  rw [List.append_assoc]
  exact h _ (h' more hmore)

theorem covers_token (tok : Token) (h : cs = tok ++ rest) : Covers [tok] cs rest := by
  rintro more hmore
  rw [h]
  exact hmore.token

/-- A token behind blanks. -/
theorem covers_skipped (tok : Token) (h : skipBlanks cs = tok ++ rest) : Covers [tok] cs rest :=
  (covers_token tok h).of_skipBlanks

end

end FuzzPolicy.Document
