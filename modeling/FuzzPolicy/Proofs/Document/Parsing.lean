import FuzzPolicy.Proofs.Document.Grammar

/-!
# What the grammar derives is parsed

`parse_of_writes`: the tree that a text writes is the one that `parse` makes of it, and nothing but
blanks follows. So a text writes at most one tree.

A number is the one token whose end does not show in its own characters: the scanner goes on as long as
digits, a point or an exponent follow. In the grammar nothing of that kind can follow a value (`Ends`).
The step bound of the parser is met because every step of it takes a token.
-/

namespace FuzzPolicy.Document

/-! ### Numbers -/

/-- A text that does not go on with a number. -/
def Ends (cs : List Char) : Prop :=
  ∀ c ∈ cs.head?, c.isDigit = false ∧ c ≠ '.' ∧ c ≠ 'e' ∧ c ≠ 'E'

section

variable {ds rest : List Char} {negative : Bool} {whole fraction : List Char}

/-- The digits before something else are split off. -/
theorem takeWhile_digits (hd : ∀ c ∈ ds, c.isDigit) (hr : ∀ c ∈ rest.head?, c.isDigit = false) :
    (ds ++ rest).takeWhile Char.isDigit = ds := by
  rw [List.takeWhile_append_of_pos hd]
  cases rest with
  | nil => simp
  | cons c cs => simp [hr c rfl]

theorem dropWhile_digits (hd : ∀ c ∈ ds, c.isDigit) (hr : ∀ c ∈ rest.head?, c.isDigit = false) :
    (ds ++ rest).dropWhile Char.isDigit = rest := by
  rw [List.dropWhile_append_of_pos hd]
  cases rest with
  | nil => rfl
  | cons c cs => simp [hr c rfl]

theorem IsDigits.exists_cons (h : IsDigits ds) : ∃ d ds', ds = d :: ds' ∧ d.isDigit = true := by
  obtain ⟨d, ds', rfl⟩ := List.exists_cons_of_ne_nil h.ne_nil
  exact ⟨d, ds', rfl, h.isDigit d List.mem_cons_self⟩

theorem exponentSign_digits (h : IsDigits ds) : exponentSign (ds ++ rest) = (false, ds ++ rest) := by
  obtain ⟨d, ds', rfl, hd⟩ := h.exists_cons
  rw [List.cons_append, exponentSign]
  · rintro cs ⟨rfl, -⟩
    cases hd
  · rintro cs ⟨rfl, -⟩
    cases hd

/-- An exponent whose sign, if it has one, is told from the digits behind it. -/
theorem numberExponent_sign {e : Char} {cs : List Char} {minus : Bool} (he : e = 'e' ∨ e = 'E')
    (hs : exponentSign cs = (minus, ds ++ rest)) (h : IsDigits ds) (hr : Ends rest) :
    numberExponent negative whole fraction (e :: cs) =
      (.number ⟨negative, whole, fraction, some ⟨minus, ds⟩⟩, rest) := by
  have htake := takeWhile_digits h.isDigit fun c hc => (hr c hc).1
  have hdrop := dropWhile_digits h.isDigit fun c hc => (hr c hc).1
  obtain ⟨d, ds', rfl, hd⟩ := h.exists_cons
  rw [List.cons_append] at hs htake hdrop
  simp [numberExponent, he, hs, htake, hdrop]

theorem numberExponent_spelled (negative : Bool) (whole fraction : List Char)
    {e : Option Numeral.Exponent} {tok : Token}
    (h : SpellsExponent e tok) (hr : Ends rest) :
    numberExponent negative whole fraction (tok ++ rest) =
      (.number ⟨negative, whole, fraction, e⟩, rest) := by
  cases h with
  | none =>
    cases rest with
    | nil => rfl
    | cons c cs =>
      obtain ⟨-, -, he, hE⟩ := hr c rfl
      simp [numberExponent, he, hE]
  | plain he h => exact numberExponent_sign he (exponentSign_digits h) h hr
  | plus he h => exact numberExponent_sign he rfl h hr
  | minus he h => exact numberExponent_sign he rfl h hr

/-- Neither digits nor a point go on in an exponent or behind the number. -/
theorem SpellsExponent.head_append {e : Option Numeral.Exponent} {tok : Token}
    (h : SpellsExponent e tok) (hr : Ends rest) :
    ∀ c ∈ (tok ++ rest).head?, c.isDigit = false ∧ c ≠ '.' := by
  have hletter : ∀ c : Char, c = 'e' ∨ c = 'E' → c.isDigit = false ∧ c ≠ '.' := by
    rintro c (rfl | rfl) <;> decide
  cases h with
  | none => exact fun c hc => ⟨(hr c hc).1, (hr c hc).2.1⟩
  | plain he h | plus he h | minus he h =>
    rintro c ⟨rfl⟩
    exact hletter _ he

theorem numberFraction_spelled (negative : Bool) (whole : List Char)
    {e : Option Numeral.Exponent} {point exponent : Token}
    (hf : SpellsFraction fraction point) (he : SpellsExponent e exponent) (hr : Ends rest) :
    numberFraction negative whole (point ++ (exponent ++ rest)) =
      (.number ⟨negative, whole, fraction, e⟩, rest) := by
  have hhead := he.head_append hr
  have hexp := numberExponent_spelled negative whole fraction he hr
  cases hf with
  | none =>
    rw [List.nil_append, numberFraction, hexp]
    intro cs hcs
    exact (hhead '.' (by simp [hcs])).2 rfl
  | point h =>
    have htake := takeWhile_digits h.isDigit fun c hc => (hhead c hc).1
    have hdrop := dropWhile_digits h.isDigit fun c hc => (hhead c hc).1
    obtain ⟨d, ds', rfl, hd⟩ := h.exists_cons
    rw [List.cons_append] at htake hdrop
    simp [numberFraction, htake, hdrop, hexp]

theorem SpellsFraction.head_append {e : Option Numeral.Exponent} {point exponent : Token}
    (hf : SpellsFraction fraction point) (he : SpellsExponent e exponent) (hr : Ends rest) :
    ∀ c ∈ (point ++ (exponent ++ rest)).head?, c.isDigit = false := by
  cases hf with
  | none => exact fun c hc => (he.head_append hr c hc).1
  | point h =>
    rintro c ⟨rfl⟩
    rfl

theorem SpellsMagnitude.exists_cons {n : Numeral} {tok : Token} (h : SpellsMagnitude n tok) :
    ∃ d ds, tok = d :: ds ∧ d.isDigit = true := by
  obtain ⟨hw, _, _⟩ := h
  obtain ⟨d, ds, hwhole, hd⟩ := hw.toIsDigits.exists_cons
  rw [hwhole]
  exact ⟨d, _, rfl, hd⟩

theorem number_spelled {n : Numeral} {tok : Token} (h : SpellsMagnitude n tok) (hr : Ends rest) :
    number n.negative (tok ++ rest) = (.number n, rest) := by
  obtain ⟨negative, whole, fraction, e⟩ := n
  cases h with
  | @intro point exponent hw hf he =>
  dsimp only at hw hf he ⊢
  have hafter := numberFraction_spelled negative whole hf he hr
  have hhead := hf.head_append he hr
  rw [List.append_assoc, List.append_assoc]
  by_cases hzero : whole = ['0']
  · subst hzero
    generalize point ++ (exponent ++ rest) = after at hafter hhead
    cases after with
    | nil => simpa [number] using hafter
    | cons c cs => simpa [number, hhead c rfl] using hafter
  · have htake := takeWhile_digits hw.isDigit hhead
    have hdrop := dropWhile_digits hw.isDigit hhead
    obtain ⟨d, ds', rfl, hd⟩ := hw.toIsDigits.exists_cons
    have hd0 : d ≠ '0' := by
      rintro rfl
      exact hzero (hw.eq_zero rfl)
    rw [List.cons_append] at htake hdrop ⊢
    rw [number]
    · simp [htake, hdrop, hafter]
    · simp
    · rintro cs ⟨rfl, -⟩
      exact hd0 rfl

end

/-! ### Strings -/

theorem quoted_piece {p : Piece} {tok : Token} (h : SpellsPiece p tok) (rest : List Char) :
    quoted (tok ++ rest) = ((quoted rest).1.cons p, (quoted rest).2) := by
  cases h with
  | @plain c h =>
    have hc : c ≠ '"' ∧ c ≠ '\\' ∧ 0x20 ≤ c.toNat := by simpa [isPlain, and_assoc] using h
    obtain ⟨hquote, hslash, hprints⟩ := hc
    rw [List.cons_append, List.nil_append, quoted]
    · simp [Nat.not_lt.mpr hprints]
    all_goals grind
  | @short e c h =>
    have hu : e ≠ 'u' := by
      rintro rfl
      cases h
    rw [List.cons_append, List.cons_append, List.nil_append, quoted]
    · simp [h]
    all_goals grind
  | unit h => simp [quoted, h]

theorem quoted_pieces {ps : List Piece} {tok : Token} (h : SpellsPieces ps tok)
    (rest : List Char) : quoted (tok ++ rest) = (⟨ps, .closed⟩, rest) := by
  induction h with
  | nil => simp [quoted]
  | cons h _ ih =>
    rw [List.append_assoc, quoted_piece h, ih]
    rfl

theorem SpellsString.quoted_append {q : Quoted} {tok : Token} (h : SpellsString q tok) :
    ∃ cs, tok = '"' :: cs ∧ ∀ rest, quoted (cs ++ rest) = (q, rest) := by
  obtain ⟨pieces, ending⟩ := q
  cases h with
  | intro hc h =>
    dsimp only at hc h
    subst hc
    exact ⟨_, rfl, quoted_pieces h⟩

/-! ### Values -/

/-- What may follow a value. -/
def Stops (toks : List Token) : Prop :=
  ∀ tok ∈ toks.head?, tok = [','] ∨ tok = [']'] ∨ tok = ['}']

theorem Stops.ends {toks : List Token} {cs : List Char} (h : Stops toks) (hl : Laid toks cs) :
    Ends cs := by
  have hblank : ∀ c : Char, isBlank c → c.isDigit = false ∧ c ≠ '.' ∧ c ≠ 'e' ∧ c ≠ 'E' := by
    intro c hc
    have hc : ((c = ' ' ∨ c = '\n') ∨ c = '\t') ∨ c = '\r' := by simpa [isBlank] using hc
    obtain ((rfl | rfl) | rfl) | rfl := hc <;> decide
  intro c hc
  cases hl with
  | nil hb => exact hblank c (hb c (List.mem_of_mem_head? hc))
  | @cons blanks tok toks rest hb hs =>
    cases blanks with
    | cons b bs =>
      obtain rfl : b = c := by simpa using hc
      exact hblank b (hb b List.mem_cons_self)
    | nil =>
      have htok := h tok rfl
      obtain rfl | rfl | rfl := htok
      all_goals
        obtain rfl := Option.some.inj hc
        decide

theorem ne_of_isDigit {c d : Char} (hc : c.isDigit = true) (hd : d.isDigit = false) : c ≠ d := by
  rintro rfl
  rw [hc] at hd
  cases hd

theorem isBlank_of_isDigit {c : Char} (hc : c.isDigit = true) : isBlank c = false := by
  have hne {d : Char} (hd : d.isDigit = false) : c ≠ d := ne_of_isDigit hc hd
  simp [isBlank, hne (d := ' ') rfl, hne (d := '\n') rfl, hne (d := '\t') rfl,
    hne (d := '\r') rfl]

/-- No phrase begins with a blank or a closing bracket. -/
theorem Spells.head {p : Phrase} {toks : List Token} (h : Spells p toks) :
    ∃ c tail more, toks = (c :: tail) :: more ∧ isBlank c = false ∧ c ≠ ']' ∧ c ≠ '}' := by
  induction h with
  | null | yes | no | emptyArray | array | emptyObject | object =>
    exact ⟨_, _, _, rfl, by decide, by decide, by decide⟩
  | number h =>
    cases h with
    | minus => exact ⟨_, _, _, rfl, by decide, by decide, by decide⟩
    | plain _ h =>
      obtain ⟨d, ds, rfl, hd⟩ := h.exists_cons
      exact ⟨d, _, _, rfl, isBlank_of_isDigit hd, ne_of_isDigit hd rfl, ne_of_isDigit hd rfl⟩
  | string h | lastMember h | member h =>
    cases h
    exact ⟨_, _, _, rfl, by decide, by decide, by decide⟩
  | lastItem h ih | item h hs ih =>
    obtain ⟨c, tail, more, rfl, hc⟩ := ih
    exact ⟨c, tail, _, rfl, hc⟩

/-- There is a step for the first token. -/
theorem Spells.exists_step {p : Phrase} {toks : List Token} (h : Spells p toks) {n : Nat}
    (hn : toks.length ≤ n) : ∃ m, n = m + 1 := by
  obtain ⟨_, _, _, rfl, -⟩ := h.head
  exact Nat.exists_eq_add_one.mpr (Nat.lt_of_lt_of_le (Nat.succ_pos _) hn)

/-- What the parser does where a phrase stands, `more` being the tokens behind it. Members are parsed from
behind the quote that opens their first key. -/
def Parsed (n : Nat) (cs : List Char) (more : List Token) : Phrase → Prop
  | .value t => Stops more → ∃ rest, value n cs = (t, rest) ∧ Laid more rest
  | .items ts => ∃ rest, items n cs = (ts, .closed, rest) ∧ Laid more rest
  | .members ms =>
    ∃ r rest, skipBlanks cs = '"' :: r ∧ members n r = (ms, .closed, rest) ∧ Laid more rest

theorem stops_cons {tok : Token} {toks : List Token}
    (h : tok = [','] ∨ tok = [']'] ∨ tok = ['}']) : Stops (tok :: toks) := by
  rintro _ ⟨rfl⟩
  exact h

theorem wordTree_append (tree : Tree) (kind : Unfinished) (letters rest : List Char) :
    wordTree tree kind letters (letters ++ rest) = (tree, rest) := by
  have hword : word letters (letters ++ rest) = .ok rest := by
    induction letters with
    | nil => cases rest <;> rfl
    | cons c cs ih => simpa [word] using ih
  simp [wordTree, hword]

/-- A digit leads to a number without sign. -/
theorem value_digit {n : Nat} {c : Char} {cs r : List Char} (hd : c.isDigit = true)
    (hcs : skipBlanks cs = c :: r) : value (n + 1) cs = number false (c :: r) := by
  have hne {d : Char} (h : d.isDigit = false) : c ≠ d := ne_of_isDigit hd h
  rw [value, hcs]
  simp [hd, hne (d := 'n') rfl, hne (d := 't') rfl, hne (d := 'f') rfl, hne (d := '"') rfl,
    hne (d := '-') rfl, hne (d := '[') rfl, hne (d := '{') rfl]

/-- **Completeness.** With a step for every token, the parser makes out the phrase that is written. -/
theorem Spells.parsed {p : Phrase} {toks : List Token} (h : Spells p toks) {n : Nat}
    {more : List Token} {cs : List Char} (hn : toks.length ≤ n) (hl : Laid (toks ++ more) cs) :
    Parsed n cs more p := by
  -- On the derivation. What stands behind a part is `more` for it, and its tokens are fewer.
  induction h generalizing n more cs with
  | null | yes | no =>
    intro _
    obtain ⟨n, rfl⟩ := Nat.exists_eq_add_one.mpr hn
    obtain ⟨rest, hcs, hrest⟩ := hl.skipBlanks_cons (by decide)
    refine ⟨rest, ?_, hrest⟩
    simp only [value, hcs]
    exact wordTree_append _ _ _ _
  | @number x tok h =>
    intro hstops
    obtain ⟨n, rfl⟩ := Nat.exists_eq_add_one.mpr hn
    cases h with
    | minus hx h =>
      obtain ⟨rest, hcs, hrest⟩ := hl.skipBlanks_cons (by decide)
      refine ⟨rest, ?_, hrest⟩
      simp only [value, hcs]
      rw [← hx]
      exact number_spelled h (hstops.ends hrest)
    | plain hx h =>
      obtain ⟨d, ds, rfl, hd⟩ := h.exists_cons
      obtain ⟨rest, hcs, hrest⟩ := hl.skipBlanks_cons (isBlank_of_isDigit hd)
      refine ⟨rest, ?_, hrest⟩
      rw [value_digit hd hcs, ← hx]
      exact number_spelled h (hstops.ends hrest)
  | string h =>
    intro _
    obtain ⟨n, rfl⟩ := Nat.exists_eq_add_one.mpr hn
    obtain ⟨body, rfl, hquoted⟩ := h.quoted_append
    obtain ⟨rest, hcs, hrest⟩ := hl.skipBlanks_cons (by decide)
    refine ⟨rest, ?_, hrest⟩
    simp only [value, hcs, hquoted]
  | emptyArray | emptyObject =>
    intro _
    obtain ⟨n, rfl⟩ := Nat.exists_eq_add_one.mpr (Nat.lt_of_lt_of_le Nat.zero_lt_two hn)
    obtain ⟨r, hcs, hr⟩ := hl.skipBlanks_cons (by decide)
    obtain ⟨rest, hr, hrest⟩ := hr.skipBlanks_cons (by decide)
    refine ⟨rest, ?_, hrest⟩
    simp only [value, hcs, List.nil_append, hr]
  | array h ih =>
    intro _
    obtain ⟨n, rfl⟩ := (Spells.array h).exists_step hn
    obtain ⟨r, hcs, hr⟩ := hl.skipBlanks_cons (by decide)
    obtain ⟨c, tail, _, rfl, hblank, hc, -⟩ := h.head
    obtain ⟨rest, hitems, hrest⟩ := ih (Nat.le_of_succ_le_succ hn) (hr.skipped hblank)
    obtain ⟨r', hr, -⟩ := hr.skipBlanks_cons hblank
    refine ⟨rest, ?_, hrest⟩
    rw [hr] at hitems
    simp [value, hcs, hr, hc, hitems]
  | object h ih =>
    intro _
    obtain ⟨n, rfl⟩ := (Spells.object h).exists_step hn
    obtain ⟨r, hcs, hr⟩ := hl.skipBlanks_cons (by decide)
    obtain ⟨r', rest, hkey, hmembers, hrest⟩ := ih (Nat.le_of_succ_le_succ hn) hr
    refine ⟨rest, ?_, hrest⟩
    simp only [value, hcs, List.nil_append, hkey, hmembers]
  | lastItem h ih =>
    obtain ⟨n, rfl⟩ := (Spells.lastItem h).exists_step hn
    rw [List.append_assoc] at hl
    obtain ⟨r, hvalue, hr⟩ := ih (n := n) (by simpa using hn) hl (stops_cons (by simp))
    obtain ⟨rest, hr, hrest⟩ := hr.skipBlanks_cons (by decide)
    exact ⟨rest, by simp only [items, hvalue, hr, List.nil_append], hrest⟩
  | item h hs ih ihs =>
    obtain ⟨n, rfl⟩ := (Spells.item h hs).exists_step hn
    rw [List.append_assoc] at hl
    rw [List.length_append, List.length_cons] at hn
    obtain ⟨r, hvalue, hr⟩ := ih (n := n) (by omega) hl (stops_cons (by simp))
    obtain ⟨r', hr, hr'⟩ := hr.skipBlanks_cons (by decide)
    obtain ⟨rest, hitems, hrest⟩ := ihs (n := n) (by omega) hr'
    exact ⟨rest, by simp only [items, hvalue, hr, List.nil_append, hitems], hrest⟩
  | lastMember hk h ih =>
    obtain ⟨n, rfl⟩ := (Spells.lastMember hk h).exists_step hn
    obtain ⟨body, rfl, hquoted⟩ := hk.quoted_append
    simp only [List.cons_append, List.append_assoc] at hl
    obtain ⟨r, hcs, hr⟩ := hl.skipBlanks_cons (by decide)
    obtain ⟨r', hcolon, hr'⟩ := hr.skipBlanks_cons (by decide)
    obtain ⟨r'', hvalue, hr''⟩ := ih (n := n) (by simp at hn; omega) hr' (stops_cons (by simp))
    obtain ⟨rest, hclose, hrest⟩ := hr''.skipBlanks_cons (by decide)
    refine ⟨_, rest, hcs, ?_, hrest⟩
    simp only [members, hquoted, hcolon, List.nil_append, hvalue, hclose]
  | member hk h hs ih ihs =>
    obtain ⟨n, rfl⟩ := (Spells.member hk h hs).exists_step hn
    obtain ⟨body, rfl, hquoted⟩ := hk.quoted_append
    simp only [List.cons_append, List.append_assoc] at hl
    obtain ⟨r, hcs, hr⟩ := hl.skipBlanks_cons (by decide)
    obtain ⟨r', hcolon, hr'⟩ := hr.skipBlanks_cons (by decide)
    simp only [List.length_append, List.length_cons] at hn
    obtain ⟨r'', hvalue, hr''⟩ := ih (n := n) (by omega) hr' (stops_cons (by simp))
    obtain ⟨s, hcomma, hs⟩ := hr''.skipBlanks_cons (by decide)
    obtain ⟨s', rest, hkey, hmembers, hrest⟩ := ihs (n := n) (by omega) hs
    refine ⟨_, rest, hcs, ?_, hrest⟩
    simp only [members, hquoted, hcolon, List.nil_append, hvalue, hcomma, hkey, hmembers]

/-- A text has at least as many characters as tokens. -/
theorem Laid.length_le {toks : List Token} {cs : List Char} (h : Laid toks cs)
    (hne : ∀ tok ∈ toks, tok ≠ []) : toks.length ≤ cs.length := by
  induction h with
  | nil => exact Nat.zero_le _
  | @cons blanks tok toks cs _ _ ih =>
    have htok : 0 < tok.length := List.length_pos_iff.mpr (hne tok List.mem_cons_self)
    have hrest := ih fun t ht => hne t (List.mem_cons_of_mem tok ht)
    simp only [List.length_cons, List.length_append]
    omega

theorem Spells.ne_nil {p : Phrase} {toks : List Token} (h : Spells p toks) :
    ∀ tok ∈ toks, tok ≠ [] := by
  induction h with
  | null | yes | no | emptyArray | emptyObject => simp
  | number h =>
    cases h with
    | minus => simp
    | plain _ h =>
      obtain ⟨d, ds, rfl, -⟩ := h.exists_cons
      simp
  | string h =>
    cases h
    simp
  | array _ ih | object _ ih => exact List.forall_mem_cons.mpr ⟨by simp, ih⟩
  | lastItem _ ih => exact List.forall_mem_append.mpr ⟨ih, by simp⟩
  | item _ _ ih ihs =>
    exact List.forall_mem_append.mpr ⟨ih, List.forall_mem_cons.mpr ⟨by simp, ihs⟩⟩
  | lastMember hk _ ih =>
    cases hk
    simpa [or_imp, forall_and] using ih
  | member hk _ _ ih ihs =>
    cases hk
    simpa [or_imp, forall_and] using ⟨ih, ihs⟩

/-- The tree that a text writes is parsed, and the text is over behind it. -/
theorem parse_of_writes {t : Tree} {text : String} (h : Writes t text) : parse text = (t, false) := by
  obtain ⟨toks, hspells, hlaid⟩ := h
  have hlength := hlaid.length_le hspells.ne_nil
  have hlaid : Laid (toks ++ []) text.toList := by simpa using hlaid
  obtain ⟨rest, hvalue, hrest⟩ := hspells.parsed (n := 2 * text.toList.length + 2) (by omega) hlaid
    (by simp [Stops])
  simp [parse, hvalue, hrest.skipBlanks_nil]

end FuzzPolicy.Document
