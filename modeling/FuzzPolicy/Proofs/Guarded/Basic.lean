import FuzzPolicy.Proofs.Random.Always

/-!
# Operations with a domain

Some operations make sense for some arguments only: no number can be drawn from a range without numbers,
a list has nothing behind its end, and nothing can be taken from a count of zero. The definitions of the
library are total and answer something there as well, so they do not show whether they are ever used
there. A guarded draw shows it. It stops with a `Misuse` where an operation is used outside its domain,
and apart from that it draws what the plain one draws.

`Guarded.ofDraw` makes a guarded draw of a plain one. It is compatible with all ways of putting draws
together, so a decision written with guarded operations is `ofDraw` of the plain decision as soon as the
arguments of each operation are in its domain: the domain is the condition of the operation's law.
-/

namespace FuzzPolicy

/-- How an operation is used outside its domain. -/
inductive Misuse where
  /-- A number is drawn from a range that has none. -/
  | emptyRange
  /-- An end of a range is no signed word. -/
  | overflow
  /-- An event has a probability that is not between zero and one. -/
  | improperChance (p : Float)
  /-- A place is looked up in a list that is too short. -/
  | outOfBounds (index length : Nat)
  /-- More is taken away than there is. -/
  | underflow (n m : Nat)
  deriving Repr

/-! ### Counts and lists -/

namespace Misuse

variable {α : Type}

/-- The difference of two counts, the smaller taken from the greater. -/
def difference (n m : Nat) : Except Misuse Nat :=
  if m ≤ n then .ok (n - m) else .error (.underflow n m)

/-- The element at a place of a list. -/
def element (xs : List α) (i : Nat) : Except Misuse α :=
  match xs[i]? with
  | some a => .ok a
  | none => .error (.outOfBounds i xs.length)

/-- The list with another element at a place. -/
def replaced (xs : List α) (i : Nat) (a : α) : Except Misuse (List α) :=
  if i < xs.length then .ok (xs.set i a) else .error (.outOfBounds i xs.length)

theorem difference_of_le {n m : Nat} (h : m ≤ n) : difference n m = .ok (n - m) :=
  if_pos h

theorem element_of_getElem? {xs : List α} {i : Nat} {a : α} (h : xs[i]? = some a) :
    element xs i = .ok a := by
  unfold element
  rw [h]

theorem replaced_of_lt {xs : List α} {i : Nat} (h : i < xs.length) (a : α) :
    replaced xs i a = .ok (xs.set i a) :=
  if_pos h

end Misuse

/-! ### Draws -/

/-- A draw that stops where an operation is used outside its domain. -/
abbrev Guarded (α : Type) := StateT Source (Except Misuse) α

namespace Guarded

variable {α β : Type}

/-- A draw in which nothing is misused. -/
def ofDraw (d : Draw α) : Guarded α := fun s => .ok (d s)

/-- A number below `n`. There has to be one. -/
def below (n : Nat) : Guarded Nat :=
  if 0 < n then ofDraw (.below n) else throw .emptyRange

/-- A number from `lo` to `hi`, both included. The ends have to be in order. -/
def between (lo hi : Nat) : Guarded Nat :=
  if lo ≤ hi then ofDraw (.between lo hi) else throw .emptyRange

/-- An integer from `lo` to `hi`, both included. The ends have to be signed words, and in order. -/
def intBetween (lo hi : Int) : Guarded Int :=
  if -2 ^ 63 ≤ lo ∧ hi < 2 ^ 63 then
    if lo ≤ hi then ofDraw (.intBetween lo hi) else throw .emptyRange
  else
    throw .overflow

/-- Whether an event of probability `p` happens. It has to be a probability. -/
def chance (p : Float) : Guarded Bool :=
  if 0.0 ≤ p ∧ p ≤ 1.0 then ofDraw (.chance p) else throw (.improperChance p)

/-- The answers of a guarded draw that is made so many times. -/
def replicate : Nat → Guarded α → Guarded (List α)
  | 0, _ => return []
  | n + 1, draw => do
    let a ← draw
    return a :: (← replicate n draw)

/-! ### Putting draws together -/

@[simp] theorem ofDraw_pure (a : α) : ofDraw (pure a) = pure a := rfl

theorem map_of_eq (f : α → β) {x : Guarded α} {d : Draw α} (h : x = ofDraw d) :
    f <$> x = ofDraw (f <$> d) := by
  rw [h]
  rfl

/-- Each branch is used only where its condition holds. -/
theorem ofDraw_ite_congr {c : Prop} [Decidable c] {x y : Guarded α} {d e : Draw α}
    (hx : c → x = ofDraw d) (hy : ¬ c → y = ofDraw e) :
    (if c then x else y) = ofDraw (if c then d else e) := by
  by_cases h : c
  · rw [if_pos h, if_pos h, hx h]
  · rw [if_neg h, if_neg h, hy h]

/-- What comes after a draw is used only for what the draw can give. -/
theorem ofDraw_bind_of_always {d : Draw α} {P : α → Prop} {f : α → Guarded β} {g : α → Draw β}
    (hd : d.Always P) (hf : ∀ a, P a → f a = ofDraw (g a)) : ofDraw d >>= f = ofDraw (d >>= g) := by
  funext s
  change f (d s).1 (d s).2 = ofDraw (g (d s).1) (d s).2
  rw [hf _ (hd s)]

theorem ofDraw_bind_congr {d : Draw α} {f : α → Guarded β} {g : α → Draw β}
    (hf : ∀ a, f a = ofDraw (g a)) : ofDraw d >>= f = ofDraw (d >>= g) :=
  ofDraw_bind_of_always d.always_true fun a _ => hf a

/-- The rule of a draw whose outcome is kept in another form. -/
theorem ofDraw_map_bind_congr {γ : Type} {d : Draw α} {k : α → γ} {f : γ → Guarded β}
    {g : α → Draw β} (hf : ∀ a, f (k a) = ofDraw (g a)) :
    ofDraw (k <$> d) >>= f = ofDraw (d >>= g) :=
  ofDraw_bind_congr (f := fun a => f (k a)) hf

/-- An operation on counts and lists that is used in its domain takes nothing from the source. -/
@[simp] theorem liftM_ok_bind (a : α) (f : α → Guarded β) :
    (liftM (Except.ok a : Except Misuse α) >>= f) = f a := rfl

theorem replicate_ofDraw (n : Nat) (d : Draw α) :
    replicate n (ofDraw d) = ofDraw (d.replicate n) := by
  induction n with
  | zero => rfl
  | succ n ih =>
      unfold replicate Draw.replicate
      rw [ih]
      rfl

/-! ### Operations in their domain -/

theorem below_of_pos {n : Nat} (h : 0 < n) : below n = ofDraw (.below n) :=
  if_pos h

theorem between_of_le {lo hi : Nat} (h : lo ≤ hi) : between lo hi = ofDraw (.between lo hi) :=
  if_pos h

/-- The plain draw has an answer for ends that are not in order, the guarded one stops. -/
example (s : Source) : between 3 1 s = .error .emptyRange := rfl

theorem intBetween_of_le {lo hi : Int} (hlo : -2 ^ 63 ≤ lo) (h : lo ≤ hi) (hhi : hi < 2 ^ 63) :
    intBetween lo hi = ofDraw (.intBetween lo hi) := by
  unfold intBetween
  rw [if_pos ⟨hlo, hhi⟩, if_pos h]

theorem chance_of_le {p : Float} (h : 0.0 ≤ p ∧ p ≤ 1.0) : chance p = ofDraw (.chance p) :=
  if_pos h

end Guarded

end FuzzPolicy
