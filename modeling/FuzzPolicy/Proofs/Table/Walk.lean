import FuzzPolicy.Proofs.Random.Unit
import FuzzPolicy.Proofs.Table.Filter

/-!
# Which entry a draw chooses

A draw under a reweighting takes one word, makes a float from [0, 1) of its high bits and scales that to
the total of the weights; the roll. `Chosen` says at which place the walk ends for a roll: at the first live
entry whose running sum exceeds it, and if there is none, at the last live entry. `exists_chosen` follows
the walk from any running sum.

The total is added up by itself before the walk, from the negative zero and over all entries, where the
walk starts from zero and skips the dead ones. The two give the same float all the same
(`foldl_liveWeights`), so the last running sum is the total. The roll is at most the total as rounding keeps
the order, so no running sum exceeds it only if it is the total. And a greater word gives a roll that is no
less, so the place never moves back: `Chosen.place_le`.
-/

namespace FuzzPolicy.Table

open Binary64

variable {α : Type} {f : α → Float → Float} {e e' : Entry α} {es : List (Entry α)} {t : Table α}

/-! ### Live weights -/

/-- The weights of the live entries, in table order. -/
def liveWeights (f : α → Float → Float) (es : List (Entry α)) : List Float :=
  (es.filter fun e => Live f e).map fun e => f e.value e.weight

theorem liveWeights_eq (f : α → Float → Float) (es : List (Entry α)) :
    liveWeights f es = (es.filter fun e => Live f e).map (liveWeight f) := by
  refine List.map_congr_left fun e he => ?_
  have hlive : Live f e := of_decide_eq_true (List.mem_filter.mp he).2
  exact (liveWeight_of_live hlive).symm

theorem liveWeights_nonneg (f : α → Float → Float) (es : List (Entry α)) :
    ∀ w ∈ liveWeights f es, 0 ≤ w := by
  rw [liveWeights_eq]
  exact List.forall_mem_map.mpr fun e _ => liveWeight_nonneg f e

@[simp] theorem liveWeights_cons_of_live (h : Live f e) :
    liveWeights f (e :: es) = f e.value e.weight :: liveWeights f es := by
  simp [liveWeights, h]

@[simp] theorem liveWeights_cons_of_dead (h : ¬ Live f e) :
    liveWeights f (e :: es) = liveWeights f es := by
  simp [liveWeights, h]

/-! ### The total -/

theorem total_reweigh_pos (hlive : ∃ e ∈ t.entries, Live f e) : 0 < totalOf (t.reweigh f) := by
  have hnonneg := totalOf_reweigh_nonneg t f
  rw [pos_iff hnonneg, Nat.pos_iff_ne_zero, Ne, ← le_zero_iff hnonneg,
    total_reweigh_le_zero_iff]
  push Not
  exact hlive

theorem units_foldl_liveWeights (t : Table α) (f : α → Float → Float) {start : Float}
    (hstart : 0 ≤ start) (hunits : Binary64.units start = 0) :
    Binary64.units (totalOf (t.reweigh f)) =
      Binary64.units ((liveWeights f t.entries).foldl (· + ·) start) := by
  rw [totalOf, weights_reweigh, liveWeights_eq]
  refine units_foldl_filter (fun e _ => liveWeight_nonneg f e) (fun e _ => liveWeight_nonneg f e)
    (fun e _ _ => rfl) ?_ zero_le_neg_zero hstart (by rw [hunits, units_neg_zero])
  intro e _ hdead
  rw [← le_zero_iff (liveWeight_nonneg f e)]
  exact liveWeight_le_zero_iff.mpr (of_decide_eq_false hdead)

/-- **The total is the sum of the live weights alone**, be it taken from the one zero or the other. -/
theorem foldl_liveWeights (hlive : ∃ e ∈ t.entries, Live f e) {start : Float} (hstart : 0 ≤ start)
    (hunits : Binary64.units start = 0) :
    (liveWeights f t.entries).foldl (· + ·) start = totalOf (t.reweigh f) := by
  have hfold : 0 ≤ (liveWeights f t.entries).foldl (· + ·) start :=
    foldl_nonneg (liveWeights_nonneg f _) hstart
  exact (eq_of_units_eq (total_reweigh_pos hlive) hfold
    (units_foldl_liveWeights t f hstart hunits)).symm

theorem isInf_sum_liveWeights_iff (t : Table α) (f : α → Float → Float) :
    (sumFloats (liveWeights f t.entries)).isInf = true ↔
      (totalOf (t.reweigh f)).isFinite = false := by
  have hsum : 0 ≤ sumFloats (liveWeights f t.entries) := sumFloats_nonneg (liveWeights_nonneg f _)
  have hunits : Binary64.units (totalOf (t.reweigh f)) =
      Binary64.units (sumFloats (liveWeights f t.entries)) :=
    units_foldl_liveWeights t f zero_le_neg_zero units_neg_zero
  rw [isInf_iff hsum, ← Bool.not_eq_true, ← Bool.not_eq_true, isFinite_iff hsum,
    isFinite_iff (totalOf_reweigh_nonneg t f), hunits]

/-! ### Running sums -/

/-- The sum of a walk that started from `start` and has passed `n` entries. -/
def running (f : α → Float → Float) (start : Float) (es : List (Entry α)) (n : Nat) : Float :=
  (liveWeights f (es.take n)).foldl (· + ·) start

theorem running_nonneg {start : Float} (h : 0 ≤ start) (n : Nat) : 0 ≤ running f start es n :=
  foldl_nonneg (liveWeights_nonneg f _) h

theorem running_cons_of_live (h : Live f e) (start : Float) (n : Nat) :
    running f start (e :: es) (n + 1) = running f (start + f e.value e.weight) es n := by
  simp [running, h]

theorem running_cons_of_dead (h : ¬ Live f e) (start : Float) (n : Nat) :
    running f start (e :: es) (n + 1) = running f start es n := by
  simp [running, h]

/-- No entry from this place on is live. -/
def DeadFrom (f : α → Float → Float) (es : List (Entry α)) (n : Nat) : Prop :=
  ∀ j ≥ n, ∀ e, es[j]? = some e → ¬ Live f e

theorem deadFrom_cons (h : ∀ e ∈ es, ¬ Live f e) : DeadFrom f (e :: es) 1 := by
  intro j hj e' he'
  obtain ⟨j, rfl⟩ := Nat.exists_eq_add_of_le' hj
  exact h e' (List.mem_of_getElem? he')

/-- What is dead adds nothing to the sum. -/
theorem DeadFrom.running_eq {n : Nat} (h : DeadFrom f es n) (start : Float) :
    running f start es n = (liveWeights f es).foldl (· + ·) start := by
  have hdrop : (es.drop n).filter (fun e => Live f e) = [] := by
    rw [List.filter_eq_nil_iff]
    intro e he
    obtain ⟨j, hj⟩ := List.mem_iff_getElem?.mp he
    rw [List.getElem?_drop] at hj
    simpa using h (n + j) (Nat.le_add_right n j) e hj
  have hfilter : (es.take n).filter (fun e => Live f e) = es.filter fun e => Live f e := by
    conv_rhs => rw [← List.take_append_drop n es, List.filter_append, hdrop, List.append_nil]
  rw [running, liveWeights, hfilter, liveWeights]

theorem deadFrom_length (f : α → Float → Float) (es : List (Entry α)) : DeadFrom f es es.length := by
  intro j hj e he
  rw [List.getElem?_eq_none hj] at he
  cases he

/-- After the last live entry the running sum is the total. -/
theorem DeadFrom.running_eq_total {n : Nat} (h : DeadFrom f t.entries n)
    (hlive : ∃ e ∈ t.entries, Live f e) : running f 0.0 t.entries n = totalOf (t.reweigh f) := by
  rw [h.running_eq]
  exact foldl_liveWeights hlive zero_le_zero units_zero

/-! ### The walk -/

/-- Entries under the weights of a reweighting. -/
abbrev reweighed (f : α → Float → Float) (es : List (Entry α)) : List (Entry α) :=
  es.map fun e => ⟨e.value, liveWeight f e⟩

theorem pick_cons_of_live (h : Live f e) (roll acc : Float) (last : α) :
    pick roll acc last (reweighed f (e :: es)) =
      if roll < acc + f e.value e.weight then e.value
      else pick roll (acc + f e.value e.weight) e.value (reweighed f es) := by
  rw [reweighed, List.map_cons, pick, liveWeight_of_live h, if_neg (not_le_zero h.2)]

theorem pick_cons_of_dead (h : ¬ Live f e) (roll acc : Float) (last : α) :
    pick roll acc last (reweighed f (e :: es)) = pick roll acc last (reweighed f es) := by
  rw [reweighed, List.map_cons, pick, if_pos (liveWeight_le_zero_iff.mpr h)]

theorem pick_of_dead (h : ∀ e ∈ es, ¬ Live f e) (roll acc : Float) (last : α) :
    pick roll acc last (reweighed f es) = last := by
  induction es with
  | nil => rfl
  | cons e es ih =>
      rw [List.forall_mem_cons] at h
      rw [pick_cons_of_dead h.1, ih h.2]

/-! ### The chosen place -/

/-- The entry `e` at place `i` is where a walk from the sum `start` ends. -/
structure Chosen (f : α → Float → Float) (start : Float) (es : List (Entry α)) (roll : Float)
    (i : Nat) (e : Entry α) : Prop where
  at_place : es[i]? = some e
  live : Live f e
  /-- The running sums of the live entries before it do not exceed the roll. -/
  passed : ∀ j < i, ∀ e', es[j]? = some e' → Live f e' → ¬ roll < running f start es (j + 1)
  /-- Its own does, or else it is the last live entry. -/
  exceeded_or_last : roll < running f start es (i + 1) ∨ DeadFrom f es (i + 1)

theorem Chosen.head {start roll : Float} (he : Live f e)
    (h : roll < running f start (e :: es) 1 ∨ DeadFrom f (e :: es) 1) :
    Chosen f start (e :: es) roll 0 e where
  at_place := rfl
  live := he
  passed := fun j hj => absurd hj (Nat.not_lt_zero j)
  exceeded_or_last := h

/-- Passing one entry in front leads to the walk through the rest. -/
theorem Chosen.cons {start start' roll : Float} {i : Nat} (h : Chosen f start' es roll i e')
    (hrunning : ∀ n, running f start (e :: es) (n + 1) = running f start' es n)
    (hpassed : Live f e → ¬ roll < running f start (e :: es) 1) :
    Chosen f start (e :: es) roll (i + 1) e' where
  at_place := by rw [List.getElem?_cons_succ, h.at_place]
  live := h.live
  passed := by
    intro j hj e'' he'' hlive
    cases j with
    | zero =>
        rw [List.getElem?_cons_zero, Option.some.injEq] at he''
        rw [← he''] at hlive
        exact hpassed hlive
    | succ j =>
        rw [List.getElem?_cons_succ] at he''
        rw [hrunning]
        exact h.passed j (by omega) e'' he'' hlive
  exceeded_or_last := by
    rcases h.exceeded_or_last with hexceeded | hlast
    · exact .inl (by rwa [hrunning])
    · refine .inr fun j hj e'' he'' => ?_
      obtain ⟨j, rfl⟩ := Nat.exists_eq_add_of_le' (Nat.le_of_succ_le hj)
      rw [← Nat.add_assoc, List.getElem?_cons_succ] at he''
      exact hlast _ (by omega) e'' he''

/-- **A walk through entries of which one is live ends at the chosen place.** -/
theorem exists_chosen (hlive : ∃ e ∈ es, Live f e) (roll start : Float) (last : α) :
    ∃ i e, Chosen f start es roll i e ∧ pick roll start last (reweighed f es) = e.value := by
  induction es generalizing start last with
  | nil =>
      obtain ⟨e, he, -⟩ := hlive
      cases he
  | cons e es ih =>
      by_cases he : Live f e
      · have hrunning : ∀ n, running f start (e :: es) (n + 1) =
            running f (start + f e.value e.weight) es n := running_cons_of_live he start
        have hfirst : running f start (e :: es) 1 = start + f e.value e.weight := hrunning 0
        rw [pick_cons_of_live he]
        by_cases hroll : roll < start + f e.value e.weight
        · rw [if_pos hroll]
          rw [← hfirst] at hroll
          exact ⟨0, e, .head he (.inl hroll), rfl⟩
        · rw [if_neg hroll]
          rw [← hfirst] at hroll
          by_cases hrest : ∃ e ∈ es, Live f e
          · obtain ⟨i, e', hchosen, hpick⟩ := ih hrest (start + f e.value e.weight) e.value
            exact ⟨i + 1, e', hchosen.cons hrunning fun _ => hroll, hpick⟩
          · -- What is left is dead, so the walk falls back to this entry.
            have hdead : ∀ e ∈ es, ¬ Live f e := fun e' he' h => hrest ⟨e', he', h⟩
            exact ⟨0, e, .head he (.inr (deadFrom_cons hdead)), pick_of_dead hdead _ _ _⟩
      · have hrest : ∃ e ∈ es, Live f e := by
          obtain ⟨e', he', hlive'⟩ := hlive
          rcases List.mem_cons.mp he' with rfl | he'
          · exact absurd hlive' he
          · exact ⟨e', he', hlive'⟩
        obtain ⟨i, e', hchosen, hpick⟩ := ih hrest start last
        rw [pick_cons_of_dead he]
        exact ⟨i + 1, e', hchosen.cons (running_cons_of_dead he start) fun h => absurd h he, hpick⟩

/-- A roll that is exceeded wherever another is leads to a place that is not behind. -/
theorem Chosen.place_le {start roll roll' : Float} {i i' : Nat} (h : Chosen f start es roll i e)
    (h' : Chosen f start es roll' i' e')
    (hle : ∀ n, roll' < running f start es n → roll < running f start es n) : i ≤ i' := by
  by_contra hlt
  rw [Nat.not_le] at hlt
  rcases h'.exceeded_or_last with hexceeded | hlast
  · exact h.passed i' hlt e' h'.at_place h'.live (hle _ hexceeded)
  · exact hlast i hlt e h.at_place h.live

/-! ### The roll -/

section

variable {total : Float} {w : UInt64}

theorem units_roll_le (hnonneg : 0 ≤ total) (hfin : total.isFinite = true) :
    Binary64.units (Draw.unitOfWord w * total) ≤ Binary64.units total :=
  units_mul_le_right (Draw.unitOfWord_nonneg w) hnonneg (Draw.isFinite_unitOfWord w) hfin
    (Nat.le_of_lt (Draw.units_unitOfWord_lt w))

theorem roll_nonneg (hnonneg : 0 ≤ total) (hfin : total.isFinite = true) :
    0 ≤ Draw.unitOfWord w * total :=
  mul_nonneg (Draw.unitOfWord_nonneg w) hnonneg (Draw.isFinite_unitOfWord w) hfin

/-- Rounding can put the roll at the total, but not above it. -/
theorem roll_eq_total (hpos : 0 < total) (hfin : total.isFinite = true)
    (h : ¬ Draw.unitOfWord w * total < total) : Draw.unitOfWord w * total = total := by
  have hnonneg : 0 ≤ total := nonneg_of_pos hpos
  have hroll : 0 ≤ Draw.unitOfWord w * total := roll_nonneg hnonneg hfin
  rw [lt_iff hroll hnonneg, Nat.not_lt] at h
  exact (eq_of_units_eq hpos hroll (Nat.le_antisymm h (units_roll_le hnonneg hfin))).symm

/-- What exceeds the roll of a word exceeds that of every lesser one. -/
theorem roll_lt_of_le (hnonneg : 0 ≤ total) (hfin : total.isFinite = true) {w' : UInt64}
    (hle : w >>> 11 ≤ w' >>> 11) {x : Float} (hx : 0 ≤ x) (h : Draw.unitOfWord w' * total < x) :
    Draw.unitOfWord w * total < x := by
  have hmono : Binary64.units (Draw.unitOfWord w * total) ≤
      Binary64.units (Draw.unitOfWord w' * total) :=
    units_mul_le_mul_right (Draw.unitOfWord_nonneg w) (Draw.unitOfWord_nonneg w') hnonneg
      (Draw.isFinite_unitOfWord w) (Draw.isFinite_unitOfWord w') hfin
      (Draw.units_unitOfWord_le_iff.mpr hle)
  rw [lt_iff (roll_nonneg hnonneg hfin) hx] at h ⊢
  omega

end

/-! ### Draws under a reweighting -/

theorem sampleReweighted_eq_none_iff (s : Source) :
    t.sampleReweighted f s = (none, s) ↔
      (∀ e ∈ t.entries, ¬ Live f e) ∨ (sumFloats (liveWeights f t.entries)).isInf = true := by
  have hnone : t.sampleReweighted f s = (none, s) ↔ ¬ (t.sampleReweighted f s).1.isSome = true := by
    rw [Option.not_isSome_iff_eq_none]
    exact ⟨fun h => by rw [h], sampleReweighted_source⟩
  rw [hnone, isSome_sampleReweighted_iff, not_and_or, not_not, Bool.not_eq_true,
    total_reweigh_le_zero_iff, isInf_sum_liveWeights_iff]

/-- The roll that a word makes. -/
def rollOf (t : Table α) (f : α → Float → Float) (w : UInt64) : Float :=
  Draw.unitOfWord w * totalOf (t.reweigh f)

theorem sampleReweighted_eq_some (hlive : ∃ e ∈ t.entries, Live f e)
    (hfin : (totalOf (t.reweigh f)).isFinite = true) (s : Source) :
    t.sampleReweighted f s =
      (some (pick (rollOf t f (s.words s.drawn)) 0.0 t.first.value (reweighed f t.entries)),
        { s with drawn := s.drawn + 1 }) := by
  have hdraws : ¬ (totalOf (t.reweigh f) ≤ 0 || !(totalOf (t.reweigh f)).isFinite) = true := by
    simp [not_le_zero (total_reweigh_pos hlive), hfin]
  simp only [sampleReweighted, if_neg hdraws]
  rfl

theorem sampleReweighted_self (ht : t.WellFormed) (s : Source) :
    t.sampleReweighted (fun _ w => w) s = (some (t.sample s).1, (t.sample s).2) := by
  have hall : t.filter (fun _ => true) = .ok t :=
    (filter_eq_ok_iff ht).mpr ⟨by simp, _, always_sample ht s, rfl⟩
  exact sampleWhere_of_filter ht hall s

/-- **Every word has a place**, and that of a greater word is not before it. -/
theorem exists_place (hlive : ∃ e ∈ t.entries, Live f e)
    (hfin : (totalOf (t.reweigh f)).isFinite = true) :
    ∃ place : UInt64 → Nat,
      (∀ w w' : UInt64, w >>> 11 ≤ w' >>> 11 → place w ≤ place w') ∧
      ∀ w, ∃ e, Chosen f 0.0 t.entries (rollOf t f w) (place w) e ∧
        pick (rollOf t f w) 0.0 t.first.value (reweighed f t.entries) = e.value := by
  choose place hplace using fun w => exists_chosen hlive (rollOf t f w) 0.0 t.first.value
  refine ⟨place, ?_, hplace⟩
  intro w w' hle
  obtain ⟨e, hchosen, -⟩ := hplace w
  obtain ⟨e', hchosen', -⟩ := hplace w'
  refine hchosen.place_le hchosen' fun n hn => ?_
  have hnonneg : 0 ≤ totalOf (t.reweigh f) := totalOf_reweigh_nonneg t f
  exact roll_lt_of_le hnonneg hfin hle (running_nonneg zero_le_zero n) hn

/-- The walk falls back to the last live entry only if the roll is the total. -/
theorem Chosen.rollOf_eq_total {w : UInt64} {i : Nat}
    (h : Chosen f 0.0 t.entries (rollOf t f w) i e)
    (hfin : (totalOf (t.reweigh f)).isFinite = true)
    (hnot : ¬ rollOf t f w < running f 0.0 t.entries (i + 1)) :
    rollOf t f w = totalOf (t.reweigh f) := by
  have hlive : ∃ e ∈ t.entries, Live f e := ⟨e, List.mem_of_getElem? h.at_place, h.live⟩
  have hdead : DeadFrom f t.entries (i + 1) := h.exceeded_or_last.resolve_left hnot
  rw [hdead.running_eq_total hlive] at hnot
  exact roll_eq_total (total_reweigh_pos hlive) hfin hnot

/-- **What a draw under a reweighting chooses.** It gives nothing, and takes nothing from the source, exactly
if no entry is live or the live weights add up to infinity. Otherwise one word is taken. The total is the sum
of the live weights, and the last running sum is the same float. The value is that of the first live entry
whose running sum exceeds the roll, and of the last live entry if none does, which takes a roll that is the
total itself. The place does not move back where the high bits of the word do not, and these bits are the
float in steps of 2⁻⁵³. A draw by the weights of a table that can be drawn from is the case in which nothing
is reweighed, so it always gives a value of positive weight and takes one word. -/
theorem sampleReweighted_chosen (t : Table α) (f : α → Float → Float) :
    (∀ s, t.sampleReweighted f s = (none, s) ↔
      (∀ e ∈ t.entries, ¬ Live f e) ∨ (sumFloats (liveWeights f t.entries)).isInf = true) ∧
    ((∃ e ∈ t.entries, Live f e) → (sumFloats (liveWeights f t.entries)).isInf = false →
      sumFloats (liveWeights f t.entries) = totalOf (t.reweigh f) ∧
      running f 0.0 t.entries t.entries.length = totalOf (t.reweigh f) ∧
      ∃ place : UInt64 → Nat,
        (∀ w w' : UInt64, w >>> 11 ≤ w' >>> 11 → place w ≤ place w') ∧
        ∀ s : Source, ∃ e,
          t.sampleReweighted f s = (some e.value, { s with drawn := s.drawn + 1 }) ∧
          Chosen f 0.0 t.entries (rollOf t f (s.words s.drawn)) (place (s.words s.drawn)) e ∧
          (¬ rollOf t f (s.words s.drawn) <
              running f 0.0 t.entries (place (s.words s.drawn) + 1) →
            rollOf t f (s.words s.drawn) = totalOf (t.reweigh f))) ∧
    (∀ w : UInt64, 2 ^ 53 * Binary64.units (Draw.unitOfWord w) = (w >>> 11).toNat * oneUnits) ∧
    (t.WellFormed → ∀ s,
      t.sampleReweighted (fun _ w => w) s = (some (t.sample s).1, (t.sample s).2) ∧
      (t.sample s).1 ∈ t.support ∧ (t.sample s).2 = { s with drawn := s.drawn + 1 }) := by
  refine ⟨sampleReweighted_eq_none_iff, ?_, ?_, ?_⟩
  · intro hlive hinf
    have hfin : (totalOf (t.reweigh f)).isFinite = true := by
      rw [← Bool.not_eq_false, ← isInf_sum_liveWeights_iff, hinf]
      decide
    obtain ⟨place, hmono, hplace⟩ := exists_place hlive hfin
    refine ⟨foldl_liveWeights hlive zero_le_neg_zero units_neg_zero,
      (deadFrom_length f t.entries).running_eq_total hlive, place, hmono, fun s => ?_⟩
    obtain ⟨e, hchosen, hpick⟩ := hplace (s.words s.drawn)
    refine ⟨e, ?_, hchosen, hchosen.rollOf_eq_total hfin⟩
    rw [sampleReweighted_eq_some hlive hfin, hpick]
  · intro w
    calc 2 ^ 53 * Binary64.units (Draw.unitOfWord w)
        = 2 ^ 53 * ((w >>> 11).toNat * Draw.stepUnits) := by rw [Draw.units_unitOfWord]
      _ = (w >>> 11).toNat * (2 ^ 53 * Draw.stepUnits) := Nat.mul_left_comm _ _ _
      _ = (w >>> 11).toNat * oneUnits := by rw [Draw.pow_mul_stepUnits]
  · intro ht s
    exact ⟨sampleReweighted_self ht s, always_sample ht s, rfl⟩

/-- A table with a weightless entry, of which a reweighting that answers no number for the first value leaves
the last two: every word chooses one of them. A reweighting that answers negative numbers leaves nothing. -/
theorem sampleReweighted_chosen_decimals : ∃ (t : Table Nat) (f : Nat → Float → Float),
    t.entries = [⟨1, 0.5⟩, ⟨2, -0.0⟩, ⟨3, 0.1⟩, ⟨4, 0.2⟩] ∧ (f 1 0.5).isNaN = true ∧
    liveWeights f t.entries = [0.1, 0.2] ∧ totalOf (t.reweigh f) = 0.1 + 0.2 ∧
    (∀ s, ∃ i e, Chosen f 0.0 t.entries (rollOf t f (s.words s.drawn)) i e ∧
      t.sampleReweighted f s = (some e.value, { s with drawn := s.drawn + 1 })) ∧
    (∀ s, t.sampleReweighted (fun _ _ => -1.0) s = (none, s)) ∧
    ∀ s, (t.sample s).1 ∈ t.support := by
  let t : Table Nat := ⟨[⟨1, 0.5⟩, ⟨2, -0.0⟩, ⟨3, 0.1⟩, ⟨4, 0.2⟩], by simp⟩
  let f (v : Nat) (w : Float) : Float := if v = 1 then 0.0 / 0.0 else w
  have hlive : ∃ e ∈ t.entries, Live f e := by decide +kernel
  have hinf : (sumFloats (liveWeights f t.entries)).isInf = false := by decide +kernel
  have ht : t.WellFormed := by decide +kernel
  obtain ⟨-, hsome, -, hsample⟩ := sampleReweighted_chosen t f
  obtain ⟨htotal, -, place, -, hdraw⟩ := hsome hlive hinf
  have hweights : liveWeights f t.entries = [0.1, 0.2] := by decide +kernel
  refine ⟨t, f, rfl, by decide +kernel, hweights, ?_, fun s => ?_, fun s => ?_, fun s =>
    (hsample ht s).2.1⟩
  · rw [← htotal]
    decide +kernel
  · obtain ⟨e, hdrawn, hchosen, -⟩ := hdraw s
    exact ⟨_, e, hchosen, hdrawn⟩
  · exact ((sampleReweighted_chosen t fun _ _ => -1.0).1 s).mpr (.inl (by decide +kernel))

end FuzzPolicy.Table
