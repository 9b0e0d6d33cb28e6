import FuzzPolicy.Proofs.Random.Always
import FuzzPolicy.Proofs.Table.Entries
import FuzzPolicy.Table.Sample

/-!
# What is drawn from a table

A draw gives a value of positive weight, and a draw among the wanted values gives a wanted one:
`sampleWhere_mem`. From a well-formed table it gives one whenever there is one: `sampleWhere_isSome_iff`.
The weights of an on-the-fly reweighting are never negative, whatever it answers, so their sum is zero
only if nothing is left; and where it only drops entries the sum stays below the total of the table,
which is finite.
-/

namespace FuzzPolicy.Table

open Binary64

variable {α : Type}

/-! ### The walk -/

/-- The walk ends at an entry that can be drawn, if there is one. -/
theorem pick_cases (roll acc : Float) (last : α) (es : List (Entry α)) :
    (pick roll acc last es = last ∧ ∀ e ∈ es, e.weight ≤ 0) ∨
      ∃ e ∈ es, ¬ e.weight ≤ 0 ∧ pick roll acc last es = e.value := by
  -- `last` changes only at an entry that can be drawn, so after one the first case is out.
  induction es generalizing acc last with
  | nil => exact .inl ⟨rfl, by simp⟩
  | cons e es ih =>
      unfold pick
      split
      · rename_i hdead
        rcases ih acc last with ⟨hlast, hall⟩ | ⟨e', he', hlive, hvalue⟩
        · exact .inl ⟨hlast, List.forall_mem_cons.mpr ⟨hdead, hall⟩⟩
        · exact .inr ⟨e', List.mem_cons_of_mem _ he', hlive, hvalue⟩
      · rename_i hlive
        split
        · exact .inr ⟨e, List.mem_cons_self, hlive, rfl⟩
        · rcases ih (acc + e.weight) e.value with ⟨hlast, -⟩ | ⟨e', he', hlive', hvalue⟩
          · exact .inr ⟨e, List.mem_cons_self, hlive, hlast⟩
          · exact .inr ⟨e', List.mem_cons_of_mem _ he', hlive', hvalue⟩

theorem pick_mem {es : List (Entry α)} (h : ∃ e ∈ es, ¬ e.weight ≤ 0) (roll acc : Float)
    (last : α) : ∃ e ∈ es, ¬ e.weight ≤ 0 ∧ pick roll acc last es = e.value := by
  rcases pick_cases roll acc last es with ⟨-, hall⟩ | hpicked
  · obtain ⟨e, he, hlive⟩ := h
    exact absurd (hall e he) hlive
  · exact hpicked

/-- **A draw gives a value of positive weight.** -/
theorem always_sample {t : Table α} (ht : t.WellFormed) : t.sample.Always (· ∈ t.support) := by
  intro s
  have hlive : ∃ e ∈ t.entries, ¬ e.weight ≤ 0 := by
    by_contra hnone
    push Not at hnone
    refine ht.total_pos ((sumFloats_le_zero_iff ?_).mpr ?_)
    · exact List.forall_mem_map.mpr fun e he => ht.weight_nonneg he
    · exact List.forall_mem_map.mpr hnone
  obtain ⟨e, he, hw, hvalue⟩ := pick_mem hlive ((Draw.unit s).1 * t.total) 0.0 t.first.value
  have hpos : 0 < e.weight := by
    rw [le_zero_iff (ht.weight_nonneg he)] at hw
    exact (pos_iff (ht.weight_nonneg he)).mpr (Nat.pos_of_ne_zero hw)
  exact mem_support_iff.mpr ⟨e, he, hpos, hvalue.symm⟩

/-! ### The weights of a reweighting -/

/-- Whether an entry counts under a reweighting: the answer for it is finite and positive. -/
def Live (f : α → Float → Float) (e : Entry α) : Prop :=
  (f e.value e.weight).isFinite = true ∧ 0 < f e.value e.weight

instance (f : α → Float → Float) (e : Entry α) : Decidable (Live f e) :=
  inferInstanceAs (Decidable (_ ∧ _))

theorem liveWeight_of_live {f : α → Float → Float} {e : Entry α} (h : Live f e) :
    liveWeight f e = f e.value e.weight := by
  unfold liveWeight
  exact if_pos (by rw [h.1, decide_eq_true h.2]; rfl)

theorem liveWeight_of_dead {f : α → Float → Float} {e : Entry α} (h : ¬ Live f e) :
    liveWeight f e = 0 := by
  unfold liveWeight
  exact if_neg (by rwa [Bool.and_eq_true, decide_eq_true_eq])

theorem liveWeight_nonneg (f : α → Float → Float) (e : Entry α) : 0 ≤ liveWeight f e := by
  by_cases h : Live f e
  · rw [liveWeight_of_live h]
    exact nonneg_of_pos h.2
  · rw [liveWeight_of_dead h]
    exact zero_le_zero

/-- An entry has weight under a reweighting exactly if it is live. -/
theorem liveWeight_le_zero_iff {f : α → Float → Float} {e : Entry α} :
    liveWeight f e ≤ 0 ↔ ¬ Live f e := by
  by_cases h : Live f e
  · have hpos : 0 < Binary64.units (f e.value e.weight) := (pos_iff (nonneg_of_pos h.2)).mp h.2
    rw [liveWeight_of_live h, le_zero_iff (nonneg_of_pos h.2)]
    constructor
    · intro hzero
      omega
    · intro hdead
      exact absurd h hdead
  · rw [liveWeight_of_dead h]
    exact ⟨fun _ => h, fun _ => zero_le_zero⟩

theorem weights_reweigh (t : Table α) (f : α → Float → Float) :
    (t.reweigh f).map Entry.weight = t.entries.map (liveWeight f) := by
  unfold reweigh
  rw [List.map_map]
  rfl

theorem weights_reweigh_nonneg (t : Table α) (f : α → Float → Float) :
    ∀ w ∈ t.entries.map (liveWeight f), 0 ≤ w :=
  List.forall_mem_map.mpr fun e _ => liveWeight_nonneg f e

theorem totalOf_reweigh_nonneg (t : Table α) (f : α → Float → Float) :
    0 ≤ totalOf (t.reweigh f) := by
  rw [totalOf, weights_reweigh]
  exact sumFloats_nonneg (weights_reweigh_nonneg t f)

/-- Nothing is left by a reweighting exactly if no entry is live. -/
theorem total_reweigh_le_zero_iff {t : Table α} {f : α → Float → Float} :
    totalOf (t.reweigh f) ≤ 0 ↔ ∀ e ∈ t.entries, ¬ Live f e := by
  rw [totalOf, weights_reweigh, sumFloats_le_zero_iff (weights_reweigh_nonneg t f),
    List.forall_mem_map]
  exact forall₂_congr fun e _ => liveWeight_le_zero_iff

/-! ### Draws under a reweighting -/

/-- Whether a draw under a reweighting gives anything is known before a word is drawn. -/
theorem isSome_sampleReweighted_iff {t : Table α} {f : α → Float → Float} {s : Source} :
    (t.sampleReweighted f s).1.isSome = true ↔
      ¬ totalOf (t.reweigh f) ≤ 0 ∧ (totalOf (t.reweigh f)).isFinite = true := by
  unfold sampleReweighted
  by_cases h : totalOf (t.reweigh f) ≤ 0 ∨ (totalOf (t.reweigh f)).isFinite = false
  · have hnone : (decide (totalOf (t.reweigh f) ≤ 0) || !(totalOf (t.reweigh f)).isFinite) = true := by
      simpa using h
    simp only [hnone, if_true]
    constructor
    · intro hsome
      cases hsome
    · rintro ⟨hpos, hfin⟩
      rcases h with h | h
      · exact absurd h hpos
      · rw [h] at hfin
        cases hfin
  · rw [not_or, Bool.not_eq_false] at h
    have hsome : (decide (totalOf (t.reweigh f) ≤ 0) || !(totalOf (t.reweigh f)).isFinite) = false := by
      simpa using h
    simp only [hsome, Bool.false_eq_true, if_false]
    exact ⟨fun _ => h, fun _ => rfl⟩

/-- A draw that gives nothing takes nothing from the source. -/
theorem sampleReweighted_source {t : Table α} {f : α → Float → Float} {s : Source}
    (h : (t.sampleReweighted f s).1 = none) : t.sampleReweighted f s = (none, s) := by
  unfold sampleReweighted at h ⊢
  split at h
  · rename_i hnone
    simp only [hnone, if_true]
    rfl
  · cases h

/-- **A draw under a reweighting gives the value of an entry that is left.** -/
theorem sampleReweighted_mem {t : Table α} {f : α → Float → Float} {s : Source} {v : α}
    (h : (t.sampleReweighted f s).1 = some v) :
    ∃ e ∈ t.entries, e.value = v ∧ Live f e := by
  have hsome : (t.sampleReweighted f s).1.isSome = true := by
    rw [h]
    rfl
  obtain ⟨hpos, -⟩ := isSome_sampleReweighted_iff.mp hsome
  -- The walk starts with the first value of the table, which may be one that dropped out.
  have hlive : ∃ e ∈ t.reweigh f, ¬ e.weight ≤ 0 := by
    rw [total_reweigh_le_zero_iff] at hpos
    push Not at hpos
    obtain ⟨e, he, hlive⟩ := hpos
    refine ⟨⟨e.value, liveWeight f e⟩, List.mem_map_of_mem he, ?_⟩
    rw [liveWeight_le_zero_iff, not_not]
    exact hlive
  unfold sampleReweighted at h
  split at h
  · cases h
  · obtain ⟨e', he', hw, hvalue⟩ := pick_mem hlive
      ((Draw.unit s).1 * totalOf (t.reweigh f)) 0.0 t.first.value
    obtain ⟨e, he, rfl⟩ := List.mem_map.mp he'
    have hv : pick ((Draw.unit s).1 * totalOf (t.reweigh f)) 0.0 t.first.value (t.reweigh f) = v :=
      Option.some.inj h
    rw [hv] at hvalue
    rw [liveWeight_le_zero_iff, not_not] at hw
    exact ⟨e, he, hvalue.symm, hw⟩

/-! ### Draws among wanted values -/

/-- The reweighting of a draw among wanted values. -/
abbrev wanted (keep : α → Bool) (v : α) (w : Float) : Float :=
  if keep v then w else 0.0

theorem wanted_pos_iff {keep : α → Bool} {v : α} {w : Float} :
    0 < wanted keep v w ↔ keep v = true ∧ 0 < w := by
  cases hkeep : keep v with
  | true => simp [wanted, hkeep]
  | false =>
      have hzero : ¬ (0 : Float) < 0.0 := not_lt_zero zero_le_zero
      simpa [wanted, hkeep] using hzero

/-- What a draw among wanted values gives is wanted and has positive weight. -/
theorem sampleWhere_mem {t : Table α} {keep : α → Bool} {s : Source} {v : α}
    (h : (t.sampleWhere keep s).1 = some v) : v ∈ t.support ∧ keep v = true := by
  obtain ⟨e, he, rfl, -, hpos⟩ := sampleReweighted_mem h
  obtain ⟨hkeep, hpos⟩ := wanted_pos_iff.mp hpos
  exact ⟨mem_support_iff.mpr ⟨e, he, hpos, rfl⟩, hkeep⟩

theorem live_wanted_iff (keep : α → Bool) {e : Entry α} (he : ValidWeight e.weight) :
    Live (wanted keep) e ↔ keep e.value = true ∧ 0 < e.weight := by
  constructor
  · intro h
    exact wanted_pos_iff.mp h.2
  · rintro ⟨hkeep, hpos⟩
    refine ⟨?_, wanted_pos_iff.mpr ⟨hkeep, hpos⟩⟩
    rw [wanted, if_pos hkeep]
    exact he.1

/-- An entry counts with its own weight or with zero. -/
theorem liveWeight_wanted_cases (keep : α → Bool) {e : Entry α} (he : ValidWeight e.weight) :
    (keep e.value = true ∧ 0 < e.weight ∧ liveWeight (wanted keep) e = e.weight) ∨
      ((keep e.value = true → e.weight ≤ 0) ∧ liveWeight (wanted keep) e = 0) := by
  by_cases hlive : Live (wanted keep) e
  · obtain ⟨hkeep, hpos⟩ := (live_wanted_iff keep he).mp hlive
    exact .inl ⟨hkeep, hpos, (liveWeight_of_live hlive).trans (if_pos hkeep)⟩
  · refine .inr ⟨fun hkeep => ?_, liveWeight_of_dead hlive⟩
    rw [live_wanted_iff keep he] at hlive
    rw [le_zero_iff he.nonneg]
    by_contra hne
    exact hlive ⟨hkeep, (pos_iff he.nonneg).mpr (Nat.pos_of_ne_zero hne)⟩

/-- Dropping entries makes no weight greater. -/
theorem liveWeight_wanted_le (keep : α → Bool) {e : Entry α} (he : ValidWeight e.weight) :
    liveWeight (wanted keep) e ≤ e.weight := by
  rcases liveWeight_wanted_cases keep he with ⟨-, -, h⟩ | ⟨-, h⟩
  · rw [h]
    exact (le_iff he.nonneg he.nonneg).mpr (Nat.le_refl _)
  · rw [h]
    exact he.nonneg

/-- The weights that are kept add up to no more than all of them, rounded at every step alike. -/
theorem isFinite_total_wanted {t : Table α} (ht : t.WellFormed) (keep : α → Bool) :
    (totalOf (t.reweigh (wanted keep))).isFinite = true := by
  rw [totalOf, weights_reweigh]
  exact isFinite_sumFloats_of_le (fun e _ => liveWeight_nonneg _ e)
    (fun e he => ht.weight_nonneg he) (fun e he => liveWeight_wanted_le keep (ht.validWeight he))
    ht.isFinite_total

/-- **A draw among wanted values gives one exactly if there is one of positive weight.** -/
theorem sampleWhere_isSome_iff {t : Table α} (ht : t.WellFormed) {keep : α → Bool} {s : Source} :
    (t.sampleWhere keep s).1.isSome = true ↔ ∃ v ∈ t.support, keep v = true := by
  constructor
  · intro hsome
    obtain ⟨v, hv⟩ := Option.isSome_iff_exists.mp hsome
    exact ⟨v, sampleWhere_mem hv⟩
  · rintro ⟨v, hv, hkeep⟩
    obtain ⟨e, he, hpos, rfl⟩ := mem_support_iff.mp hv
    refine isSome_sampleReweighted_iff.mpr ⟨?_, ?_⟩
    · rw [total_reweigh_le_zero_iff]
      intro hall
      exact hall e he ((live_wanted_iff keep (ht.validWeight he)).mpr ⟨hkeep, hpos⟩)
    · exact isFinite_total_wanted ht keep

/-- Whether a draw among wanted values always gives one, of positive weight. -/
def Draws (t : Table α) (keep : α → Bool) : Prop :=
  (t.sampleWhere keep).Always fun drawn => ∃ v ∈ t.support, keep v = true ∧ drawn = some v

theorem draws_iff {t : Table α} (ht : t.WellFormed) {keep : α → Bool} :
    t.Draws keep ↔ ∃ v ∈ t.support, keep v = true := by
  constructor
  · intro h
    obtain ⟨v, hv, hkeep, -⟩ := h ⟨fun _ => 0, 0⟩
    exact ⟨v, hv, hkeep⟩
  · intro hex s
    obtain ⟨v, hdrawn⟩ := Option.isSome_iff_exists.mp ((sampleWhere_isSome_iff (s := s) ht).mpr hex)
    obtain ⟨hv, hkeep⟩ := sampleWhere_mem hdrawn
    exact ⟨v, hv, hkeep, hdrawn⟩

/-! ### Draws with a fallback -/

variable {keep : α → Bool} {fallback : α} {P : α → Prop}

/-- Something that is left or else a fallback: both cases have to be looked at. -/
theorem always_reweighted_or (t : Table α) {f : α → Float → Float}
    (hdrawn : ∀ e ∈ t.entries, 0 < f e.value e.weight → P e.value) (hfallback : P fallback) :
    Draw.Always (do return (← t.sampleReweighted f).getD fallback) P := by
  intro s
  change P ((t.sampleReweighted f s).1.getD fallback)
  cases h : (t.sampleReweighted f s).1 with
  | none => exact hfallback
  | some v =>
      obtain ⟨e, he, rfl, -, hpos⟩ := sampleReweighted_mem h
      exact hdrawn e he hpos

/-- Something wanted or else a fallback. -/
theorem always_drawn_or (t : Table α) (hdrawn : ∀ v ∈ t.support, keep v = true → P v)
    (hfallback : P fallback) :
    Draw.Always (do return (← t.sampleWhere keep).getD fallback) P := by
  refine t.always_reweighted_or ?_ hfallback
  intro e he hpos
  obtain ⟨hkeep, hpos⟩ := wanted_pos_iff.mp hpos
  exact hdrawn e.value (mem_support_iff.mpr ⟨e, he, hpos, rfl⟩) hkeep

/-- If something wanted can be drawn, the fallback is not used. -/
theorem always_drawn {t : Table α} (h : t.Draws keep)
    (hdrawn : ∀ v ∈ t.support, keep v = true → P v) :
    Draw.Always (do return (← t.sampleWhere keep).getD fallback) P := by
  refine Draw.always_bind h ?_
  rintro drawn ⟨v, hv, hkeep, rfl⟩
  exact Draw.always_pure (hdrawn v hv hkeep)

/-- If something is left and its weights do not overflow, the fallback is not used. -/
theorem always_reweighted {t : Table α} {f : α → Float → Float}
    (hpos : ¬ totalOf (t.reweigh f) ≤ 0) (hfin : (totalOf (t.reweigh f)).isFinite = true)
    (hdrawn : ∀ e ∈ t.entries, 0 < f e.value e.weight → P e.value) :
    Draw.Always (do return (← t.sampleReweighted f).getD fallback) P := by
  intro s
  change P ((t.sampleReweighted f s).1.getD fallback)
  obtain ⟨v, h⟩ := Option.isSome_iff_exists.mp
    ((isSome_sampleReweighted_iff (s := s)).mpr ⟨hpos, hfin⟩)
  obtain ⟨e, he, rfl, -, hlive⟩ := sampleReweighted_mem h
  rw [h]
  exact hdrawn e he hlive

/-- If nothing wanted can be drawn, the answer is the fallback, and nothing is taken from the source. -/
theorem drawn_or_of_none {t : Table α} (hnone : ∀ v ∈ t.support, keep v = false) (s : Source) :
    (do return (← t.sampleWhere keep).getD fallback : Draw α) s = (fallback, s) := by
  have hdrawn : t.sampleWhere keep s = (none, s) := by
    refine sampleReweighted_source (Option.eq_none_iff_forall_ne_some.mpr fun v hv => ?_)
    obtain ⟨hmem, hkeep⟩ := sampleWhere_mem hv
    rw [hnone v hmem] at hkeep
    cases hkeep
  rw [Draw.bind_apply, hdrawn]
  rfl

theorem always_fallback {t : Table α} (hnone : ∀ v ∈ t.support, keep v = false) :
    Draw.Always (do return (← t.sampleWhere keep).getD fallback) (· = fallback) := by
  intro s
  rw [drawn_or_of_none hnone]

end FuzzPolicy.Table
