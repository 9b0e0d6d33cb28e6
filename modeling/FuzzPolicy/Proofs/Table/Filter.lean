import FuzzPolicy.Proofs.Table.Sample

/-!
# Filtering first and filtering on the fly

The values of a table can be restricted in two ways. `filter` drops the entries that are not wanted and
checks what is left as a new table; `sampleWhere` keeps all entries for one draw and gives those that
are not wanted the weight zero. The two add up different lists from different starts, so the argument
is about floats: a zero that is added to a sum leaves its units alone (`units_total_wanted`), and a
positive float is told by its units, so the totals are the same float. The walks add the same weights
in the same order, as both skip what cannot be drawn (`pick_wanted`). So one word gives the same value
either way: `sampleWhere_agrees_filter`.
-/

namespace FuzzPolicy.Table

open Binary64

variable {α : Type} {t : Table α} {keep : α → Bool}

/-- The entries that a filter leaves. -/
abbrev kept (t : Table α) (keep : α → Bool) : List (Entry α) :=
  t.entries.filter fun e => keep e.value

/-! ### Weights on the fly -/

theorem units_liveWeight_of_kept {e : Entry α} (he : ValidWeight e.weight)
    (hkeep : keep e.value = true) :
    Binary64.units (liveWeight (wanted keep) e) = Binary64.units e.weight := by
  rcases liveWeight_wanted_cases keep he with ⟨-, -, h⟩ | ⟨hzero, h⟩
  · rw [h]
  · rw [h, units_zero, (le_zero_iff he.nonneg).mp (hzero hkeep)]

theorem units_liveWeight_of_dropped {e : Entry α} (he : ValidWeight e.weight)
    (hkeep : keep e.value = false) : Binary64.units (liveWeight (wanted keep) e) = 0 := by
  rcases liveWeight_wanted_cases keep he with ⟨h, -, -⟩ | ⟨-, h⟩
  · rw [hkeep] at h
    cases h
  · rw [h, units_zero]

/-! ### The totals -/

theorem WellFormed.validWeight_kept (ht : t.WellFormed) : ∀ e ∈ t.kept keep, ValidWeight e.weight :=
  fun _ he => ht.validWeight (List.mem_filter.mp he).1

theorem units_total_wanted (ht : t.WellFormed) (keep : α → Bool) :
    Binary64.units (totalOf (t.reweigh (wanted keep))) = Binary64.units (totalOf (t.kept keep)) := by
  rw [totalOf, weights_reweigh]
  exact units_foldl_filter (fun e _ => liveWeight_nonneg _ e) (fun e he => ht.weight_nonneg he)
    (fun e he => units_liveWeight_of_kept (ht.validWeight he))
    (fun e he => units_liveWeight_of_dropped (ht.validWeight he))
    zero_le_neg_zero zero_le_neg_zero rfl

theorem total_kept_pos_iff (ht : t.WellFormed) :
    0 < totalOf (t.kept keep) ↔ ∃ v ∈ t.support, keep v = true := by
  have hvalid : ∀ w ∈ (t.kept keep).map Entry.weight, 0 ≤ w :=
    List.forall_mem_map.mpr fun e he => (ht.validWeight_kept e he).nonneg
  rw [totalOf_pos_iff ht.validWeight_kept, totalOf, sumFloats_le_zero_iff hvalid]
  simp only [List.forall_mem_map, List.mem_filter, not_forall, mem_support_iff]
  constructor
  · rintro ⟨e, ⟨he, hkeep⟩, hw⟩
    have hnonneg := ht.weight_nonneg he
    rw [le_zero_iff hnonneg] at hw
    exact ⟨_, ⟨e, he, (pos_iff hnonneg).mpr (Nat.pos_of_ne_zero hw), rfl⟩, hkeep⟩
  · rintro ⟨-, ⟨e, he, hpos, rfl⟩, hkeep⟩
    exact ⟨e, ⟨he, hkeep⟩, not_le_zero hpos⟩

theorem isFinite_total_kept (ht : t.WellFormed) : (totalOf (t.kept keep)).isFinite = true := by
  rw [isFinite_iff (totalOf_nonneg ht.validWeight_kept), ← units_total_wanted ht,
    ← isFinite_iff (totalOf_reweigh_nonneg t _)]
  exact isFinite_total_wanted ht keep

/-- Where something is left to draw, the two totals are the same float. -/
theorem total_wanted_eq (ht : t.WellFormed) (h : 0 < totalOf (t.kept keep)) :
    totalOf (t.reweigh (wanted keep)) = totalOf (t.kept keep) :=
  (eq_of_units_eq h (totalOf_reweigh_nonneg t _) (units_total_wanted ht keep).symm).symm

/-! ### The walks -/

/-- The value that a walk starts with is forgotten at the first entry that can be drawn. -/
theorem pick_congr_last {es : List (Entry α)} (h : ∃ e ∈ es, ¬ e.weight ≤ 0) (roll acc : Float)
    (last last' : α) : pick roll acc last es = pick roll acc last' es := by
  induction es generalizing acc with
  | nil =>
      obtain ⟨e, he, -⟩ := h
      cases he
  | cons e es ih =>
      simp only [pick]
      split
      · rename_i hdead
        obtain ⟨e', he', hlive⟩ := h
        rcases List.mem_cons.mp he' with rfl | he'
        · exact absurd hdead hlive
        · exact ih ⟨e', he', hlive⟩ acc
      · rfl

/-- A walk that skips what is not wanted is a walk through what is. -/
theorem pick_wanted {es : List (Entry α)} (h : ∀ e ∈ es, ValidWeight e.weight) (roll acc : Float)
    (last : α) :
    pick roll acc last (es.map fun e => ⟨e.value, liveWeight (wanted keep) e⟩) =
      pick roll acc last (es.filter fun e => keep e.value) := by
  induction es generalizing acc last with
  | nil => rfl
  | cons e es ih =>
      rw [List.forall_mem_cons] at h
      obtain ⟨he, hes⟩ := h
      rw [List.map_cons, pick]
      rcases liveWeight_wanted_cases keep he with ⟨hkeep, hpos, hw⟩ | ⟨hzero, hw⟩
      · rw [hw, List.filter_cons_of_pos (by simp [hkeep]), pick, if_neg (not_le_zero hpos),
          if_neg (not_le_zero hpos), ih hes]
      · rw [hw, if_pos zero_le_zero, ih hes]
        -- What is left out is not wanted, or it is wanted and has no weight.
        cases hkeep : keep e.value with
        | false => rw [List.filter_cons_of_neg (by simp [hkeep])]
        | true => rw [List.filter_cons_of_pos (by simp [hkeep]), pick, if_pos (hzero hkeep)]

/-! ### The two ways -/

theorem drawable_kept_iff (ht : t.WellFormed) :
    Drawable (t.kept keep) ↔ ∃ v ∈ t.support, keep v = true := by
  rw [← total_kept_pos_iff ht]
  constructor
  · intro h
    exact h.total_pos
  · intro hpos
    have hne : t.kept keep ≠ [] := by
      intro hnil
      rw [hnil] at hpos
      exact not_le_zero hpos neg_zero_le_zero
    exact ⟨hne, ht.validWeight_kept, hpos, isFinite_total_kept ht⟩

/-- Filtering makes a table exactly if something that can be drawn is wanted. -/
theorem filter_eq_ok_iff (ht : t.WellFormed) {f : Table α} :
    t.filter keep = .ok f ↔ f.entries = t.kept keep ∧ ∃ v ∈ t.support, keep v = true := by
  rw [← drawable_kept_iff ht]
  exact ofEntries_eq_ok_iff_drawable

theorem filter_eq_error_iff (ht : t.WellFormed) :
    (∃ fault, t.filter keep = .error fault) ↔ ∀ v ∈ t.support, keep v = false := by
  have hnone : (∀ v ∈ t.support, keep v = false) ↔ ¬ Drawable (t.kept keep) := by
    rw [drawable_kept_iff ht]
    simp
  rw [hnone]
  constructor
  · rintro ⟨fault, h⟩ hd
    have hok : t.filter keep = .ok ⟨t.kept keep, hd.ne_nil⟩ := hd.ofEntries
    rw [hok] at h
    cases h
  · intro hd
    obtain ⟨fault, hf⟩ := (drawable_or_faulty (t.kept keep)).resolve_left hd
    exact ⟨fault, hf.ofEntries⟩

/-- The entries that are left are as valid as they were, and weigh no more. -/
theorem filter_fault (ht : t.WellFormed) {fault : TableFault} (h : t.filter keep = .error fault) :
    fault = .empty ∨ fault = .nonPositiveTotal := by
  cases ofEntries_eq_error_iff.mp h with
  | empty h => exact .inl rfl
  | nonPositiveTotal _ _ h => exact .inr rfl
  | invalidWeight he hbad _ => exact absurd (ht.validWeight_kept _ (List.mem_of_getElem? he)) hbad
  | infiniteTotal _ _ _ hinf =>
      rw [isFinite_total_kept ht] at hinf
      cases hinf

/-- One word gives the same value either way. -/
theorem sampleWhere_of_filter (ht : t.WellFormed) {f : Table α} (h : t.filter keep = .ok f)
    (s : Source) : t.sampleWhere keep s = (some (f.sample s).1, (f.sample s).2) := by
  obtain ⟨hentries, hex⟩ := (filter_eq_ok_iff ht).mp h
  have hpos : 0 < totalOf (t.kept keep) := (total_kept_pos_iff ht).mpr hex
  have htotal : totalOf (t.reweigh (wanted keep)) = f.total := by
    rw [total_wanted_eq ht hpos, total, hentries]
  have hlive : ∃ e ∈ f.entries, ¬ e.weight ≤ 0 := by
    obtain ⟨v, hv, hkeep⟩ := hex
    obtain ⟨e, he, hw, rfl⟩ := mem_support_iff.mp hv
    rw [hentries]
    exact ⟨e, List.mem_filter.mpr ⟨he, hkeep⟩, not_le_zero hw⟩
  have hdraws : ¬ (f.total ≤ 0 || !f.total.isFinite) = true := by
    simp [← htotal, total_wanted_eq ht hpos, not_le_zero hpos, isFinite_total_kept ht]
  have hpick : ∀ roll, pick roll 0.0 t.first.value (t.reweigh (wanted keep)) =
      pick roll 0.0 f.first.value f.entries := by
    intro roll
    rw [pick_congr_last hlive roll 0.0 f.first.value t.first.value, hentries]
    exact pick_wanted (fun e he => ht.validWeight he) roll 0.0 t.first.value
  calc t.sampleWhere keep s
      = (some <$> roll f.total t.first.value (t.reweigh (wanted keep))) s := by
        simp only [sampleWhere, sampleReweighted, htotal, if_neg hdraws]
        rfl
    _ = (some (f.sample s).1, (f.sample s).2) := by
        simp only [sample, roll, ← hpick]
        rfl

/-- **Filtering on the fly is filtering first.** A draw among wanted values gives nothing, and takes
nothing from the source, exactly if filtering fails, and that is if nothing that can be drawn is
wanted. The fault is then that no entry is left or that those left weigh nothing. If filtering makes a
table, a draw from it gives the same value and leaves the same source. -/
theorem sampleWhere_agrees_filter (ht : t.WellFormed) (keep : α → Bool) (s : Source) :
    (t.sampleWhere keep s = (none, s) ↔ ∃ fault, t.filter keep = .error fault) ∧
    ((∃ fault, t.filter keep = .error fault) ↔ ∀ v ∈ t.support, keep v = false) ∧
    (∀ fault, t.filter keep = .error fault → fault = .empty ∨ fault = .nonPositiveTotal) ∧
    ∀ f, t.filter keep = .ok f →
      t.sampleWhere keep s = (some (f.sample s).1, (f.sample s).2) := by
  refine ⟨?_, filter_eq_error_iff ht, fun _ => filter_fault ht, fun _ hf =>
    sampleWhere_of_filter ht hf s⟩
  have hnone : (t.sampleWhere keep s).1 = none ↔ ∀ v ∈ t.support, keep v = false := by
    rw [← Option.not_isSome_iff_eq_none, sampleWhere_isSome_iff ht]
    simp
  rw [filter_eq_error_iff ht, ← hnone]
  constructor
  · intro h
    rw [h]
  · intro h
    exact sampleReweighted_source h

/-- A table with a weightless entry: from its odd values both ways draw the same, whatever the source,
and from its even ones neither draws. -/
theorem sampleWhere_agrees_filter_decimals : ∃ t odd : Table Nat, t.WellFormed ∧
    t.entries = [⟨1, 0.1⟩, ⟨2, -0.0⟩, ⟨3, 0.2⟩, ⟨5, 0.3⟩] ∧
    t.filter (fun n => n % 2 = 1) = .ok odd ∧
    (∀ s, t.sampleWhere (fun n => n % 2 = 1) s = (some (odd.sample s).1, (odd.sample s).2)) ∧
    (∀ s, t.sampleWhere (fun n => n % 2 = 0) s = (none, s)) ∧
    t.filter (fun n => n % 2 = 0) = .error .nonPositiveTotal := by
  let t : Table Nat := ⟨[⟨1, 0.1⟩, ⟨2, -0.0⟩, ⟨3, 0.2⟩, ⟨5, 0.3⟩], by simp⟩
  let odd : Table Nat := ⟨[⟨1, 0.1⟩, ⟨3, 0.2⟩, ⟨5, 0.3⟩], by simp⟩
  have ht : t.WellFormed := by decide +kernel
  have hodd : Drawable odd.entries := wellFormed_iff_drawable.mp (by decide +kernel)
  have heven : t.filter (fun n => n % 2 = 0) = .error .nonPositiveTotal := by
    refine Faulty.ofEntries (.nonPositiveTotal ?_ ?_ ?_) <;> decide +kernel
  refine ⟨t, odd, ht, rfl, hodd.ofEntries, fun s => ?_, fun s => ?_, heven⟩
  · exact (sampleWhere_agrees_filter ht _ s).2.2.2 odd hodd.ofEntries
  · exact (sampleWhere_agrees_filter ht _ s).1.mpr ⟨_, heven⟩

end FuzzPolicy.Table
