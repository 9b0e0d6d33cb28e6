import FuzzPolicy.Proofs.Binary64.Whole
import FuzzPolicy.Proofs.Catalog.Defaults
import FuzzPolicy.Proofs.Table.Walk

/-!
# Drawing from the table of a range

All entries of such a table have weight one, so the running sums of a walk are the whole numbers and no
addition rounds. Where the walk stops can then be told without it: at the place that is the whole part of
the roll (`pick_ones`). A roll that is rounded to the total has no such place, and the answer is then the
greatest count.
-/

namespace FuzzPolicy

open Binary64

namespace Table

/-- **A walk through equal weights stops at the whole part of the roll**, or at the last entry if there are
not as many. -/
theorem pick_ones {α : Type} {vs : List α} {roll acc : Float} {k : Nat} (hroll : 0 ≤ roll)
    (hacc : 0 ≤ acc) (hk : Binary64.units acc = k * oneUnits) (hlen : k + vs.length < 2 ^ 53)
    (hle : k ≤ Binary64.units roll / oneUnits) (last : α) :
    pick roll acc last (vs.map fun v => ⟨v, 1.0⟩) =
      vs.getD (Binary64.units roll / oneUnits - k) (vs.getLast?.getD last) := by
  induction vs generalizing acc k last with
  | nil => rfl
  | cons v vs ih =>
      rw [List.length_cons] at hlen
      have hnonneg : 0 ≤ acc + 1.0 := add_nonneg hacc one_nonneg
      have hnext : Binary64.units (acc + 1.0) = (k + 1) * oneUnits :=
        units_add_one (by omega) hacc hk
      have hstops : roll < acc + 1.0 ↔ Binary64.units roll / oneUnits < k + 1 := by
        rw [lt_iff hroll hnonneg, hnext, Nat.div_lt_iff_lt_mul oneUnits_pos]
      rw [List.map_cons, pick, if_neg (not_le_zero one_pos)]
      by_cases hstop : roll < acc + 1.0
      · have hplace : Binary64.units roll / oneUnits - k = 0 := by
          rw [hstops] at hstop
          omega
        rw [if_pos hstop, hplace, List.getD_cons_zero]
      · have hpassed : k + 1 ≤ Binary64.units roll / oneUnits := by
          rw [hstops] at hstop
          omega
        have hplace : Binary64.units roll / oneUnits - k =
            Binary64.units roll / oneUnits - (k + 1) + 1 := by omega
        rw [if_neg hstop, ih hnonneg hnext (by omega) hpassed, hplace, List.getD_cons_succ,
          List.getLast?_cons, Option.getD_some]

end Table

namespace CountRange

variable {r : CountRange} {t : Table Nat}

theorem getD_toList (r : CountRange) (i last : Nat) :
    r.toList.getD i last = if i ≤ r.width then r.min + i else last := by
  by_cases hi : i ≤ r.width
  · rw [if_pos hi, toList, List.getD_eq_getElem?_getD, List.getElem?_range' (by omega)]
    simp
  · rw [if_neg hi]
    exact List.getD_eq_default _ _ (by rw [length_toList]; omega)

theorem getLast?_toList (horder : r.min ≤ r.max) : r.toList.getLast? = some r.max := by
  rw [toList, List.getLast?_range', if_neg (by omega), width]
  congr 1
  omega

/-! ### Faults -/

theorem table_of_inverted (h : r.max < r.min) : r.table = .error (.inverted r.min r.max) := by
  have horder : r.checkOrder = .error (.inverted r.min r.max) := if_pos h
  rw [table, horder]

theorem table_of_tooWide (horder : r.min ≤ r.max) (h : maxRangeLength ≤ r.width) :
    r.table = .error (.tooWide r.min r.max) := by
  have hwidth : r.checkWidth = .error (.tooWide r.min r.max) := if_pos h
  rw [table, checkOrder_eq_ok_iff.mpr horder, hwidth]

/-! ### The total -/

theorem units_total_of_table (h : r.table = .ok t) :
    Binary64.units t.total = (r.width + 1) * oneUnits := by
  obtain ⟨-, hwidth, hentries⟩ := table_eq_ok_iff.mp h
  rw [Table.total, hentries, Table.units_total_ones (length_toList_lt hwidth), length_toList]

/-- The total is the number of counts. -/
theorem total_of_table (h : r.table = .ok t) {n : UInt64} (hn : n.toNat = r.width + 1) :
    t.total = n.toFloat := by
  obtain ⟨-, hwidth, -⟩ := table_eq_ok_iff.mp h
  have hlen := length_toList_lt hwidth
  rw [length_toList, ← hn] at hlen
  obtain ⟨hnonneg, hunits⟩ := Draw.toFloat_of_lt hlen
  refine eq_of_units_eq (drawable_of_table h).total_pos hnonneg ?_
  rw [units_total_of_table h, hunits, hn]

/-! ### The roll -/

section

variable (h : r.table = .ok t) (w : UInt64)

include h

theorem roll_nonneg_of_table : 0 ≤ Draw.unitOfWord w * t.total :=
  Table.roll_nonneg (nonneg_of_pos (drawable_of_table h).total_pos)
    (drawable_of_table h).isFinite_total

theorem units_roll_le_of_table :
    Binary64.units (Draw.unitOfWord w * t.total) ≤ (r.width + 1) * oneUnits := by
  rw [← units_total_of_table h]
  exact Table.units_roll_le (nonneg_of_pos (drawable_of_table h).total_pos)
    (drawable_of_table h).isFinite_total

/-- The roll has few enough units for its whole part to be the integer made of it. -/
theorem toNat_roll :
    (Draw.unitOfWord w * t.total).toUInt64.toNat =
      Binary64.units (Draw.unitOfWord w * t.total) / oneUnits := by
  obtain ⟨-, hwidth, -⟩ := table_eq_ok_iff.mp h
  unfold maxRangeLength at hwidth
  refine toNat_toUInt64 (roll_nonneg_of_table h w) ?_
  calc Binary64.units (Draw.unitOfWord w * t.total)
      ≤ (r.width + 1) * oneUnits := units_roll_le_of_table h w
    _ < 2 ^ 64 * oneUnits := Nat.mul_lt_mul_of_pos_right (by omega) oneUnits_pos

/-- **Every roll but the total has its whole part at a place of the table.** -/
theorem toNat_roll_le_width_iff :
    (Draw.unitOfWord w * t.total).toUInt64.toNat ≤ r.width ↔
      Draw.unitOfWord w * t.total ≠ t.total := by
  have hpos : 0 < t.total := (drawable_of_table h).total_pos
  rw [toNat_roll h w, ← Nat.lt_succ_iff, Nat.div_lt_iff_lt_mul oneUnits_pos, Nat.succ_eq_add_one,
    ← units_total_of_table h]
  constructor
  · intro hlt heq
    rw [heq] at hlt
    exact Nat.lt_irrefl _ hlt
  · intro hne
    by_contra hlt
    rw [← lt_iff (roll_nonneg_of_table h w) (nonneg_of_pos hpos)] at hlt
    exact hne (Table.roll_eq_total hpos (drawable_of_table h).isFinite_total hlt)

end

/-! ### Draws -/

/-- **The count that a draw gives is found without a walk.** -/
theorem sample_of_table (h : r.table = .ok t) (s : Source) :
    t.sample s =
      (r.toList.getD (Draw.unitOfWord (s.words s.drawn) * t.total).toUInt64.toNat r.max,
        { s with drawn := s.drawn + 1 }) := by
  obtain ⟨horder, hwidth, hentries⟩ := table_eq_ok_iff.mp h
  have hzero : Binary64.units 0.0 = 0 * oneUnits := by
    rw [Nat.zero_mul]
    exact units_zero
  have hlen : 0 + r.toList.length < 2 ^ 53 := by
    rw [Nat.zero_add]
    exact length_toList_lt hwidth
  have hnonneg : (0 : Float) ≤ 0.0 := zero_le_zero
  have hpick := Table.pick_ones (roll_nonneg_of_table h (s.words s.drawn)) hnonneg hzero hlen
    (Nat.zero_le _) t.first.value
  rw [getLast?_toList horder, Option.getD_some, Nat.sub_zero, ← toNat_roll h, ← hentries] at hpick
  rw [← hpick]
  rfl

/-- Every word has a count of the range: the greatest if the roll is the total, and otherwise the one at its
whole part. -/
theorem exists_count (h : r.table = .ok t) :
    ∃ count : UInt64 → Nat,
      (∀ s, t.sample s = (count (s.words s.drawn), { s with drawn := s.drawn + 1 })) ∧
      ∀ w, r.contains (count w) = true ∧
        (Draw.unitOfWord w * t.total = t.total → count w = r.max) ∧
        (Draw.unitOfWord w * t.total ≠ t.total →
          count w = r.min + (Draw.unitOfWord w * t.total).toUInt64.toNat) := by
  refine ⟨fun w => r.toList.getD (Draw.unitOfWord w * t.total).toUInt64.toNat r.max,
    sample_of_table h, fun w => ?_⟩
  obtain ⟨horder, -, -⟩ := table_eq_ok_iff.mp h
  have hplace := toNat_roll_le_width_iff h w
  dsimp only
  rw [getD_toList, contains_iff]
  unfold width at hplace ⊢
  by_cases hroll : Draw.unitOfWord w * t.total = t.total
  · have hpast := mt hplace.mp (not_not_intro hroll)
    rw [if_neg hpast]
    exact ⟨⟨horder, Nat.le_refl _⟩, fun _ => rfl, fun hne => absurd hroll hne⟩
  · have hin := hplace.mpr hroll
    rw [if_pos hin]
    exact ⟨⟨by omega, by omega⟩, fun heq => absurd heq hroll, fun _ => rfl⟩

/-- The same for ends that are words: what is drawn is a word again. -/
theorem exists_word {lo hi : UInt64} (h : (CountRange.mk lo.toNat hi.toNat).table = .ok t) :
    ∃ count : UInt64 → UInt64,
      (∀ s, t.sample s = ((count (s.words s.drawn)).toNat, { s with drawn := s.drawn + 1 })) ∧
      ∀ w, (CountRange.mk lo.toNat hi.toNat).contains (count w).toNat = true ∧
        (Draw.unitOfWord w * t.total = t.total → count w = hi) ∧
        (Draw.unitOfWord w * t.total ≠ t.total →
          (count w).toNat = lo.toNat + (Draw.unitOfWord w * t.total).toUInt64.toNat) := by
  obtain ⟨count, hsample, hcount⟩ := exists_count h
  have hfits : ∀ w, (UInt64.ofNat (count w)).toNat = count w := by
    intro w
    have hle : count w ≤ hi.toNat := (contains_iff.mp (hcount w).1).2
    exact UInt64.toNat_ofNat_of_lt (Nat.lt_of_le_of_lt hle hi.toNat_lt)
  refine ⟨fun w => UInt64.ofNat (count w), fun s => by rw [hsample, hfits], fun w => ?_⟩
  obtain ⟨hmem, htotal, hplace⟩ := hcount w
  refine ⟨by rwa [hfits], fun heq => ?_, by rwa [hfits]⟩
  rw [← UInt64.toNat_inj, hfits]
  exact htotal heq

end CountRange

namespace Catalog

open CountRange

/-- **The table of a range.** Ends that are words make a table if they are in order and less than 4096 apart,
and otherwise are refused with the one fault or the other. The table has every count of the range once, in
order and with weight one, also if the greatest count is the greatest word, and its values are what the
range contains. The total is the number of counts and has not been rounded. A draw takes one word. It gives
the count that is the whole part of the roll away from the least one, and the greatest count if the roll is
the total, so that all that is drawn is in the range and no other word matters. -/
theorem rangeTable_covers (lo hi : UInt64) :
    (hi < lo → rangeTable ⟨lo.toNat, hi.toNat⟩ =
      .error (.range rangeTableName (.inverted lo.toNat hi.toNat))) ∧
    (lo ≤ hi → 4096 ≤ hi - lo → rangeTable ⟨lo.toNat, hi.toNat⟩ =
      .error (.range rangeTableName (.tooWide lo.toNat hi.toNat))) ∧
    (lo ≤ hi → hi - lo < 4096 → ∃ t, rangeTable ⟨lo.toNat, hi.toNat⟩ = .ok t ∧
      t.entries = (List.range' lo.toNat ((hi - lo).toNat + 1)).map (fun n => ⟨n, 1.0⟩) ∧
      (t.entries.map Entry.value).Nodup ∧
      (∀ n, n ∈ t.entries.map Entry.value ↔ (CountRange.mk lo.toNat hi.toNat).contains n = true) ∧
      t.total = (hi - lo + 1).toFloat ∧
      ∃ count : UInt64 → UInt64,
        (∀ s, t.sample s = ((count (s.words s.drawn)).toNat, { s with drawn := s.drawn + 1 })) ∧
        ∀ w, (CountRange.mk lo.toNat hi.toNat).contains (count w).toNat = true ∧
          (Draw.unitOfWord w * t.total = t.total → count w = hi) ∧
          (Draw.unitOfWord w * t.total ≠ t.total →
            (count w).toNat = lo.toNat + (Draw.unitOfWord w * t.total).toUInt64.toNat)) := by
  have hwidth : lo ≤ hi → (CountRange.mk lo.toNat hi.toNat).width = (hi - lo).toNat :=
    fun horder => (UInt64.toNat_sub_of_le _ _ horder).symm
  refine ⟨fun hinverted => ?_, fun horder hwide => ?_, fun horder hnarrow => ?_⟩
  · rw [rangeTable, table_of_inverted (UInt64.lt_iff_toNat_lt.mp hinverted)]
  · rw [rangeTable, table_of_tooWide (UInt64.le_iff_toNat_le.mp horder)]
    rw [hwidth horder]
    exact UInt64.le_iff_toNat_le.mp hwide
  · have hmin := UInt64.le_iff_toNat_le.mp horder
    have hshort : (hi - lo).toNat < maxRangeLength := UInt64.lt_iff_toNat_lt.mp hnarrow
    obtain ⟨t, ht⟩ := exists_table hmin (by rwa [hwidth horder])
    obtain ⟨-, -, hentries⟩ := table_eq_ok_iff.mp ht
    have hvalues : t.entries.map Entry.value = (CountRange.mk lo.toNat hi.toNat).toList := by
      rw [hentries]
      simp [Function.comp_def]
    have hnext : (hi - lo + 1).toNat = (CountRange.mk lo.toNat hi.toNat).width + 1 := by
      rw [hwidth horder, UInt64.toNat_add]
      unfold maxRangeLength at hshort
      exact Nat.mod_eq_of_lt (by simp; omega)
    refine ⟨t, rangeTable_eq_ok_iff.mpr ht, ?_, ?_, fun n => ?_, total_of_table ht hnext,
      exists_word ht⟩
    · rw [hentries, toList, hwidth horder]
    · rw [hvalues]
      exact List.nodup_range'
    · rw [hvalues, mem_toList_iff hmin]

/-- The two greatest words are a range with a table, of which the lesser half of the words draws the first
and the others the second. A range of 4097 counts that ends there is too wide. -/
theorem rangeTable_covers_greatest :
    (∃ t, rangeTable ⟨2 ^ 64 - 2, 2 ^ 64 - 1⟩ = .ok t ∧
      t.entries = [⟨2 ^ 64 - 2, 1.0⟩, ⟨2 ^ 64 - 1, 1.0⟩] ∧ t.total = 2.0 ∧
      (t.sample ⟨fun _ => 0x7fffffffffffffff, 0⟩).1 = 2 ^ 64 - 2 ∧
      (t.sample ⟨fun _ => 0x8000000000000000, 0⟩).1 = 2 ^ 64 - 1) ∧
    rangeTable ⟨2 ^ 64 - 4097, 2 ^ 64 - 1⟩ =
      .error (.range rangeTableName (.tooWide (2 ^ 64 - 4097) (2 ^ 64 - 1))) ∧
    rangeTable ⟨1, 0⟩ = .error (.range rangeTableName (.inverted 1 0)) := by
  obtain ⟨-, -, hok⟩ := rangeTable_covers 0xfffffffffffffffe 0xffffffffffffffff
  obtain ⟨t, ht, hentries, -, -, htotal, count, hsample, hcount⟩ := hok (by decide) (by decide)
  have htwo : t.total = 2.0 := by
    rw [htotal]
    decide +kernel
  have hdrawn : ∀ w : UInt64, Draw.unitOfWord w * 2.0 ≠ 2.0 →
      (t.sample ⟨fun _ => w, 0⟩).1 = 2 ^ 64 - 2 + (Draw.unitOfWord w * 2.0).toUInt64.toNat := by
    intro w hne
    rw [← htwo] at hne ⊢
    rw [hsample]
    exact (hcount w).2.2 hne
  refine ⟨⟨t, ht, ?_, htwo, ?_, ?_⟩, ?_, ?_⟩
  · rw [hentries]
    rfl
  · rw [hdrawn _ (by decide +kernel)]
    decide +kernel
  · rw [hdrawn _ (by decide +kernel)]
    decide +kernel
  · exact (rangeTable_covers 0xffffffffffffefff 0xffffffffffffffff).2.1 (by decide) (by decide)
  · exact (rangeTable_covers 1 0).1 (by decide)

end Catalog

end FuzzPolicy
