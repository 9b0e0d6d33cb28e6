import FuzzPolicy.Proofs.Policy.DrawnCounts
import FuzzPolicy.Proofs.Policy.WellFormed

/-!
# The pragmas before a loop

The number of kinds is drawn first, then as many kinds, and a kind that was drawn before is dropped. What is
left is the list without its repeats in the order of the first occurrences, `KeepsFirst`, and there is one
such list only. Whether repeats are dropped at once or after the last kind makes no difference, neither to
what is left nor to the words that are taken: `Policy.choosePragmas_eq_gather`. So a repeat makes the answer
shorter but not the draw, and what is drawn after the pragmas does not depend on how many are left:
`Policy.pragmas_first_drawn`.
-/

namespace FuzzPolicy

/-! ### Lists without their repeats -/

section

variable {α : Type} [DecidableEq α] {drawn kept : List α} {a : α}

/-- What is kept of a list if every value is kept once, in the order in which they occur first. -/
structure KeepsFirst (drawn kept : List α) : Prop where
  mem_iff : ∀ a, a ∈ kept ↔ a ∈ drawn
  inOrder : kept.Pairwise fun a b => drawn.idxOf a < drawn.idxOf b

/-- Keeps a value unless it has been kept before. -/
def keepNew (kept : List α) (a : α) : List α :=
  if a ∈ kept then kept else kept ++ [a]

namespace KeepsFirst

theorem nil : KeepsFirst ([] : List α) [] :=
  ⟨fun _ => Iff.rfl, .nil⟩

theorem nodup (h : KeepsFirst drawn kept) : kept.Nodup := by
  refine h.inOrder.imp ?_
  rintro a b hlt rfl
  exact Nat.lt_irrefl _ hlt

/-- Nothing else is kept, and not in another order. -/
theorem unique {kept' : List α} (h : KeepsFirst drawn kept) (h' : KeepsFirst drawn kept') :
    kept = kept' := by
  have hperm : kept.Perm kept' :=
    (List.perm_ext_iff_of_nodup h.nodup h'.nodup).mpr fun a => (h.mem_iff a).trans (h'.mem_iff a).symm
  exact hperm.eq_of_pairwise (fun a b _ _ hab hba => absurd hab (Nat.lt_asymm hba)) h.inOrder h'.inOrder

theorem length_le (h : KeepsFirst drawn kept) : kept.length ≤ drawn.length :=
  (h.nodup.subperm fun a => (h.mem_iff a).mp).length_le

theorem length_pos (h : KeepsFirst drawn kept) (hpos : 1 ≤ drawn.length) : 1 ≤ kept.length := by
  obtain ⟨a, ha⟩ := List.exists_mem_of_length_pos hpos
  exact List.length_pos_of_mem ((h.mem_iff a).mpr ha)

/-- What occurred before occurs first where it did. -/
theorem inOrder_append (h : KeepsFirst drawn kept) (a : α) :
    kept.Pairwise fun b c => (drawn ++ [a]).idxOf b < (drawn ++ [a]).idxOf c := by
  refine h.inOrder.imp_of_mem ?_
  intro b c hb hc hlt
  rwa [List.idxOf_append_of_mem ((h.mem_iff b).mp hb), List.idxOf_append_of_mem ((h.mem_iff c).mp hc)]

/-- **One value more**: it is kept if it is new. -/
theorem snoc (h : KeepsFirst drawn kept) (a : α) :
    KeepsFirst (drawn ++ [a]) (keepNew kept a) := by
  unfold keepNew
  by_cases ha : a ∈ kept
  · rw [if_pos ha]
    refine ⟨fun b => ?_, h.inOrder_append a⟩
    rw [h.mem_iff, List.mem_append, List.mem_singleton]
    constructor
    · exact .inl
    · rintro (hb | rfl)
      · exact hb
      · exact (h.mem_iff b).mp ha
  · rw [if_neg ha]
    refine ⟨fun b => ?_, List.pairwise_append.mpr ⟨h.inOrder_append a, List.pairwise_singleton _ _, ?_⟩⟩
    · rw [List.mem_append, List.mem_append, h.mem_iff]
    · -- A new value comes after all that were drawn, so after all that were kept.
      intro b hb c hc
      rw [List.mem_singleton.mp hc]
      have hb : b ∈ drawn := (h.mem_iff b).mp hb
      have hnew : a ∉ drawn := mt (h.mem_iff a).mpr ha
      rw [List.idxOf_append_of_mem hb, List.idxOf_append_of_notMem hnew]
      exact Nat.lt_add_right _ (List.idxOf_lt_length_of_mem hb)

/-- **More values, one after the other**: of all of them together the first occurrences are kept. -/
theorem append (h : KeepsFirst drawn kept) (more : List α) :
    KeepsFirst (drawn ++ more) (more.foldl keepNew kept) := by
  -- What has been seen of `more` moves over to `drawn`, with which `kept` stays in step.
  induction more generalizing drawn kept with
  | nil =>
      rw [List.append_nil]
      exact h
  | cons a more ih =>
      rw [List.append_cons]
      exact ih (h.snoc a)

end KeepsFirst

theorem keepsFirst_foldl (l : List α) : KeepsFirst l (l.foldl keepNew []) :=
  KeepsFirst.nil.append l

theorem eraseDups_append_singleton (l : List α) (a : α) :
    (l ++ [a]).eraseDups = keepNew l.eraseDups a := by
  rw [List.eraseDups_append, keepNew]
  by_cases ha : a ∈ l
  · simp [List.removeAll, ha]
  · simp [List.removeAll, ha, List.eraseDups_cons]

/-- Dropping the repeats of a list is keeping what is new, one value after the other. -/
theorem eraseDups_eq_foldl (l : List α) : l.eraseDups = l.foldl keepNew [] := by
  induction l using List.reverseRecOn with
  | nil => rfl
  | append_singleton l a ih =>
      rw [eraseDups_append_singleton, ih, List.foldl_append, List.foldl_cons, List.foldl_nil]

end

/-! ### Draws in a row -/

/-- A source with so many more words taken from it. -/
def Source.skip (s : Source) (n : Nat) : Source :=
  { s with drawn := s.drawn + n }

theorem Source.skip_skip (s : Source) (m n : Nat) : (s.skip m).skip n = s.skip (m + n) := by
  simp [Source.skip, Nat.add_assoc]

namespace Draw

variable {α : Type} {d : Draw α}

/-- Whether a draw takes one word, whatever it gives. -/
def TakesWord (d : Draw α) : Prop :=
  ∀ s, (d s).2 = s.skip 1

/-- Draws in a row that take a word each: the place of an answer is the number of words before it. -/
theorem TakesWord.replicate_apply (h : d.TakesWord) (n : Nat) (s : Source) :
    replicate n d s = ((List.range n).map fun i => (d (s.skip i)).1, s.skip n) := by
  induction n generalizing s with
  | zero => rfl
  | succ n ih =>
      have hnext : ∀ i, (s.skip 1).skip i = s.skip (i + 1) := fun i => by
        rw [Source.skip_skip, Nat.add_comm]
      rw [replicate, bind_apply, bind_apply, h s, ih, List.range_succ_eq_map, List.map_cons, List.map_map]
      simp only [hnext]
      rfl

variable [DecidableEq α]

/-- Draws so many values and keeps those that are new, besides what has been kept before. -/
def gather (d : Draw α) : Nat → List α → Draw (List α)
  | 0, kept => return kept
  | n + 1, kept => do
    let a ← d
    gather d n (keepNew kept a)

/-- **Repeats may be dropped at once or later.** -/
theorem gather_eq (d : Draw α) (n : Nat) (kept : List α) :
    d.gather n kept = do return (← replicate n d).foldl keepNew kept := by
  induction n generalizing kept with
  | zero => rfl
  | succ n ih =>
      funext s
      rw [gather, bind_apply, ih]
      rfl

end Draw

namespace Table

variable {α : Type} {t : Table α}

theorem sample_takesWord (t : Table α) : t.sample.TakesWord :=
  fun _ => rfl

/-- A draw among wanted values that gives one takes a word. -/
theorem Draws.sampleWhere_eq {keep : α → Bool} (h : t.Draws keep) (s : Source) :
    ∃ v ∈ t.support, keep v = true ∧ t.sampleWhere keep s = (some v, s.skip 1) := by
  obtain ⟨v, hv, hkeep, hdrawn⟩ := h s
  refine ⟨v, hv, hkeep, Prod.ext hdrawn ?_⟩
  unfold sampleWhere sampleReweighted at hdrawn ⊢
  split at hdrawn
  · cases hdrawn
  · rename_i hsome
    simp only [if_neg hsome]
    rfl

end Table

/-! ### Pragmas -/

namespace Policy

variable {p : Policy}

/-- The pragmas before a loop, with repeats dropped while the kinds are drawn. -/
def gatherPragmas (p : Policy) : Draw (List Pragma) := do
  let bound := p.limits.maxPragmaNum
  let count := (← p.tables.pragmaNum.sampleWhere fun n => n ≤ bound).getD 0
  p.tables.pragmaKind.sample.gather count []

theorem choosePragmas_eq_gather (p : Policy) : p.choosePragmas = p.gatherPragmas := by
  unfold choosePragmas gatherPragmas
  simp only [Draw.gather_eq, eraseDups_eq_foldl]

/-- Pragmas depend on no mode. -/
theorem choosePragmas_after (hp : p.Accepted) (modes : List (ModeCall × Source)) :
    (p.after modes).choosePragmas = p.choosePragmas := by
  have hkept : ∀ t, t ∉ ModeKind.operators.dependents → t ∉ ModeKind.constants.dependents →
      (p.after modes).tables.table t = p.tables.table t := fun t ho hc =>
    (table_after hp modes ho hc).trans (table_after hp [] ho hc).symm
  have hnum : (p.after modes).tables.pragmaNum = p.tables.pragmaNum :=
    hkept .pragmaNum (by decide) (by decide)
  have hkind : (p.after modes).tables.pragmaKind = p.tables.pragmaKind :=
    hkept .pragmaKind (by decide) (by decide)
  unfold choosePragmas
  rw [after_limits, hnum, hkind]

/-- The kinds that are drawn from a source, after their number and a word each. -/
structure DrawsPragmas (p : Policy) (s : Source) (kinds : List Pragma) : Prop where
  number : p.tables.pragmaNum.sampleWhere (fun n => n ≤ p.limits.maxPragmaNum) s =
    (some kinds.length, s.skip 1)
  number_mem : kinds.length ∈ p.tables.pragmaNum.support
  number_le : kinds.length ≤ p.limits.maxPragmaNum
  kind : ∀ i (h : i < kinds.length),
    p.tables.pragmaKind.sample (s.skip (1 + i)) = (kinds[i], s.skip (1 + i + 1))
  kind_mem : ∀ k ∈ kinds, k ∈ p.tables.pragmaKind.support

/-- **Kinds are drawn from every source**, and what is answered is left of them. -/
theorem Valid.draws_pragmas (hp : p.Valid) (s : Source) :
    ∃ kinds, p.DrawsPragmas s kinds ∧
      p.choosePragmas s = (kinds.eraseDups, s.skip (1 + kinds.length)) := by
  obtain ⟨n, hn, hle, hnumber⟩ := hp.draws_pragmaNum.sampleWhere_eq s
  have hkind : p.tables.pragmaKind.WellFormed := hp.wellFormed .pragmaKind (by decide) (by decide)
  have hdraws := p.tables.pragmaKind.sample_takesWord.replicate_apply n (s.skip 1)
  let kinds := (List.range n).map fun i => (p.tables.pragmaKind.sample ((s.skip 1).skip i)).1
  have hlength : kinds.length = n := by simp [kinds]
  refine ⟨kinds, ⟨?_, ?_, ?_, ?_, ?_⟩, ?_⟩
  · rw [hlength, hnumber]
  · rwa [hlength]
  · rw [hlength]
    exact of_decide_eq_true hle
  · intro i hi
    refine Prod.ext ?_ (by rw [p.tables.pragmaKind.sample_takesWord, Source.skip_skip])
    simp [kinds, Source.skip_skip]
  · intro k hk
    obtain ⟨i, -, rfl⟩ := List.mem_map.mp hk
    exact Table.always_sample hkind _
  · unfold choosePragmas
    rw [Draw.bind_apply, hnumber, Draw.bind_apply, Option.getD_some, hdraws, hlength, ← Source.skip_skip]
    rfl

/-- **The pragmas before a loop.** Whatever modes an accepted policy has and whatever the source is: a number
that its table gives and that is not above the limit is drawn first, and then as many kinds that their table
gives, with a word for each of these draws, however many repeats there are. The answer is what is left of
the kinds if every one is kept where it occurs first, and nothing else is. So no two pragmas are the same, no
kind that was drawn is missing, there are no more of them than were drawn or than the limit allows, and
there is one if any was drawn. Dropping the repeats while the kinds are drawn is the same draw. -/
theorem pragmas_first_drawn (hp : p.Made) (modes : List (ModeCall × Source)) :
    (p.after modes).choosePragmas = (p.after modes).gatherPragmas ∧
    ∀ s, ∃ kinds chosen, p.DrawsPragmas s kinds ∧
      (p.after modes).choosePragmas s = (chosen, s.skip (1 + kinds.length)) ∧
      (∀ kept, KeepsFirst kinds kept ↔ kept = chosen) ∧
      chosen.Nodup ∧ (∀ k ∈ kinds, k ∈ chosen) ∧
      chosen.length ≤ min kinds.length p.limits.maxPragmaNum ∧
      (1 ≤ kinds.length → 1 ≤ chosen.length) ∧
      ∀ k ∈ chosen, k ∈ p.tables.pragmaKind.support := by
  refine ⟨choosePragmas_eq_gather _, fun s => ?_⟩
  obtain ⟨limits, tables, eviction, hparts, hwf⟩ := hp.parts
  have hvalid : p.Valid := valid_after hparts hwf []
  obtain ⟨kinds, hdrawn, hchosen⟩ := hvalid.draws_pragmas s
  have hkeeps : KeepsFirst kinds kinds.eraseDups := by
    rw [eraseDups_eq_foldl]
    exact keepsFirst_foldl kinds
  refine ⟨kinds, kinds.eraseDups, hdrawn, ?_, fun kept => ?_, hkeeps.nodup, ?_, ?_, hkeeps.length_pos, ?_⟩
  · rw [choosePragmas_after hp.accepted, hchosen]
  · constructor
    · intro h
      exact h.unique hkeeps
    · rintro rfl
      exact hkeeps
  · intro k hk
    exact (hkeeps.mem_iff k).mpr hk
  · exact Nat.le_min.mpr ⟨hkeeps.length_le, hkeeps.length_le.trans hdrawn.number_le⟩
  · intro k hk
    exact hdrawn.kind_mem k ((hkeeps.mem_iff k).mp hk)

/-- On the default policy three kinds are drawn of which the last is the first again. Two are left, in the
order in which they were drawn, and four words have been taken. -/
theorem pragmas_first_drawn_repeat : ∃ p : Policy, p.Made ∧ ∃ s kinds, p.DrawsPragmas s kinds ∧
    kinds.length = 3 ∧ KeepsFirst kinds [.clangVectorize, .ompSimd] ∧
    p.choosePragmas s = ([.clangVectorize, .ompSimd], s.skip 4) := by
  let c : PolicyConfig := ⟨.blank, .blank, none⟩
  -- The first word decides on the number and the third one on the second kind.
  let s : Source := ⟨fun i => if i = 0 ∨ i = 2 then 0xffffffffffffffff else 0, 0⟩
  obtain ⟨p, hp, hcheck⟩ := exists_build c
    (fun p => (p.choosePragmas s).1 = [.clangVectorize, .ompSimd] ∧ (p.choosePragmas s).2.drawn = 4)
    (by decide +kernel)
  obtain ⟨hleft, htaken⟩ := of_decide_eq_true hcheck
  obtain ⟨kinds, chosen, hdrawn, hchosen, hkeeps, -⟩ := (pragmas_first_drawn (.build hp) []).2 s
  change p.choosePragmas s = _ at hchosen
  rw [hchosen] at hleft htaken
  have hlength : kinds.length = 3 := by
    have hwords : 0 + (1 + kinds.length) = 4 := htaken
    omega
  refine ⟨p, .build hp, s, kinds, hdrawn, hlength, (hkeeps _).mpr hleft.symm, ?_⟩
  rw [hchosen, hlength]
  exact Prod.ext hleft rfl

end Policy

end FuzzPolicy
