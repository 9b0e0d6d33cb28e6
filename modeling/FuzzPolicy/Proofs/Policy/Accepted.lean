import FuzzPolicy.Config.Build
import FuzzPolicy.Proofs.Checks

/-!
# Accepted policies

A policy is accepted if it is made of parts that pass the checks, by hand or from a configuration. Both
ways end at `Policy.ofParts`, so what holds of every policy made there holds of every accepted one.
-/

namespace FuzzPolicy.Policy

open Checks

/-- Parts make a policy exactly if the limits are valid and the tables fit them. -/
theorem ofParts_eq_ok_iff {limits : Limits} {tables : Catalog} {eviction : Eviction} {p : Policy} :
    ofParts limits tables eviction = .ok p ↔
      limits.validate = .ok () ∧ tables.validate limits = .ok () ∧
        p = { limits, tables, baseline := tables, eviction, operatorMode := .unset,
              constMode := .unset, recent := [] } := by
  unfold ofParts
  rw [bind_eq_ok_iff]
  constructor
  · rintro ⟨_, hl, h⟩
    obtain ⟨_, ht, h⟩ := bind_eq_ok_iff.mp h
    exact ⟨hl, ht, (Except.ok.inj h).symm⟩
  · rintro ⟨hl, ht, rfl⟩
    exact ⟨(), hl, bind_eq_ok_iff.mpr ⟨(), ht, rfl⟩⟩

/-- A configuration that makes a policy does so by its parts. -/
theorem ofParts_of_build {c : PolicyConfig} {p : Policy} (h : c.build = .ok p) :
    ∃ tables, ofParts c.limits.apply tables (c.eviction.getD .fifo) = .ok p := by
  obtain ⟨_, -, h⟩ := bind_eq_ok_iff.mp h
  obtain ⟨defaults, -, h⟩ := bind_eq_ok_iff.mp h
  split at h
  · rename_i tables _
    exact ⟨tables, h⟩
  · cases h

/-- Whether a policy was made from valid parts or from a configuration. -/
def Accepted (p : Policy) : Prop :=
  (∃ limits tables eviction, ofParts limits tables eviction = .ok p) ∨
    ∃ c : PolicyConfig, c.build = .ok p

theorem Accepted.parts {p : Policy} (h : p.Accepted) :
    ∃ limits tables eviction, ofParts limits tables eviction = .ok p := by
  rcases h with h | ⟨c, hc⟩
  · exact h
  · obtain ⟨tables, hp⟩ := ofParts_of_build hc
    exact ⟨_, tables, _, hp⟩

/-- A configuration makes a policy, and what is computed of it is true of it. -/
theorem exists_build (c : PolicyConfig) (check : Policy → Bool)
    (h : (c.build.map check).toOption = some true) : ∃ p, c.build = .ok p ∧ check p = true := by
  cases hp : c.build with
  | error fault =>
      rw [hp] at h
      cases h
  | ok p =>
      rw [hp] at h
      exact ⟨p, rfl, Option.some.inj h⟩

/-- Some limits and their default tables make a policy, and what is computed of it is true of it. -/
theorem exists_ofDefaults (l : Limits) (check : Policy → Bool)
    (h : ((Catalog.defaults l).bind fun tables =>
      (ofParts l tables .fifo).map check).toOption = some true) :
    ∃ tables p, ofParts l tables .fifo = .ok p ∧ check p = true := by
  cases htables : Catalog.defaults l with
  | error fault =>
      rw [htables] at h
      cases h
  | ok tables =>
      rw [htables] at h
      change ((ofParts l tables .fifo).map check).toOption = some true at h
      cases hp : ofParts l tables .fifo with
      | error fault =>
          rw [hp] at h
          cases h
      | ok p =>
          rw [hp] at h
          exact ⟨tables, p, hp, Option.some.inj h⟩

/-- The default limits are such. -/
theorem exists_default (check : Policy → Bool)
    (h : ((Catalog.defaults .default).bind fun tables =>
      (ofParts .default tables .fifo).map check).toOption = some true) :
    ∃ tables p, ofParts .default tables .fifo = .ok p ∧ check p = true :=
  exists_ofDefaults .default check h

end FuzzPolicy.Policy
