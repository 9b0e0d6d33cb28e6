import Mathlib
import FuzzPolicy.Proofs.Policy.Accepted
import FuzzPolicy.Session.Operation

/-!
# Sessions can be replayed alone

A session begins with a copy of its template and a source of its own, and all that it takes from its master
seed and its id is their sum. No operation reads the id after that: under another id it gives the same
answer and leaves the same session, `Session.perform_withId`. So two sessions of a template with the same
seed cannot be told apart by what they do, `Session.Alike.run`, and a session of a batch does not depend on
the other ones, nor on how many there are: `Session.replayed_alone`.
-/

namespace FuzzPolicy

namespace Session

/-! ### The id -/

/-- The session under another id. -/
def withId (s : Session) (id : UInt64) : Session :=
  { s with id }

/-- Whether two sessions are the same but for their ids. -/
structure Alike (s s' : Session) : Prop where
  seed : s.seed = s'.seed
  policy : s.policy = s'.policy
  source : s.source = s'.source
  consts : s.consts = s'.consts
  stencil : s.stencil = s'.stencil

theorem alike_withId (s : Session) (id : UInt64) : s.Alike (s.withId id) :=
  ⟨rfl, rfl, rfl, rfl, rfl⟩

theorem Alike.eq_withId {s s' : Session} (h : s.Alike s') : s' = s.withId s'.id := by
  cases s
  cases s'
  obtain ⟨rfl, rfl, rfl, rfl, rfl⟩ := h
  rfl

/-- **No operation reads the id**, and none changes it. -/
theorem perform_withId (s : Session) (id : UInt64) (op : Operation) :
    (s.withId id).perform op = ((s.perform op).1, (s.perform op).2.withId id) := by
  cases op <;> rfl

variable {s s' : Session}

theorem Alike.perform (h : s.Alike s') (op : Operation) :
    (s.perform op).1 = (s'.perform op).1 ∧ (s.perform op).2.Alike (s'.perform op).2 := by
  rw [h.eq_withId, perform_withId]
  exact ⟨rfl, alike_withId _ _⟩

/-- **Sessions that are alike do alike**: they answer the same at every step and are alike in the end. -/
theorem Alike.run (h : s.Alike s') (ops : List Operation) :
    (s.run ops).1 = (s'.run ops).1 ∧ (s.run ops).2.Alike (s'.run ops).2 := by
  induction ops generalizing s s' with
  | nil => exact ⟨rfl, h⟩
  | cons op ops ih =>
      obtain ⟨hanswer, hnext⟩ := h.perform op
      obtain ⟨hanswers, hend⟩ := ih hnext
      rw [run_cons, run_cons, hanswer, hanswers]
      exact ⟨rfl, hend⟩

theorem Alike.bootstrap (h : s.Alike s') : s.bootstrap.2.Alike s'.bootstrap.2 :=
  (h.perform .bootstrap).2

/-! ### The seed -/

theorem seedOf_eq_iff {master master' id id' : UInt64} : seedOf master id = seedOf master' id' ↔
    master.toNat + id.toNat ≡ master'.toNat + id'.toNat [MOD 2 ^ 64] := by
  rw [← UInt64.toNat_inj, seedOf, seedOf, UInt64.toNat_add, UInt64.toNat_add]
  exact Iff.rfl

/-- Sessions of a template are alike if they have the same seed. -/
theorem alike_new (template : Policy) {master master' id id' : UInt64}
    (h : seedOf master id = seedOf master' id') :
    (new template master id).Alike (new template master' id') :=
  ⟨h, rfl, congrArg Source.ofSeed h, rfl, rfl⟩

/-- The next id is as good as the next master seed. -/
theorem seedOf_succ (master : UInt64) (k : Nat) :
    seedOf master (k + 1).toUInt64 = seedOf (master + 1) k.toUInt64 := by
  have hsucc : (k + 1).toUInt64 = k.toUInt64 + 1 := UInt64.ofNat_add k 1
  rw [seedOf, seedOf, hsucc, UInt64.add_comm k.toUInt64, ← UInt64.add_assoc]

end Session

/-! ### Batches -/

open Session

@[simp] theorem length_bootstrapSessions (template : Policy) (master : UInt64) (count : Nat) :
    (bootstrapSessions template master count).length = count := by
  rw [bootstrapSessions, List.length_map, List.length_range]

theorem bootstrapSessions_getElem? (template : Policy) (master : UInt64) {count k : Nat}
    (h : k < count) : (bootstrapSessions template master count)[k]? =
      some (new template master k.toUInt64).bootstrap.2 := by
  rw [bootstrapSessions, List.getElem?_map, List.getElem?_range h]
  rfl

/-- A larger batch has more sessions behind. -/
theorem bootstrapSessions_isPrefix (template : Policy) (master : UInt64) {count more : Nat}
    (h : count ≤ more) :
    bootstrapSessions template master count <+: bootstrapSessions template master more := by
  obtain ⟨others, rfl⟩ := Nat.exists_eq_add_of_le h
  rw [bootstrapSessions, bootstrapSessions, List.range_add, List.map_append]
  exact List.prefix_append _ _

/-- Without its first session a batch is the one of the next master seed. -/
theorem bootstrapSessions_tail (template : Policy) (master : UInt64) (count : Nat) :
    List.Forall₂ Alike (bootstrapSessions template master (count + 1)).tail
      (bootstrapSessions template (master + 1) count) := by
  rw [bootstrapSessions, bootstrapSessions, List.range_succ_eq_map, List.map_cons, List.tail_cons,
    List.map_map, List.forall₂_map_left_iff, List.forall₂_map_right_iff, List.forall₂_same]
  intro k _
  exact (alike_new template (seedOf_succ master k)).bootstrap

namespace Session

/-- **A session can be replayed without the others.** Sessions of a template, whatever modes it has, give
the same answers at every step and are the same in the end but for their ids, if the sums of master seed
and id are equal modulo 2⁶⁴. A batch has as many sessions as were asked for, each is the one that has its
number for id, and so a larger batch begins with the smaller one, and a batch without its first session is
that of the next master seed but for the ids. -/
theorem replayed_alone (template : Policy) :
    (∀ master master' id id' : UInt64,
      master.toNat + id.toNat ≡ master'.toNat + id'.toNat [MOD 2 ^ 64] → ∀ ops,
        ((new template master id).run ops).1 = ((new template master' id').run ops).1 ∧
        ((new template master id).run ops).2.Alike ((new template master' id').run ops).2) ∧
    ∀ master count,
      (bootstrapSessions template master count).length = count ∧
      (∀ k, k < count → (bootstrapSessions template master count)[k]? =
        some (new template master k.toUInt64).bootstrap.2) ∧
      (∀ more, count ≤ more →
        bootstrapSessions template master count <+: bootstrapSessions template master more) ∧
      List.Forall₂ Alike (bootstrapSessions template master (count + 1)).tail
        (bootstrapSessions template (master + 1) count) := by
  constructor
  · intro master master' id id' h ops
    exact (alike_new template (seedOf_eq_iff.mpr h)).run ops
  · intro master count
    exact ⟨length_bootstrapSessions template master count,
      fun k hk => bootstrapSessions_getElem? template master hk,
      fun more hmore => bootstrapSessions_isPrefix template master hmore,
      bootstrapSessions_tail template master count⟩

/-- The greatest master seed with the id 1 is as good as 0 with the id 0, and its batch goes on with what
the batch of 0 begins with. -/
theorem replayed_alone_wrapped :
    let ops : List Operation := [.bootstrap, .planConst, .recordConst 7, .recordDrawn (-1000) 1000]
    ∃ p : Policy, p.Accepted ∧
      ((new p 0xffffffffffffffff 1).run ops).1 = ((new p 0 0).run ops).1 ∧
      ((new p 0xffffffffffffffff 1).run ops).2.Alike ((new p 0 0).run ops).2 ∧
      (bootstrapSessions p 0xffffffffffffffff 3)[1]? =
        some (new p 0xffffffffffffffff 1).bootstrap.2 ∧
      List.Forall₂ Alike (bootstrapSessions p 0xffffffffffffffff 3).tail
        (bootstrapSessions p 0 2) := by
  intro ops
  obtain ⟨tables, p, hp, -⟩ := Policy.exists_default (fun _ => true) (by decide +kernel)
  obtain ⟨hruns, hbatches⟩ := replayed_alone p
  obtain ⟨hanswers, halike⟩ := hruns 0xffffffffffffffff 0 1 0 (by decide) ops
  obtain ⟨-, hplaces, -, -⟩ := hbatches 0xffffffffffffffff 3
  obtain ⟨-, -, -, htail⟩ := hbatches 0xffffffffffffffff 2
  exact ⟨p, .inl ⟨_, _, _, hp⟩, hanswers, halike, hplaces 1 (by decide), htail⟩

end Session

end FuzzPolicy
