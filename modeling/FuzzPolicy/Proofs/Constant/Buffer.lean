import FuzzPolicy.Constant.Buffer
import FuzzPolicy.Proofs.Random.Always

/-!
# Buffers lose nothing

What was put out of a buffer and what is still in it are together what it accepted, neither more nor
less, however many offers were made and whatever was drawn: `ConstBuffer.nothing_lost`. A buffer that puts
out the oldest constant keeps order as well, so it always has the latest constants that it accepted.

An offer is taken in one of four ways, `ConstBuffer.Takes`, and all that holds of runs is seen on these.
-/

namespace FuzzPolicy

open Draw

open scoped List

variable {α : Type}

/-- A constant that is offered, the table that is asked if there is no room, and the source to draw
from. -/
structure Offering (α : Type) where
  value : α
  replace : Table Bool
  source : Source

/-- A constant that was offered, and what became of it. -/
structure Trade (α : Type) where
  value : α
  offer : Offer α
  deriving DecidableEq, Repr

namespace Trade

/-- The constant that came in, if it was kept. -/
def accepted? (t : Trade α) : Option α :=
  match t.offer with
  | .inserted | .replaced _ => some t.value
  | .rejected => none

/-- The constant that went out, if there was one. -/
def evicted? (t : Trade α) : Option α :=
  match t.offer with
  | .replaced old => some old
  | .inserted | .rejected => none

end Trade

namespace ConstBuffer

variable {b : ConstBuffer α}

/-! ### One offer -/

/-- What can become of a constant that is offered, and the buffer after it. -/
inductive Takes (b : ConstBuffer α) : Trade α → ConstBuffer α → Prop
  | inserted {value : α} (room : b.length < b.capacity) :
      Takes b ⟨value, .inserted⟩ { b with values := b.values ++ [value] }
  | oldest {value old : α} {others : List α} (full : b.capacity ≤ b.length)
      (fifo : b.eviction = .fifo) (first : b.values = old :: others) :
      Takes b ⟨value, .replaced old⟩ { b with values := others ++ [value] }
  | place {value old : α} {index : Nat} (full : b.capacity ≤ b.length)
      (random : b.eviction = .randomReplace) (held : b.values[index]? = some old) :
      Takes b ⟨value, .replaced old⟩ { b with values := b.values.set index value }
  | rejected {value : α} (full : b.capacity ≤ b.length) : Takes b ⟨value, .rejected⟩ b

theorem isFull_iff : b.isFull = true ↔ b.capacity ≤ b.length :=
  decide_eq_true_iff

/-- With room for it a constant is inserted, and nothing is drawn. -/
theorem offer_of_room (h : b.length < b.capacity) (replace : Table Bool) (value : α) (s : Source) :
    b.offer replace value s = ((.inserted, { b with values := b.values ++ [value] }), s) := by
  have hroom : b.isFull = false := by
    rw [← Bool.not_eq_true, isFull_iff]
    exact Nat.not_le.mpr h
  unfold offer
  rw [if_neg (Nat.ne_of_gt (Nat.zero_lt_of_lt h)), hroom]
  rfl

/-- A buffer without capacity rejects everything, and nothing is drawn. -/
theorem offer_of_capacity_eq_zero (h : b.capacity = 0) (replace : Table Bool) (value : α)
    (s : Source) : b.offer replace value s = ((.rejected, b), s) := by
  unfold offer
  rw [if_pos h]
  rfl

/-- A full buffer either puts out a constant or has none to put out. -/
theorem always_replaceWith (hfull : b.capacity ≤ b.length) (value : α) :
    (b.replaceWith value).Always fun r => b.Takes ⟨value, r.1⟩ r.2 := by
  unfold replaceWith
  cases hvalues : b.values with
  | nil => exact always_pure (.rejected hfull)
  | cons old others =>
      dsimp only
      cases heviction : b.eviction with
      | fifo =>
          have htakes : b.Takes ⟨value, .replaced old⟩ { b with values := others ++ [value] } :=
            .oldest hfull heviction hvalues
          rw [heviction] at htakes
          exact always_pure htakes
      | randomReplace =>
          have hlength : b.length = (old :: others).length := congrArg List.length hvalues
          refine always_bind (always_below_lt (by rw [hlength]; exact Nat.succ_pos _)) ?_
          intro index hindex
          have hheld : b.values[index]? = some (b.values.getD index old) := by
            rw [List.getD_eq_getElem _ _ hindex]
            exact List.getElem?_eq_getElem hindex
          have htakes : b.Takes ⟨value, .replaced (b.values.getD index old)⟩
              { b with values := b.values.set index value } := .place hfull heviction hheld
          rw [heviction, hvalues] at htakes
          exact always_pure htakes

/-- **An offer is taken in one of these ways.** -/
theorem always_offer (b : ConstBuffer α) (replace : Table Bool) (value : α) :
    (b.offer replace value).Always fun r => b.Takes ⟨value, r.1⟩ r.2 := by
  rcases Nat.lt_or_ge b.length b.capacity with hroom | hfull
  · intro s
    rw [offer_of_room hroom]
    exact .inserted hroom
  · unfold offer
    rw [isFull_iff.mpr hfull]
    refine always_ite (fun _ => always_pure (.rejected hfull)) fun _ => ?_
    refine always_bind_any fun replaced => always_ite (fun _ => ?_) fun _ => ?_
    · exact always_replaceWith hfull value
    · exact always_pure (.rejected hfull)

namespace Takes

variable {t : Trade α} {after : ConstBuffer α} (h : b.Takes t after)

include h

theorem capacity_eq : after.capacity = b.capacity := by
  cases h <;> rfl

theorem eviction_eq : after.eviction = b.eviction := by
  cases h <;> rfl

theorem inserted_iff : t.offer = .inserted ↔ b.length < b.capacity := by
  cases h with
  | inserted room => exact ⟨fun _ => room, fun _ => rfl⟩
  | oldest full fifo first => exact ⟨nofun, fun hroom => absurd full (Nat.not_le.mpr hroom)⟩
  | place full random held => exact ⟨nofun, fun hroom => absurd full (Nat.not_le.mpr hroom)⟩
  | rejected full => exact ⟨nofun, fun hroom => absurd full (Nat.not_le.mpr hroom)⟩

theorem eq_of_rejected (hoffer : t.offer = .rejected) : after = b := by
  cases h with
  | rejected full => rfl
  | _ => cases hoffer

theorem mem_of_replaced {old : α} (hoffer : t.offer = .replaced old) : old ∈ b.values := by
  cases h with
  | oldest full fifo first =>
      cases hoffer
      rw [first]
      exact List.mem_cons_self
  | place full random held =>
      cases hoffer
      exact List.mem_of_getElem? held
  | _ => cases hoffer

/-- Where another one was, the new constant is; all others stay where they were. -/
theorem set_of_replaced (heviction : b.eviction = .randomReplace) {old : α}
    (hoffer : t.offer = .replaced old) :
    ∃ index : Nat, b.values[index]? = some old ∧ after.values = b.values.set index t.value := by
  cases h with
  | place full random held =>
      cases hoffer
      exact ⟨_, held, rfl⟩
  | oldest full fifo first =>
      rw [fifo] at heviction
      cases heviction
  | _ => cases hoffer

/-- Room is used up one by one, and once there is none the buffer stays full. -/
theorem length_eq (hle : b.length ≤ b.capacity) :
    after.length = min b.capacity (b.length + t.accepted?.toList.length) := by
  cases h with
  | @inserted value room =>
      change (b.values ++ [value]).length = min b.capacity (b.length + 1)
      rw [List.length_append, List.length_singleton]
      exact (Nat.min_eq_right room).symm
  | @oldest value old others full fifo first =>
      have hlength : b.length = others.length + 1 := congrArg List.length first
      change (others ++ [value]).length = min b.capacity (b.length + 1)
      rw [List.length_append, List.length_singleton]
      omega
  | @place value old index full random held =>
      change (b.values.set index value).length = min b.capacity (b.length + 1)
      rw [List.length_set]
      change b.length = min b.capacity (b.length + 1)
      omega
  | rejected full =>
      change b.length = min b.capacity (b.length + 0)
      omega

/-- What comes in and what was there is what goes out and what is there. -/
theorem perm : (t.evicted?.toList ++ after.values).Perm
    (b.values ++ t.accepted?.toList) := by
  cases h with
  | inserted room => exact .refl _
  | oldest full fifo first =>
      rw [first]
      exact .refl _
  | @place value old index full random held =>
      obtain ⟨hindex, rfl⟩ := List.getElem?_eq_some_iff.mp held
      change (b.values[index] :: b.values.set index value).Perm (b.values ++ [value])
      -- Both sides are the new constant, the one that was in its place, and the others.
      calc b.values[index] :: b.values.set index value
      _ ~ b.values[index] :: value :: b.values.eraseIdx index :=
          (List.set_perm_cons_eraseIdx hindex value).cons _
      _ ~ value :: b.values[index] :: b.values.eraseIdx index := .swap _ _ _
      _ ~ value :: b.values := (List.getElem_cons_eraseIdx_perm hindex).cons _
      _ ~ b.values ++ [value] := (List.perm_append_singleton _ _).symm
  | rejected full => exact .of_eq (List.append_nil _).symm

/-- If it is the oldest that goes out, the order is kept as well. -/
theorem append_eq (heviction : b.eviction = .fifo) :
    t.evicted?.toList ++ after.values =
      b.values ++ t.accepted?.toList := by
  cases h with
  | inserted room => rfl
  | oldest full fifo first =>
      rw [first]
      rfl
  | place full random held =>
      rw [random] at heviction
      cases heviction
  | rejected full => exact (List.append_nil _).symm

end Takes

/-! ### Offers in a row -/

/-- What becomes of an offer, and the buffer after it. -/
def take (b : ConstBuffer α) (o : Offering α) : Trade α × ConstBuffer α :=
  let (offer, after) := (b.offer o.replace o.value o.source).1
  (⟨o.value, offer⟩, after)

theorem takes (b : ConstBuffer α) (o : Offering α) :
    b.Takes (b.take o).1 (b.take o).2 :=
  b.always_offer o.replace o.value o.source

/-- What becomes of some offers in a row. -/
def trades (b : ConstBuffer α) : List (Offering α) → List (Trade α)
  | [] => []
  | o :: os => (b.take o).1 :: (b.take o).2.trades os

/-- The buffer after some offers in a row. -/
def after (b : ConstBuffer α) : List (Offering α) → ConstBuffer α
  | [] => b
  | o :: os => (b.take o).2.after os

theorem after_append (b : ConstBuffer α) (os more : List (Offering α)) :
    b.after (os ++ more) = (b.after os).after more := by
  induction os generalizing b with
  | nil => rfl
  | cons o os ih => exact ih (b.take o).2

/-- The constants that came in, in the order in which they were offered. -/
def accepted (b : ConstBuffer α) (os : List (Offering α)) : List α :=
  (b.trades os).filterMap Trade.accepted?

/-- The constants that went out, one after the other. -/
def evicted (b : ConstBuffer α) (os : List (Offering α)) : List α :=
  (b.trades os).filterMap Trade.evicted?

theorem accepted_cons (b : ConstBuffer α) (o : Offering α) (os : List (Offering α)) :
    b.accepted (o :: os) = (b.take o).1.accepted?.toList ++ (b.take o).2.accepted os := by
  rw [accepted, trades, List.filterMap_eq_flatMap_toList, List.flatMap_cons,
    ← List.filterMap_eq_flatMap_toList, accepted]

theorem evicted_cons (b : ConstBuffer α) (o : Offering α) (os : List (Offering α)) :
    b.evicted (o :: os) = (b.take o).1.evicted?.toList ++ (b.take o).2.evicted os := by
  rw [evicted, trades, List.filterMap_eq_flatMap_toList, List.flatMap_cons,
    ← List.filterMap_eq_flatMap_toList, evicted]

theorem capacity_after (b : ConstBuffer α) (os : List (Offering α)) :
    (b.after os).capacity = b.capacity := by
  induction os generalizing b with
  | nil => rfl
  | cons o os ih => exact (ih _).trans (b.takes o).capacity_eq

theorem eviction_after (b : ConstBuffer α) (os : List (Offering α)) :
    (b.after os).eviction = b.eviction := by
  induction os generalizing b with
  | nil => rfl
  | cons o os ih => exact (ih _).trans (b.takes o).eviction_eq

theorem length_after (hle : b.length ≤ b.capacity) (os : List (Offering α)) :
    (b.after os).length = min b.capacity (b.length + (b.accepted os).length) := by
  induction os generalizing b with
  | nil => exact (Nat.min_eq_right hle).symm
  | cons o os ih =>
      have hcapacity := (b.takes o).capacity_eq
      have hlength := (b.takes o).length_eq hle
      have hnext : (b.take o).2.length ≤ (b.take o).2.capacity := by
        rw [hcapacity, hlength]
        exact Nat.min_le_left _ _
      rw [after, ih hnext, hcapacity, hlength, accepted_cons, List.length_append]
      omega

/-- **What goes out and what stays is what was there and what comes in.** -/
theorem evicted_append_perm (b : ConstBuffer α) (os : List (Offering α)) :
    b.evicted os ++ (b.after os).values ~ b.values ++ b.accepted os := by
  induction os generalizing b with
  | nil => exact .of_eq (List.append_nil _).symm
  | cons o os ih =>
      have hstep := (b.takes o).perm.append_right ((b.take o).2.accepted os)
      rw [List.append_assoc, List.append_assoc] at hstep
      rw [evicted_cons, accepted_cons, List.append_assoc]
      exact ((ih _).append_left _).trans hstep

/-- If it is the oldest that goes out, first comes first and nothing overtakes. -/
theorem evicted_append_eq (hfifo : b.eviction = .fifo) (os : List (Offering α)) :
    b.evicted os ++ (b.after os).values = b.values ++ b.accepted os := by
  induction os generalizing b with
  | nil => exact (List.append_nil _).symm
  | cons o os ih =>
      have hnext : (b.take o).2.eviction = .fifo := (b.takes o).eviction_eq.trans hfifo
      rw [evicted_cons, accepted_cons, after, List.append_assoc, ih hnext, ← List.append_assoc,
        (b.takes o).append_eq hfifo, List.append_assoc]

/-! ### All offers to a new buffer -/

/-- What is promised of an offer. -/
structure Answers (b : ConstBuffer α) (o : Offering α) : Prop where
  inserted_iff : (b.take o).1.offer = .inserted ↔ b.length < b.capacity
  /-- With room there is no draw. -/
  undrawn : b.length < b.capacity → (b.offer o.replace o.value o.source).2 = o.source
  rejected : (b.take o).1.offer = .rejected → (b.take o).2 = b
  /-- One place changes: another constant was there, and now the new one is. -/
  place : b.eviction = .randomReplace → ∀ old, (b.take o).1.offer = .replaced old →
    ∃ index : Nat, b.values[index]? = some old ∧ (b.take o).2.values = b.values.set index o.value
  /-- Without capacity there is no draw either. -/
  nothing : b.capacity = 0 →
    b.offer o.replace o.value o.source = ((.rejected, b), o.source)

theorem answers (b : ConstBuffer α) (o : Offering α) : b.Answers o where
  inserted_iff := (b.takes o).inserted_iff
  undrawn hroom := by rw [offer_of_room hroom]
  rejected := (b.takes o).eq_of_rejected
  place hrandom _ := (b.takes o).set_of_replaced hrandom
  nothing hzero := offer_of_capacity_eq_zero hzero _ _ _

/-- **Nothing is lost and nothing is doubled.** After any offers to a new buffer, with any tables and any
sources, the constants that went out and those that are there are those that came in, and there are as
many as came in or fit. If it is the oldest that goes out, they are so in order, and the buffer has the
latest that came in. The next offer, whatever it is, is answered as promised. -/
theorem nothing_lost (capacity : Nat) (eviction : Eviction) (os : List (Offering α)) :
    ((empty capacity eviction).after os).capacity = capacity ∧
    ((empty capacity eviction).after os).eviction = eviction ∧
    ((empty capacity eviction).after os).length =
      min capacity ((empty capacity eviction).accepted os).length ∧
    (empty capacity eviction).evicted os ++ ((empty capacity eviction).after os).values ~
      (empty capacity eviction).accepted os ∧
    (eviction = .fifo →
      (empty capacity eviction).evicted os ++ ((empty capacity eviction).after os).values =
        (empty capacity eviction).accepted os ∧
      ((empty capacity eviction).after os).values = ((empty capacity eviction).accepted os).rtake
        (min capacity ((empty capacity eviction).accepted os).length)) ∧
    ∀ o, ((empty capacity eviction).after os).Answers o := by
  have hnew : (empty capacity eviction : ConstBuffer α).length ≤ capacity := Nat.zero_le capacity
  have hlength : ((empty capacity eviction).after os).length =
      min capacity ((empty capacity eviction).accepted os).length := by
    rw [length_after hnew, length, empty, List.length_nil, Nat.zero_add]
  refine ⟨capacity_after _ os, eviction_after _ os, hlength, evicted_append_perm _ os,
    fun hfifo => ?_, answers _⟩
  have hinOrder : (empty capacity eviction).evicted os ++ ((empty capacity eviction).after os).values =
      (empty capacity eviction).accepted os := evicted_append_eq hfifo os
  refine ⟨hinOrder, ?_⟩
  rw [← hlength, ← hinOrder, List.rtake, List.length_append, length, Nat.add_sub_cancel,
    List.drop_left]

/-- Four constants are accepted by a buffer that has room for two. -/
theorem nothing_lost_two : ∃ os : List (Offering Nat),
    (empty 2 .fifo).accepted os = [1, 2, 3, 4] ∧ ((empty 2 .fifo).after os).values = [3, 4] ∧
      (empty 2 .fifo).evicted os = [1, 2] := by
  let os : List (Offering Nat) := [1, 2, 3, 4].map fun v => ⟨v, .single true, ⟨fun _ => 0, 0⟩⟩
  have haccepted : (empty 2 .fifo).accepted os = [1, 2, 3, 4] := by decide +kernel
  obtain ⟨-, -, -, -, hfifo, -⟩ := nothing_lost 2 .fifo os
  obtain ⟨hinOrder, hlatest⟩ := hfifo rfl
  have hvalues : ((empty 2 .fifo).after os).values = [3, 4] := by
    rw [hlatest, haccepted]
    rfl
  rw [hvalues, haccepted] at hinOrder
  have hevicted : (empty 2 .fifo).evicted os ++ [3, 4] = [1, 2] ++ [3, 4] := hinOrder
  exact ⟨os, haccepted, hvalues, List.append_cancel_right hevicted⟩

end ConstBuffer

end FuzzPolicy
