/-
HisiRiscv.Supplicant.Lane — one slot queue between callbacks and runner.

A lane is a queue together with what the runner keeps about it: the guard
that is alive, if any, the drop count it has seen, and the history of the
events that entered and left. Its operations are the uninterrupted calls
of `Slots`. `Lane.Inv` is the ledger: what was accepted is what was fed,
discarded, lost, is under the guard or is stored.

  §1 Operations.
  §2 The slots between calls.
  §3 The ledger.
-/
import HisiRiscv.Supplicant.SlotsTheorems
import Mathlib.Algebra.Order.Group.Multiset
import Mathlib.Tactic.Abel

namespace HisiRiscv.Supplicant

open HisiRiscv.Ledger
open scoped List

/-! ## §1 Operations -/

structure Lane (L : Layout) where
  queue : Queue L
  /-- The slot of the guard that is alive. -/
  guard : Option (Fin L.depth)
  /-- The drop count at the last overflow check. -/
  droppedSeen : UInt32
  accepted : List (Nat × L.Event)
  fed : List (Nat × L.Event)
  discarded : List (Nat × L.Event)
  lost : List (Nat × L.Event)

/-- What becomes of an event whose guard is dropped. -/
inductive Fate where
  | fed
  | discarded
  | lost

namespace Lane

variable {L : Layout}

def new (L : Layout) : Lane L := ⟨Queue.new L, none, 0, [], [], [], []⟩

/-- A callback's `enqueue`. -/
def enqueue (lane : Lane L) (e : L.Event) : Lane L × Bool :=
  let (queue, ok) := lane.queue.enqueue e
  let entry := (lane.queue.nextSequence, e)
  ({ lane with queue, accepted := if ok then lane.accepted ++ [entry] else lane.accepted }, ok)

/-- The runner's `take_oldest`. -/
def takeOldest (lane : Lane L) : Option (Lane L) :=
  lane.queue.takeOldest.map fun i =>
    { lane with queue := lane.queue.markReading i, guard := some i }

/-- The event under the guard. -/
def held (lane : Lane L) : List (Nat × L.Event) :=
  match lane.guard with
  | none => []
  | some i => [((lane.queue.slots i).ticket, lane.queue.payload i)]

/-- `Drop` of the guard, after which its event has met its fate. -/
def dropGuard (lane : Lane L) (fate : Fate) : Lane L :=
  match lane.guard with
  | none => lane
  | some i =>
      let lane' := { lane with queue := lane.queue.release i, guard := none }
      match fate with
      | .fed => { lane' with fed := lane.fed ++ lane.held }
      | .discarded => { lane' with discarded := lane.discarded ++ lane.held }
      | .lost => { lane' with lost := lane.lost ++ lane.held }

/-- The overflow check of `poll`: the drops since the last one, if any. -/
def overflow (lane : Lane L) : Option (UInt32 × Lane L) :=
  if lane.queue.dropped = lane.droppedSeen then none
  else some (lane.queue.dropped - lane.droppedSeen, { lane with droppedSeen := lane.queue.dropped })

/-! ## §2 The slots between calls -/

/-- No callback is in the middle of a slot, and the READING slot is the one
under the guard. -/
structure Tidy (lane : Lane L) : Prop where
  no_writing : ∀ i, (lane.queue.slots i).state ≠ .writing
  reading_iff : ∀ i, (lane.queue.slots i).state = .reading ↔ lane.guard = some i

section Tidy

variable {lane lane' : Lane L}

theorem Tidy.enqueue (h : Tidy lane) (e : L.Event) : Tidy (lane.enqueue e).1 := by
  rcases lane.queue.enqueue_cases e with ⟨-, hq⟩ | ⟨-, -, hq⟩ | ⟨i, -, hfree, hq⟩
  · simp only [Lane.enqueue, hq]
    exact ⟨h.no_writing, h.reading_iff⟩
  · simp only [Lane.enqueue, hq]
    exact ⟨h.no_writing, h.reading_iff⟩
  · simp only [Lane.enqueue, hq]
    refine ⟨fun j => ?_, fun j => ?_⟩
    · rw [Queue.modify_slots]
      split
      · nofun
      · exact h.no_writing j
    · rw [← h.reading_iff j, Queue.modify_slots]
      split
      · rename_i hji
        simp [hji, hfree]
      · rfl

theorem Tidy.takeOldest (h : Tidy lane) (hguard : lane.guard = none)
    (ht : lane.takeOldest = some lane') : Tidy lane' := by
  obtain ⟨i, hi, rfl⟩ := Option.map_eq_some_iff.mp ht
  refine ⟨fun j => ?_, fun j => ?_⟩
  · rw [Queue.markReading, Queue.modify_slots]
    split
    · nofun
    · exact h.no_writing j
  · rw [Queue.markReading, Queue.modify_slots]
    by_cases hji : j = i
    · simp [hji]
    · have hnot := h.reading_iff j
      rw [hguard] at hnot
      simp [hji, hnot, Ne.symm hji]

theorem Tidy.release (h : Tidy lane) {i : Fin L.depth} (hguard : lane.guard = some i) :
    Tidy { lane with queue := lane.queue.release i, guard := none } := by
  refine ⟨fun j => ?_, fun j => ?_⟩
  · rw [Queue.release, Queue.modify_slots]
    split
    · nofun
    · exact h.no_writing j
  · rw [Queue.release, Queue.modify_slots]
    by_cases hji : j = i
    · simp [hji]
    · have hnot := h.reading_iff j
      rw [hguard, Option.some_inj] at hnot
      simp [hji, hnot, Ne.symm hji]

/-- An event that enters the queue is not the one under the guard. -/
theorem Tidy.held_enqueue (h : Tidy lane) (e : L.Event) : (lane.enqueue e).1.held = lane.held := by
  rcases lane.queue.enqueue_cases e with ⟨-, hq⟩ | ⟨-, -, hq⟩ | ⟨i, -, hfree, hq⟩
  · simp only [Lane.enqueue, hq]
    rfl
  · simp only [Lane.enqueue, hq]
    rfl
  · simp only [Lane.enqueue, hq]
    unfold Lane.held Queue.payload
    cases hg : lane.guard with
    | none => rfl
    | some j =>
      have hji : j ≠ i := by
        rintro rfl
        rw [(h.reading_iff j).mpr hg] at hfree
        cases hfree
      dsimp only
      rw [Queue.modify_ne _ _ hji]
      rfl

end Tidy

/-- The guard of the slot just taken. -/
theorem held_takeOldest {lane lane' : Lane L} (ht : lane.takeOldest = some lane') :
    ∃ i, lane.queue.takeOldest = some i ∧ lane'.queue = lane.queue.markReading i ∧
      lane'.held = [((lane.queue.slots i).ticket, lane.queue.payload i)] := by
  obtain ⟨i, hi, rfl⟩ := Option.map_eq_some_iff.mp ht
  refine ⟨i, hi, rfl, ?_⟩
  simp only [Lane.held, Queue.payload, Queue.markReading, Queue.modify_self]

/-! ## §3 The ledger -/

/-- Where the accepted events are. -/
def accounted (lane : Lane L) : List (Nat × L.Event) :=
  lane.fed ++ lane.discarded ++ lane.lost ++ lane.held ++ lane.queue.stored

structure Inv (lane : Lane L) : Prop where
  no_writing : ∀ i, (lane.queue.slots i).state ≠ .writing
  /-- the slot of the guard is the READING one -/
  reading_iff : ∀ i, (lane.queue.slots i).state = .reading ↔ lane.guard = some i
  balanced : lane.accepted ~ lane.accounted
  /-- the numbers of the accepted events are distinct and increase -/
  increasing : (lane.accepted.map Prod.fst).Pairwise (· < ·)
  below : ∀ x ∈ lane.accepted, x.1 < lane.queue.nextSequence
  /-- and only what passes the checks is accepted -/
  checked : ∀ x ∈ lane.accepted, L.accepts x.2 = true

theorem inv_new (L : Layout) : Inv (new L) where
  no_writing := nofun
  reading_iff := fun _ => ⟨nofun, nofun⟩
  balanced := by
    change [] ~ [] ++ (Queue.new L).stored
    rw [Queue.stored_eq_nil (by simp [Queue.new]), List.append_nil]
  increasing := .nil
  below := nofun
  checked := nofun

section Steps

variable {lane lane' : Lane L}

theorem Inv.tidy (h : Inv lane) : Tidy lane := ⟨h.no_writing, h.reading_iff⟩

theorem Inv.enqueue (h : Inv lane) (e : L.Event) : Inv (lane.enqueue e).1 := by
  have htidy := h.tidy.enqueue e
  have hheld := h.tidy.held_enqueue e
  rcases lane.queue.enqueue_cases e with ⟨-, hq⟩ | ⟨-, -, hq⟩ | ⟨i, hacc, hfree, hq⟩
  · simp only [Lane.enqueue, hq]
    exact ⟨h.no_writing, h.reading_iff, h.balanced, h.increasing, h.below, h.checked⟩
  · simp only [Lane.enqueue, hq]
    exact ⟨h.no_writing, h.reading_iff, h.balanced, h.increasing,
      fun x hx => Nat.lt_succ_of_lt (h.below x hx), h.checked⟩
  · simp only [Lane.enqueue, hq, if_true] at htidy hheld ⊢
    refine ⟨htidy.no_writing, htidy.reading_iff, ?_, ?_, fun x hx => ?_, fun x hx => ?_⟩
    · have hstored := Queue.stored_enqueue hacc hfree
      rw [accounted, hheld]
      calc lane.accepted ++ [(lane.queue.nextSequence, e)]
        _ ~ (lane.queue.nextSequence, e) :: lane.accepted := List.perm_append_singleton _ _
        _ ~ (lane.queue.nextSequence, e) :: lane.accounted := h.balanced.cons _
        _ ~ lane.fed ++ lane.discarded ++ lane.lost ++ lane.held ++
              (lane.queue.nextSequence, e) :: lane.queue.stored := List.perm_middle.symm
        _ ~ _ := hstored.symm.append_left _
    · rw [List.map_append, List.pairwise_append]
      refine ⟨h.increasing, List.pairwise_singleton _ _, fun x hx y hy => ?_⟩
      obtain ⟨z, hz, rfl⟩ := List.mem_map.mp hx
      rw [List.mem_singleton.mp hy]
      exact h.below z hz
    · rcases List.mem_append.mp hx with hx | hx
      · exact Nat.lt_succ_of_lt (h.below x hx)
      · rw [List.mem_singleton.mp hx]
        exact Nat.lt_succ_self _
    · rcases List.mem_append.mp hx with hx | hx
      · exact h.checked x hx
      · rw [List.mem_singleton.mp hx]
        exact hacc

theorem Inv.takeOldest (h : Inv lane) (hguard : lane.guard = none)
    (ht : lane.takeOldest = some lane') : Inv lane' := by
  have htidy := h.tidy.takeOldest hguard ht
  obtain ⟨i, hi, hqueue, hnew⟩ := held_takeOldest ht
  have hready := Queue.takeOldest_some hi
  have hheld : lane.held = [] := by rw [held, hguard]
  have hbalanced : lane.accepted ~ lane'.accounted := by
    obtain ⟨_, -, rfl⟩ := Option.map_eq_some_iff.mp ht
    rw [accounted, hnew, hqueue]
    calc lane.accepted
      _ ~ lane.accounted := h.balanced
      _ = lane.fed ++ lane.discarded ++ lane.lost ++ lane.queue.stored := by
            rw [accounted, hheld, List.append_nil]
      _ ~ lane.fed ++ lane.discarded ++ lane.lost ++
            ((lane.queue.slots i).ticket, lane.queue.payload i) ::
              (lane.queue.markReading i).stored :=
            (Queue.stored_markReading hready).append_left _
      _ = _ := by rw [List.append_assoc _ _ (Queue.stored _)]; rfl
  obtain ⟨_, -, rfl⟩ := Option.map_eq_some_iff.mp ht
  exact ⟨htidy.no_writing, htidy.reading_iff, hbalanced, h.increasing, h.below, h.checked⟩

theorem Inv.dropGuard (h : Inv lane) (fate : Fate) : Inv (lane.dropGuard fate) := by
  cases hguard : lane.guard with
  | none =>
    rw [Lane.dropGuard, hguard]
    exact h
  | some i =>
    have hreading := (h.reading_iff i).mpr hguard
    have hstored := Queue.stored_release hreading
    obtain ⟨hno, hnone⟩ := h.tidy.release hguard
    rw [Lane.dropGuard, hguard]
    -- whatever its fate, the event moves from the guard to one of the histories
    cases fate with
    | fed =>
      refine ⟨hno, hnone, h.balanced.trans ?_, h.increasing, h.below, h.checked⟩
      change lane.accounted ~ lane.fed ++ lane.held ++ lane.discarded ++ lane.lost ++ [] ++
        (lane.queue.release i).stored
      rw [hstored, accounted, ← Multiset.coe_eq_coe]
      simp only [← Multiset.coe_add, Multiset.coe_nil]
      abel
    | discarded =>
      refine ⟨hno, hnone, h.balanced.trans ?_, h.increasing, h.below, h.checked⟩
      change lane.accounted ~ lane.fed ++ (lane.discarded ++ lane.held) ++ lane.lost ++ [] ++
        (lane.queue.release i).stored
      rw [hstored, accounted, ← Multiset.coe_eq_coe]
      simp only [← Multiset.coe_add, Multiset.coe_nil]
      abel
    | lost =>
      refine ⟨hno, hnone, h.balanced.trans ?_, h.increasing, h.below, h.checked⟩
      change lane.accounted ~ lane.fed ++ lane.discarded ++ (lane.lost ++ lane.held) ++ [] ++
        (lane.queue.release i).stored
      rw [hstored, accounted, ← Multiset.coe_eq_coe]
      simp only [← Multiset.coe_add, Multiset.coe_nil]
      abel

end Steps

/-- The event under the guard is an accepted one. -/
theorem Inv.held_mem {lane : Lane L} (h : Inv lane) {i : Fin L.depth} (hi : lane.guard = some i) :
    ((lane.queue.slots i).ticket, lane.queue.payload i) ∈ lane.accepted := by
  refine h.balanced.mem_iff.mpr ?_
  rw [accounted, held, hi]
  exact List.mem_append_left _ (List.mem_append_right _ (List.mem_singleton_self _))

theorem Inv.ready_mem {lane : Lane L} (h : Inv lane) {i : Fin L.depth}
    (hi : (lane.queue.slots i).state = .ready) :
    ((lane.queue.slots i).ticket, lane.queue.payload i) ∈ lane.accepted := by
  refine h.balanced.mem_iff.mpr (List.mem_append_right _ ?_)
  exact Queue.mem_stored.mpr ⟨i, hi, rfl⟩

/-- The number of a slot in use has been allocated. -/
theorem Inv.occupied_lt {lane : Lane L} (h : Inv lane) {i : Fin L.depth}
    (hi : (lane.queue.slots i).state ≠ .free) :
    (lane.queue.slots i).ticket < lane.queue.nextSequence := by
  cases hstate : (lane.queue.slots i).state with
  | free => exact absurd hstate hi
  | writing => exact absurd hstate (h.no_writing i)
  | ready => exact h.below _ (h.ready_mem hstate)
  | reading => exact h.below _ (h.held_mem ((h.reading_iff i).mp hstate))

end Lane

end HisiRiscv.Supplicant
