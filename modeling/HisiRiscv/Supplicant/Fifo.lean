/-
HisiRiscv.Supplicant.Fifo — a lane hands out its events in order.

The slots of a queue carry no order; `take_oldest` finds the next event
by its number, compared by the sign of the wrapped difference. As long as
the numbers in use lie less than 2³¹ apart this is the least number, so
the lane behaves as a queue: `Lane.Fifo` lists what is under the guard
and what is stored, oldest first, and every operation acts at one end of
the list.

  §1 The selection loop finds the least number.
  §2 The events of a lane in order.
  §3 Operations.
-/
import HisiRiscv.Supplicant.Lane

namespace HisiRiscv.Supplicant

open scoped List

/-! ## §1 The selection loop finds the least number -/

namespace Queue

variable {L : Layout}

/-- The numbers of the READY slots lie less than 2³¹ apart. -/
def Narrow (q : Queue L) : Prop :=
  ∀ i j, (q.slots i).state = .ready → (q.slots j).state = .ready →
    (q.slots i).ticket < (q.slots j).ticket + 2 ^ 31

/-- One iteration keeps the lesser number. -/
theorem consider_least {q : Queue L} (hq : q.Narrow) {best : Option (Fin L.depth × UInt32)}
    {i : Fin L.depth} (hbest : ∀ j seq, best = some (j, seq) →
      (q.slots j).state = .ready ∧ seq = (q.slots j).sequence)
    (hi : (q.slots i).state = .ready) :
    ∃ j, consider best i (q.slots i).sequence = some (j, (q.slots j).sequence) ∧
      (q.slots j).state = .ready ∧ (q.slots j).ticket ≤ (q.slots i).ticket ∧
      ∀ b seq, best = some (b, seq) → (q.slots j).ticket ≤ (q.slots b).ticket := by
  cases best with
  | none => exact ⟨i, rfl, hi, Nat.le_refl _, nofun⟩
  | some b =>
    obtain ⟨j, seq⟩ := b
    obtain ⟨hj, rfl⟩ := hbest j seq rfl
    have hbefore : SerialNumber.before (q.slots i).sequence (q.slots j).sequence = true ↔
        (q.slots i).ticket < (q.slots j).ticket :=
      SerialNumber.before_ofNat (hq i j hi hj) (hq j i hj hi)
    simp only [consider]
    by_cases hlt : (q.slots i).ticket < (q.slots j).ticket
    · rw [if_pos (hbefore.mpr hlt)]
      refine ⟨i, rfl, hi, Nat.le_refl _, ?_⟩
      rintro b seq ⟨⟩
      omega
    · rw [if_neg (mt hbefore.mp hlt)]
      refine ⟨j, rfl, hj, by omega, ?_⟩
      rintro b seq ⟨⟩
      exact Nat.le_refl _

theorem oldest_loop_least {q : Queue L} (hq : q.Narrow) (is : List (Fin L.depth))
    (best : Option (Fin L.depth × UInt32))
    (hbest : ∀ j seq, best = some (j, seq) →
      (q.slots j).state = .ready ∧ seq = (q.slots j).sequence) {j : Fin L.depth} {seq : UInt32}
    (hresult : is.foldl (fun oldest i =>
      if (q.slots i).state = .ready then consider oldest i (q.slots i).sequence else oldest) best =
        some (j, seq)) :
    (∀ b s, best = some (b, s) → (q.slots j).ticket ≤ (q.slots b).ticket) ∧
      ∀ i ∈ is, (q.slots i).state = .ready → (q.slots j).ticket ≤ (q.slots i).ticket := by
  induction is generalizing best with
  | nil =>
    refine ⟨fun b s hb => ?_, nofun⟩
    rw [List.foldl_nil] at hresult
    rw [hresult] at hb
    cases hb
    exact Nat.le_refl _
  | cons i is ih =>
    rw [List.foldl_cons] at hresult
    by_cases hi : (q.slots i).state = .ready
    · rw [if_pos hi] at hresult
      obtain ⟨b, hb, hready, hle, hleast⟩ := consider_least hq hbest hi
      rw [hb] at hresult
      obtain ⟨hj, hrest⟩ := ih (some (b, (q.slots b).sequence))
        (fun _ _ heq => by cases heq; exact ⟨hready, rfl⟩) hresult
      have hjb := hj b _ rfl
      refine ⟨fun b' s hb' => hjb.trans (hleast b' s hb'), fun k hk hkready => ?_⟩
      rcases List.mem_cons.mp hk with rfl | hk
      · exact hjb.trans hle
      · exact hrest k hk hkready
    · rw [if_neg hi] at hresult
      obtain ⟨hj, hrest⟩ := ih best hbest hresult
      refine ⟨hj, fun k hk hkready => ?_⟩
      rcases List.mem_cons.mp hk with rfl | hk
      · exact absurd hkready hi
      · exact hrest k hk hkready

/-- `take_oldest` takes the least number. -/
theorem takeOldest_least {q : Queue L} (hq : q.Narrow) {i : Fin L.depth}
    (h : q.takeOldest = some i) (j : Fin L.depth) (hj : (q.slots j).state = .ready) :
    (q.slots i).ticket ≤ (q.slots j).ticket := by
  unfold takeOldest at h
  split at h
  · cases h
  · obtain ⟨⟨k, seq⟩, hk, rfl⟩ := Option.map_eq_some_iff.mp h
    exact (oldest_loop_least hq (List.finRange L.depth) none nofun hk).2 j (List.mem_finRange j) hj

end Queue

/-! ## §2 The events of a lane in order -/

namespace Lane

variable {L : Layout}

/-- `pending` lists the events in the lane, oldest first. -/
structure Fifo (lane : Lane L) (pending : List (Nat × L.Event)) : Prop extends Tidy lane where
  /-- the guard holds the first, the rest is stored -/
  order : ∃ rest, pending = lane.held ++ rest ∧ lane.queue.stored ~ rest
  increasing : (pending.map Prod.fst).Pairwise (· < ·)
  below : ∀ x ∈ pending, x.1 < lane.queue.nextSequence
  narrow : ∀ x ∈ pending, lane.queue.nextSequence ≤ x.1 + 2 ^ 31

/-- A queue without a slot in use. -/
theorem fifo_nil {lane : Lane L} (hfree : ∀ i, (lane.queue.slots i).state = .free)
    (hguard : lane.guard = none) : Fifo lane [] where
  no_writing i := by rw [hfree i]; decide
  reading_iff i := by simp [hfree i, hguard]
  order := by
    refine ⟨[], by rw [held, hguard]; rfl, ?_⟩
    rw [Queue.stored_eq_nil fun i => by rw [hfree i]; decide]
  increasing := .nil
  below _ hx := absurd hx List.not_mem_nil
  narrow _ hx := absurd hx List.not_mem_nil

section Rules

variable {lane lane' : Lane L} {pending : List (Nat × L.Event)}

theorem Fifo.mem_of_ready (h : Fifo lane pending) {i : Fin L.depth}
    (hi : (lane.queue.slots i).state = .ready) :
    ((lane.queue.slots i).ticket, lane.queue.payload i) ∈ pending := by
  obtain ⟨rest, rfl, hperm⟩ := h.order
  exact List.mem_append_right _ (hperm.mem_iff.mp (Queue.mem_stored.mpr ⟨i, hi, rfl⟩))

theorem Fifo.queue_narrow (h : Fifo lane pending) : lane.queue.Narrow := by
  intro i j hi hj
  have hbelow := h.below _ (h.mem_of_ready hi)
  have hnarrow := h.narrow _ (h.mem_of_ready hj)
  dsimp only at hbelow hnarrow
  omega

/-- With no guard alive and fewer events than slots, a slot is FREE. -/
theorem Fifo.exists_free (h : Fifo lane pending) (hguard : lane.guard = none)
    (hlen : pending.length < L.depth) : ∃ i, (lane.queue.slots i).state = .free := by
  by_contra hnone
  push Not at hnone
  have hready : ∀ i, (lane.queue.slots i).state = .ready := by
    intro i
    cases hstate : (lane.queue.slots i).state with
    | free => exact absurd hstate (hnone i)
    | writing => exact absurd hstate (h.no_writing i)
    | ready => rfl
    | reading =>
      have hg := (h.reading_iff i).mp hstate
      rw [hguard] at hg
      cases hg
  obtain ⟨rest, rfl, hperm⟩ := h.order
  have hstored : lane.queue.stored.length = L.depth := by
    unfold Queue.stored
    rw [List.length_filterMap_eq_countP, List.countP_eq_length.mpr, List.length_ofFn]
    intro slot hslot
    obtain ⟨i, rfl⟩ := List.mem_ofFn.mp hslot
    rw [Queue.entry_eq_some (hready i)]
    rfl
  rw [List.length_append, ← hperm.length_eq] at hlen
  omega

/-- A queue that has nothing pending has no event at all. -/
theorem Fifo.eq_nil (h : Fifo lane pending) (hfree : ∀ i, (lane.queue.slots i).state = .free) :
    pending = [] := by
  obtain ⟨rest, rfl, hperm⟩ := h.order
  have hguard : lane.guard = none := by
    cases hg : lane.guard with
    | none => rfl
    | some i =>
      have hreading := (h.reading_iff i).mpr hg
      rw [hfree i] at hreading
      cases hreading
  cases rest with
  | nil => rw [held, hguard]; rfl
  | cons x rest =>
    obtain ⟨i, hi, -⟩ := Queue.mem_stored.mp (hperm.mem_iff.mpr (List.mem_cons_self ..))
    rw [hfree i] at hi
    cases hi

/-! ## §3 Operations -/

/-- Nothing but the slots, the guard and the next number matters. -/
theorem Fifo.congr (h : Fifo lane pending) (hslots : lane'.queue.slots = lane.queue.slots)
    (hguard : lane'.guard = lane.guard) (hnext : lane'.queue.nextSequence = lane.queue.nextSequence) :
    Fifo lane' pending := by
  have hheld : lane'.held = lane.held := by
    unfold held Queue.payload
    rw [hguard, hslots]
  have hstored : lane'.queue.stored = lane.queue.stored := by
    unfold Queue.stored
    rw [hslots]
  refine ⟨⟨?_, ?_⟩, ?_, h.increasing, ?_, ?_⟩
  · rw [hslots]
    exact h.no_writing
  · rw [hslots, hguard]
    exact h.reading_iff
  · rw [hheld, hstored]
    exact h.order
  · rw [hnext]
    exact h.below
  · rw [hnext]
    exact h.narrow

/-- An event that does not pass the checks is dropped. -/
theorem Fifo.enqueue_refused (h : Fifo lane pending) {e : L.Event} (hacc : L.accepts e = false) :
    Fifo (lane.enqueue e).1 pending := by
  have hq : lane.queue.enqueue e = (lane.queue.bumpDropped, false) := by
    unfold Queue.enqueue
    rw [if_neg (by simp [hacc])]
  refine h.congr ?_ rfl ?_
  · simp only [Lane.enqueue, hq, Queue.bumpDropped_slots]
  · simp only [Lane.enqueue, hq, Queue.bumpDropped_nextSequence]

/-- An event that finds a slot goes to the end. -/
theorem Fifo.enqueue (h : Fifo lane pending) {e : L.Event} (hacc : L.accepts e = true)
    (hfree : ∃ i, (lane.queue.slots i).state = .free)
    (hnarrow : ∀ x ∈ pending, lane.queue.nextSequence < x.1 + 2 ^ 31) :
    Fifo (lane.enqueue e).1 (pending ++ [(lane.queue.nextSequence, e)]) ∧
      (lane.enqueue e).1.queue.nextSequence = lane.queue.nextSequence + 1 ∧
      (lane.enqueue e).1.queue.dropped = lane.queue.dropped := by
  have htidy := h.toTidy.enqueue e
  have hheld := h.toTidy.held_enqueue e
  obtain ⟨rest, hpending, hperm⟩ := h.order
  rcases lane.queue.enqueue_cases e with ⟨hno, -⟩ | ⟨-, hfull, -⟩ | ⟨i, -, hi, hq⟩
  · rw [hacc] at hno
    cases hno
  · obtain ⟨i, hi⟩ := hfree
    exact absurd hi (hfull i)
  · simp only [Lane.enqueue, hq] at htidy hheld ⊢
    refine ⟨⟨htidy, ⟨rest ++ [(lane.queue.nextSequence, e)], ?_, ?_⟩, ?_, ?_, ?_⟩, rfl, rfl⟩
    · rw [hheld, hpending, List.append_assoc]
    · exact (Queue.stored_enqueue hacc hi).trans
        ((hperm.cons _).trans (List.perm_append_singleton _ _).symm)
    · rw [List.map_append, List.pairwise_append]
      refine ⟨h.increasing, List.pairwise_singleton _ _, fun x hx y hy => ?_⟩
      obtain ⟨z, hz, rfl⟩ := List.mem_map.mp hx
      rw [List.mem_singleton.mp hy]
      exact h.below z hz
    · intro x hx
      rcases List.mem_append.mp hx with hx | hx
      · exact Nat.lt_succ_of_lt (h.below x hx)
      · rw [List.mem_singleton.mp hx]
        exact Nat.lt_succ_self _
    · intro x hx
      rcases List.mem_append.mp hx with hx | hx
      · exact hnarrow x hx
      · rw [List.mem_singleton.mp hx]
        simp only [Queue.modify_nextSequence, Queue.bumpSequence_nextSequence]
        omega

/-- `take_oldest` puts the first event under the guard. -/
theorem Fifo.takeOldest (h : Fifo lane pending) (hguard : lane.guard = none)
    (ht : lane.takeOldest = some lane') :
    Fifo lane' pending ∧ ∃ x rest, pending = x :: rest ∧ lane'.held = [x] := by
  have htidy := h.toTidy.takeOldest hguard ht
  obtain ⟨i, hi, hqueue, hheld⟩ := held_takeOldest ht
  have hready := Queue.takeOldest_some hi
  obtain ⟨rest, hpending, hperm⟩ := h.order
  rw [held, hguard, List.nil_append] at hpending
  subst hpending
  have hmem := h.mem_of_ready hready
  -- the slot taken carries the least number, and the first event of the list does
  cases pending with
  | nil => cases hmem
  | cons x rest =>
    obtain ⟨j, hj, hx⟩ := Queue.mem_stored.mp (hperm.mem_iff.mpr (List.mem_cons_self ..))
    have hle := Queue.takeOldest_least h.queue_narrow hi j hj
    have hlt := List.pairwise_cons.mp (List.map_cons .. ▸ h.increasing)
    have heq : ((lane.queue.slots i).ticket, lane.queue.payload i) = x := by
      rcases List.mem_cons.mp hmem with heq | hlater
      · exact heq
      · have hgt := hlt.1 _ (List.mem_map_of_mem hlater)
        rw [hx] at hgt
        exact absurd hle (Nat.not_le.mpr hgt)
    rw [heq] at hheld
    refine ⟨⟨htidy, ⟨rest, by rw [hheld]; rfl, ?_⟩, h.increasing, ?_, ?_⟩, x, rest, rfl, hheld⟩
    · have hstored := Queue.stored_markReading hready
      change lane.queue.stored ~ ((lane.queue.slots i).ticket, lane.queue.payload i) :: _ at hstored
      rw [heq] at hstored
      rw [hqueue]
      exact (hstored.symm.trans hperm).cons_inv
    · rw [hqueue]
      exact h.below
    · rw [hqueue]
      exact h.narrow

/-- A failing `take_oldest` shows that nothing is stored. -/
theorem Fifo.takeOldest_none (h : Fifo lane pending) (hguard : lane.guard = none)
    (ht : lane.takeOldest = none) : pending = [] := by
  obtain ⟨rest, rfl, hperm⟩ := h.order
  have hstored := Queue.takeOldest_none (Option.map_eq_none_iff.mp ht) h.no_writing
  rw [hstored] at hperm
  rw [held, hguard, List.nil_append]
  exact List.nil_perm.mp hperm

/-- Dropping the guard removes the first event. -/
theorem Fifo.dropGuard {x : Nat × L.Event} (h : Fifo lane (x :: pending))
    (hguard : lane.guard.isSome = true) : lane.held = [x] ∧ Fifo (lane.dropGuard .fed) pending ∧
      (lane.dropGuard .fed).fed = lane.fed ++ [x] ∧ (lane.dropGuard .fed).guard = none := by
  obtain ⟨i, hi⟩ := Option.isSome_iff_exists.mp hguard
  have htidy := h.toTidy.release hi
  have hreading := (h.reading_iff i).mpr hi
  obtain ⟨rest, hpending, hperm⟩ := h.order
  have hheld : lane.held = [((lane.queue.slots i).ticket, lane.queue.payload i)] := by
    rw [held, hi]
  rw [hheld] at hpending
  obtain ⟨rfl, rfl⟩ := List.cons.inj hpending
  have hdrop : lane.dropGuard .fed =
      { lane with queue := lane.queue.release i, guard := none, fed := lane.fed ++ lane.held } := by
    rw [Lane.dropGuard, hi]
  rw [hdrop, hheld]
  refine ⟨rfl, ⟨⟨htidy.no_writing, htidy.reading_iff⟩, ⟨_, rfl, ?_⟩, ?_, ?_, ?_⟩, rfl, rfl⟩
  · dsimp only
    rw [Queue.stored_release hreading]
    exact hperm
  · exact (List.pairwise_cons.mp (List.map_cons .. ▸ h.increasing)).2
  · exact fun y hy => h.below y (List.mem_cons_of_mem _ hy)
  · exact fun y hy => h.narrow y (List.mem_cons_of_mem _ hy)

end Rules

end Lane

end HisiRiscv.Supplicant
