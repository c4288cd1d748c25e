/-
HisiRiscv.Supplicant.SlotsTheorems — what the slot operations do to the
contents of a queue.

`Queue.stored` lists what the READY slots hold. §1 says what a change of
one slot does to it, §2 what one uninterrupted call does.
-/
import HisiRiscv.Lib.Ledger
import HisiRiscv.Supplicant.Slots

namespace HisiRiscv.Supplicant.Queue

open HisiRiscv.Ledger

variable {L : Layout}

/-! ## §1 One slot -/

@[simp] theorem entry_ready (ticket : Nat) (cells : L.Cells) :
    entry (⟨.ready, ticket, cells⟩ : Slot L.Cells) = some (ticket, L.read cells) := rfl

theorem entry_eq_some {slot : Slot L.Cells} (h : slot.state = .ready) :
    entry slot = some (slot.ticket, L.read slot.cells) := if_pos h

theorem entry_eq_none {slot : Slot L.Cells} (h : slot.state ≠ .ready) : entry slot = none := if_neg h

theorem mem_stored {q : Queue L} {x : Nat × L.Event} :
    x ∈ q.stored ↔ ∃ i, (q.slots i).state = .ready ∧
      x = ((q.slots i).ticket, L.read (q.slots i).cells) := by
  rw [stored, List.mem_filterMap]
  constructor
  · rintro ⟨slot, hslot, hentry⟩
    obtain ⟨i, rfl⟩ := List.mem_ofFn.mp hslot
    by_cases hready : (q.slots i).state = .ready
    · rw [entry_eq_some hready, Option.some_inj] at hentry
      exact ⟨i, hready, hentry.symm⟩
    · rw [entry_eq_none hready] at hentry
      cases hentry
  · rintro ⟨i, hready, rfl⟩
    exact ⟨q.slots i, List.mem_ofFn.mpr ⟨i, rfl⟩, entry_eq_some hready⟩

/-- A queue without a READY slot stores nothing. -/
theorem stored_eq_nil {q : Queue L} (h : ∀ i, (q.slots i).state ≠ .ready) : q.stored = [] := by
  refine List.filterMap_eq_nil_iff.mpr fun slot hslot => ?_
  obtain ⟨i, rfl⟩ := List.mem_ofFn.mp hslot
  exact entry_eq_none (h i)

/-- A queue stores at most one event a slot. -/
theorem stored_length_le (q : Queue L) : q.stored.length ≤ L.depth := by
  calc q.stored.length ≤ (List.ofFn q.slots).length := List.length_filterMap_le ..
    _ = L.depth := List.length_ofFn

theorem stored_modify_eq {q : Queue L} {i : Fin L.depth} {f : Slot L.Cells → Slot L.Cells}
    (h : entry (f (q.slots i)) = entry (q.slots i)) : (q.modify i f).stored = q.stored := by
  rw [stored, modify, ofFn_update]
  exact filterMap_set_eq entry (getElem?_ofFn_fin q.slots i) h

theorem stored_modify_insert {q : Queue L} {i : Fin L.depth} {f : Slot L.Cells → Slot L.Cells}
    {x : Nat × L.Event} (h : entry (q.slots i) = none) (h' : entry (f (q.slots i)) = some x) :
    (q.modify i f).stored.Perm (x :: q.stored) := by
  rw [stored, modify, ofFn_update]
  exact filterMap_set_insert entry (getElem?_ofFn_fin q.slots i) h h'

theorem stored_modify_erase {q : Queue L} {i : Fin L.depth} {f : Slot L.Cells → Slot L.Cells}
    {x : Nat × L.Event} (h : entry (q.slots i) = some x) (h' : entry (f (q.slots i)) = none) :
    q.stored.Perm (x :: (q.modify i f).stored) := by
  rw [stored, stored, modify, ofFn_update]
  exact filterMap_set_erase entry (getElem?_ofFn_fin q.slots i) h h'

/-- Taking a READY slot removes its event. -/
theorem stored_markReading {q : Queue L} {i : Fin L.depth} (h : (q.slots i).state = .ready) :
    q.stored.Perm (((q.slots i).ticket, q.payload i) :: (q.markReading i).stored) :=
  stored_modify_erase (entry_eq_some h) (entry_eq_none (by simp))

/-- Dropping a guard changes nothing that is stored. -/
theorem stored_release {q : Queue L} {i : Fin L.depth} (h : (q.slots i).state = .reading) :
    (q.release i).stored = q.stored :=
  stored_modify_eq (by rw [entry_eq_none (by simp), entry_eq_none (by simp [h])])

/-! ## §2 Uninterrupted calls -/

theorem firstFree_some {q : Queue L} {i : Fin L.depth} (h : q.firstFree = some i) :
    (q.slots i).state = .free := by
  simpa using List.find?_some h

theorem firstFree_none {q : Queue L} (h : q.firstFree = none) (i : Fin L.depth) :
    (q.slots i).state ≠ .free := by
  simpa using List.find?_eq_none.mp h i (List.mem_finRange i)

/-- The three ways through `enqueue`. -/
theorem enqueue_cases (q : Queue L) (e : L.Event) :
    (L.accepts e = false ∧ q.enqueue e = (q.bumpDropped, false)) ∨
      (L.accepts e = true ∧ (∀ i, (q.slots i).state ≠ .free) ∧
        q.enqueue e = (q.bumpSequence.bumpDropped, false)) ∨
      ∃ i, L.accepts e = true ∧ (q.slots i).state = .free ∧
        q.enqueue e = (q.bumpSequence.modify i fun slot =>
          ⟨.ready, q.nextSequence, applyWrites (L.writes e) slot.cells⟩, true) := by
  by_cases hacc : L.accepts e = true
  · cases hfree : q.firstFree with
    | none =>
      refine Or.inr (Or.inl ⟨hacc, firstFree_none hfree, ?_⟩)
      rw [enqueue, if_pos hacc, hfree]
    | some i =>
      refine Or.inr (Or.inr ⟨i, hacc, firstFree_some hfree, ?_⟩)
      rw [enqueue, if_pos hacc, hfree]
  · exact Or.inl ⟨Bool.eq_false_iff.mpr hacc, by rw [enqueue, if_neg hacc]⟩

theorem enqueue_refused {q : Queue L} {e : L.Event} (h : L.accepts e = false) :
    (q.enqueue e).2 = false := by
  rw [enqueue, if_neg (by simp [h])]

/-- A call that returns true stores its event under the next number. -/
theorem stored_enqueue {q : Queue L} {e : L.Event} {i : Fin L.depth} (hacc : L.accepts e = true)
    (hfree : (q.slots i).state = .free) :
    (q.bumpSequence.modify i fun slot =>
      ⟨.ready, q.nextSequence, applyWrites (L.writes e) slot.cells⟩).stored.Perm
      ((q.nextSequence, e) :: q.stored) := by
  refine stored_modify_insert (q := q.bumpSequence) (entry_eq_none (by simp [hfree])) ?_
  rw [entry_ready, L.read_writes e _ hacc]

/-- The selection loop over a list of slots: the result is READY, and the loop
only comes out empty-handed if no slot is. -/
theorem oldest_loop (q : Queue L) (is : List (Fin L.depth)) (best : Option (Fin L.depth × UInt32))
    (hbest : ∀ j seq, best = some (j, seq) →
      (q.slots j).state = .ready ∧ seq = (q.slots j).sequence) :
    let result := is.foldl (fun oldest i =>
      if (q.slots i).state = .ready then consider oldest i (q.slots i).sequence else oldest) best
    (∀ j seq, result = some (j, seq) → (q.slots j).state = .ready ∧ seq = (q.slots j).sequence) ∧
      (result = none → best = none ∧ ∀ i ∈ is, (q.slots i).state ≠ .ready) := by
  induction is generalizing best with
  | nil => exact ⟨hbest, fun h => ⟨h, nofun⟩⟩
  | cons i is ih =>
    rw [List.foldl_cons]
    by_cases hi : (q.slots i).state = .ready
    · rw [if_pos hi]
      have hnext : ∀ j seq, consider best i (q.slots i).sequence = some (j, seq) →
          (q.slots j).state = .ready ∧ seq = (q.slots j).sequence := by
        intro j seq hj
        cases best with
        | none =>
          cases hj
          exact ⟨hi, rfl⟩
        | some b =>
          rw [consider] at hj
          split at hj
          · cases hj
            exact ⟨hi, rfl⟩
          · exact hbest j seq hj
      obtain ⟨hready, hnone⟩ := ih _ hnext
      refine ⟨hready, fun h => ?_⟩
      have hsome := (hnone h).1
      cases best with
      | none => cases hsome
      | some b =>
        rw [consider] at hsome
        split at hsome <;> cases hsome
    · rw [if_neg hi]
      obtain ⟨hready, hnone⟩ := ih best hbest
      refine ⟨hready, fun h => ⟨(hnone h).1, fun k hk => ?_⟩⟩
      rcases List.mem_cons.mp hk with rfl | hk
      · exact hi
      · exact (hnone h).2 k hk

/-- A successful `take_oldest` takes a READY slot. -/
theorem takeOldest_some {q : Queue L} {i : Fin L.depth} (h : q.takeOldest = some i) :
    (q.slots i).state = .ready := by
  rw [takeOldest] at h
  split at h
  · cases h
  · obtain ⟨⟨j, seq⟩, hj, rfl⟩ := Option.map_eq_some_iff.mp h
    exact ((q.oldest_loop (List.finRange L.depth) none nofun).1 j seq hj).1

/-- Without a WRITING slot, `take_oldest` fails only on a queue that stores nothing. -/
theorem takeOldest_none {q : Queue L} (h : q.takeOldest = none)
    (hw : ∀ i, (q.slots i).state ≠ .writing) : q.stored = [] := by
  rw [takeOldest] at h
  split at h
  · rename_i hany
    obtain ⟨i, -, hi⟩ := List.any_eq_true.mp hany
    exact absurd (by simpa using hi) (hw i)
  · have hnone := ((q.oldest_loop (List.finRange L.depth) none nofun).2
      (Option.map_eq_none_iff.mp h)).2
    exact stored_eq_nil fun i => hnone i (List.mem_finRange i)

/-! ## §3 Occupancy -/

theorem occupied_modify (q : Queue L) (p : Nat → Bool) (i : Fin L.depth)
    (f : Slot L.Cells → Slot L.Cells) :
    (q.modify i f).occupied p +
        (if (q.slots i).state != .free && p (q.slots i).ticket then 1 else 0) =
      q.occupied p +
        (if (f (q.slots i)).state != .free && p (f (q.slots i)).ticket then 1 else 0) := by
  rw [occupied, modify, ofFn_update]
  exact countP_set (fun slot => slot.state != .free && p slot.ticket)
    (getElem?_ofFn_fin q.slots i) (f (q.slots i))

/-- A call that returns true occupies one slot, under the next number. -/
theorem occupied_enqueue (q : Queue L) (e : L.Event) (p : Nat → Bool) :
    (q.enqueue e).1.occupied p =
      q.occupied p + (if (q.enqueue e).2 && p q.nextSequence then 1 else 0) := by
  rcases q.enqueue_cases e with ⟨-, hq⟩ | ⟨-, -, hq⟩ | ⟨i, -, hfree, hq⟩
  · rw [hq]
    rfl
  · rw [hq]
    rfl
  · have hmodify := q.bumpSequence.occupied_modify p i fun slot =>
      ⟨.ready, q.nextSequence, applyWrites (L.writes e) slot.cells⟩
    rw [hq]
    simp only [bumpSequence_slots, hfree, bne_self_eq_false, Bool.false_and, Bool.false_eq_true,
      if_false, Nat.add_zero] at hmodify
    exact hmodify

/-- Calls never take numbers back. -/
theorem enqueue_nextSequence_le (q : Queue L) (e : L.Event) :
    q.nextSequence ≤ (q.enqueue e).1.nextSequence := by
  rcases q.enqueue_cases e with ⟨-, hq⟩ | ⟨-, -, hq⟩ | ⟨i, -, -, hq⟩
  · rw [hq]
    exact Nat.le_refl _
  · rw [hq]
    exact Nat.le_succ _
  · rw [hq]
    exact Nat.le_succ _

theorem occupied_eq_zero {q : Queue L} {p : Nat → Bool}
    (h : ∀ i, (q.slots i).state ≠ .free → p (q.slots i).ticket = false) : q.occupied p = 0 := by
  rw [occupied, List.countP_eq_zero]
  intro slot hslot
  obtain ⟨i, rfl⟩ := List.mem_ofFn.mp hslot
  by_cases hfree : (q.slots i).state = .free
  · simp [hfree]
  · simp [h i hfree]

theorem hasPending_eq_false {q : Queue L} (h : q.hasPending = false) (i : Fin L.depth) :
    (q.slots i).state = .free := by
  simpa using List.any_eq_false.mp h i (List.mem_finRange i)

/-- A threshold splits the occupied slots in two. -/
theorem occupied_split (q : Queue L) (n : Nat) :
    q.occupied (· < n) + q.occupied (n ≤ ·) = q.occupied fun _ => true := by
  rw [occupied, occupied, occupied]
  generalize List.ofFn q.slots = slots
  induction slots with
  | nil => rfl
  | cons slot slots ih =>
    simp only [Bool.and_true] at ih
    simp only [List.countP_cons]
    by_cases hlt : slot.ticket < n
    · have hle : ¬ n ≤ slot.ticket := by omega
      simp only [hlt, hle, decide_true, decide_false, Bool.and_true, Bool.and_false,
        Bool.false_eq_true, if_false]
      omega
    · have hle : n ≤ slot.ticket := by omega
      simp only [hlt, hle, decide_true, decide_false, Bool.and_true, Bool.and_false,
        Bool.false_eq_true, if_false]
      omega

/-- A slot is FREE exactly if not all are occupied. -/
theorem free_iff_occupied_lt (q : Queue L) :
    (∃ i, (q.slots i).state = .free) ↔ q.occupied (fun _ => true) < L.depth := by
  have hle : q.occupied (fun _ => true) ≤ L.depth := by
    rw [occupied]
    exact List.countP_le_length.trans_eq List.length_ofFn
  have hfull : q.occupied (fun _ => true) = L.depth ↔ ∀ i, (q.slots i).state ≠ .free := by
    rw [occupied]
    conv_lhs => rhs; rw [← List.length_ofFn (f := q.slots)]
    rw [List.countP_eq_length]
    constructor
    · intro h i
      simpa using h (q.slots i) (List.mem_ofFn.mpr ⟨i, rfl⟩)
    · intro h slot hslot
      obtain ⟨i, rfl⟩ := List.mem_ofFn.mp hslot
      simpa using h i
  constructor
  · rintro ⟨i, hi⟩
    exact lt_of_le_of_ne hle fun heq => hfull.mp heq i hi
  · intro hlt
    by_contra hnone
    push Not at hnone
    exact hlt.ne (hfull.mpr hnone)

end HisiRiscv.Supplicant.Queue
