/-
HisiRiscv.Supplicant.Flow — where the events that hostap is fed come from.

An event that is fed has waited in its lane, stored or under the guard, and a lane gets
its events with new numbers. So what does not wait in a lane, and has an old number, is not fed
any more (`Flows`).
-/
import HisiRiscv.Supplicant.Delivery

namespace HisiRiscv.Supplicant

namespace Lane

variable {L : Layout} {l l' l'' : Lane L}

/-- The events that can still be fed. -/
def waiting (l : Lane L) : List (Nat × L.Event) := l.held ++ l.queue.stored

/-- What comes into the lane, and what is fed, has waited there or has a new number. -/
structure Flows (l l' : Lane L) : Prop where
  next : l.queue.nextSequence ≤ l'.queue.nextSequence
  waiting : ∀ x ∈ l'.waiting, x ∈ l.waiting ∨ l.queue.nextSequence ≤ x.1
  fed : ∃ xs, l'.fed = l.fed ++ xs ∧ ∀ x ∈ xs, x ∈ l.waiting ∨ l.queue.nextSequence ≤ x.1

theorem Flows.refl (l : Lane L) : Flows l l where
  next := Nat.le_refl _
  waiting := fun _ => .inl
  fed := ⟨[], (List.append_nil _).symm, List.forall_mem_nil _⟩

theorem Flows.trans (h : Flows l l') (h' : Flows l' l'') : Flows l l'' := by
  have old : ∀ x : Nat × L.Event, x ∈ l'.waiting ∨ l'.queue.nextSequence ≤ x.1 →
      x ∈ l.waiting ∨ l.queue.nextSequence ≤ x.1 := by
    rintro x (hx | hx)
    · exact h.waiting x hx
    · exact .inr (Nat.le_trans h.next hx)
  obtain ⟨xs, hfed, hxs⟩ := h.fed
  obtain ⟨ys, hfed', hys⟩ := h'.fed
  refine ⟨Nat.le_trans h.next h'.next, fun x hx => old x (h'.waiting x hx), xs ++ ys, ?_, ?_⟩
  · rw [hfed', hfed, List.append_assoc]
  · intro x hx
    rcases List.mem_append.mp hx with hx | hx
    · exact hxs x hx
    · exact old x (hys x hx)

/-- A lane that only loses events. -/
theorem Flows.of_subset (hnext : l'.queue.nextSequence = l.queue.nextSequence)
    (hwaiting : ∀ x ∈ l'.waiting, x ∈ l.waiting)
    (hfed : ∃ xs, l'.fed = l.fed ++ xs ∧ ∀ x ∈ xs, x ∈ l.waiting) : Flows l l' := by
  obtain ⟨xs, hfed, hxs⟩ := hfed
  exact ⟨hnext.ge, fun x hx => .inl (hwaiting x hx), xs, hfed, fun x hx => .inl (hxs x hx)⟩

theorem unfed (h : l'.fed = l.fed) : ∃ xs, l'.fed = l.fed ++ xs ∧ ∀ x ∈ xs, x ∈ l.waiting :=
  ⟨[], by rw [h, List.append_nil], List.forall_mem_nil _⟩

theorem flows_enqueue (h : l.Inv) (e : L.Event) : Flows l (l.enqueue e).1 where
  next := l.queue.enqueue_nextSequence_le e
  waiting := by
    intro x hx
    have hheld := h.tidy.held_enqueue e
    rw [waiting, hheld] at hx
    rcases List.mem_append.mp hx with hx | hx
    · exact .inl (List.mem_append_left _ hx)
    have hx : x ∈ (l.queue.enqueue e).1.stored := hx
    rcases l.queue.enqueue_cases e with ⟨-, hq⟩ | ⟨-, -, hq⟩ | ⟨i, hacc, hfree, hq⟩
    · rw [hq] at hx
      exact .inl (List.mem_append_right _ hx)
    · rw [hq] at hx
      exact .inl (List.mem_append_right _ hx)
    · rw [hq] at hx
      rcases List.mem_cons.mp ((Queue.stored_enqueue hacc hfree).mem_iff.mp hx) with rfl | hx
      · exact .inr (Nat.le_refl _)
      · exact .inl (List.mem_append_right _ hx)
  fed := ⟨[], (List.append_nil _).symm, List.forall_mem_nil _⟩

theorem flows_takeOldest (ht : l.takeOldest = some l') : Flows l l' := by
  obtain ⟨i, hi, hqueue, hheld⟩ := held_takeOldest ht
  have hstored := Queue.stored_markReading (Queue.takeOldest_some hi)
  obtain ⟨_, -, rfl⟩ := Option.map_eq_some_iff.mp ht
  refine .of_subset rfl (fun x hx => ?_) (unfed rfl)
  rw [waiting, hheld, hqueue] at hx
  exact List.mem_append_right _ (hstored.mem_iff.mpr hx)

/-- What is stored after a release was stored before. -/
theorem stored_release_subset (q : Queue L) (i : Fin L.depth) :
    ∀ x ∈ (q.release i).stored, x ∈ q.stored := by
  intro x hx
  obtain ⟨j, hj, rfl⟩ := Queue.mem_stored.mp hx
  rw [Queue.release, Queue.modify_slots] at hj ⊢
  split at hj
  · cases hj
  · rename_i hne
    rw [if_neg hne]
    exact Queue.mem_stored.mpr ⟨j, hj, rfl⟩

theorem flows_dropGuard (l : Lane L) (fate : Fate) : Flows l (l.dropGuard fate) := by
  rw [dropGuard]
  split
  · exact .refl l
  · rename_i i hi
    have hstored : ∀ x ∈ (l.queue.release i).stored, x ∈ l.waiting := fun x hx =>
      List.mem_append_right _ (stored_release_subset l.queue i x hx)
    cases fate with
    | fed => exact .of_subset rfl hstored ⟨l.held, rfl, fun x hx => List.mem_append_left _ hx⟩
    | discarded => exact .of_subset rfl hstored (unfed rfl)
    | lost => exact .of_subset rfl hstored (unfed rfl)

theorem flows_overflow {delta : UInt32} (h : l.overflow = some (delta, l')) : Flows l l' := by
  rw [overflow] at h
  split at h
  · cases h
  · cases h
    exact .of_subset rfl (fun _ hx => hx) (unfed rfl)

/-- A lane that waits for nothing: no slot is in use, or nothing can be taken. -/
theorem waiting_eq_nil (hguard : l.guard = none) (hstored : l.queue.stored = []) :
    l.waiting = [] := by
  rw [waiting, held, hguard, hstored]
  rfl

theorem Inv.waiting_of_takeOldest (h : l.Inv) (hguard : l.guard = none)
    (ht : l.takeOldest = none) : l.waiting = [] :=
  waiting_eq_nil hguard (Queue.takeOldest_none (Option.map_eq_none_iff.mp ht) h.no_writing)

theorem waiting_of_hasPending (hguard : l.guard = none) (hpending : l.queue.hasPending = false) :
    l.waiting = [] := by
  refine waiting_eq_nil hguard (Queue.stored_eq_nil fun i hi => ?_)
  rw [Queue.hasPending_eq_false hpending i] at hi
  cases hi

end Lane

namespace Poll

open Lane

variable {sys : RadioSys} {s t : State sys}

theorem flows_setLane (s : State sys) {k : QueueKind} {lane : Lane (k.layout sys)}
    (h : Flows (s.lanes k) lane) (k' : QueueKind) :
    Flows (s.lanes k') ((s.setLane k lane).lanes k') := by
  by_cases hk : k' = k
  · subst hk
    rw [State.setLane_self]
    exact h
  · rw [State.setLane_ne s lane hk]
    exact .refl _

theorem flows_callback (s : State sys) {k : QueueKind} (h : (s.lanes k).Inv)
    (e : (k.layout sys).Event) (k' : QueueKind) :
    Flows (s.lanes k') ((s.enqueue k e).1.lanes k') :=
  flows_setLane s (flows_enqueue h e) k'

theorem flows_stepTake (s : State sys) (k : QueueKind) (rxGrant budget : Nat) (k' : QueueKind) :
    Flows (s.lanes k') ((s.stepTake k rxGrant budget).lanes k') := by
  rw [State.stepTake]
  split
  · exact .refl _
  · cases ht : (s.lanes k).takeOldest with
    | none => exact .refl _
    | some lane =>
      have htaken := flows_setLane s (flows_takeOldest ht) k'
      dsimp only
      split
      · exact htaken
      · exact htaken.trans (flows_setLane _ (flows_dropGuard _ _) k')
      · exact htaken

theorem flows_advance {status : Int32} (hs : s.advance status = some t) (k' : QueueKind) :
    Flows (s.lanes k') (t.lanes k') := by
  cases hpc : s.pc with
  | idle | receive | hostap =>
    simp only [State.advance, hpc] at hs
    cases hs
  | overflow k rxGrant =>
    simp only [State.advance, hpc] at hs
    split at hs
    · rename_i delta lane hover
      cases hs
      exact flows_setLane s (flows_overflow hover) k'
    · cases hs
      exact .refl _
  | take k rxGrant budget =>
    simp only [State.advance, hpc] at hs
    cases hs
    exact flows_stepTake s k rxGrant budget k'
  | clear rxGrant budget =>
    simp only [State.advance, hpc] at hs
    split at hs
    · cases hs
      exact flows_setLane s (flows_dropGuard _ _) k'
    · cases hs
      exact .refl _
  | feed k rxGrant budget =>
    simp only [State.advance, hpc] at hs
    cases hs
    rw [State.stepFeed]
    split
    · exact flows_setLane s (flows_dropGuard _ _) k'
    · exact flows_setLane s (flows_dropGuard _ _) k'
  | swap rxGrant budget =>
    simp only [State.advance, hpc] at hs
    cases hs
    rw [State.stepSwap]
    split <;> exact .refl _
  | feedEapol rxGrant budget =>
    simp only [State.advance, hpc] at hs
    cases hs
    rw [State.stepFeedEapol]
    split
    · exact .refl _
    · split <;> exact .refl _
  | discard =>
    simp only [State.advance, hpc] at hs
    split at hs
    · rename_i lane ht
      cases hs
      exact (flows_setLane s (flows_takeOldest ht) k').trans
        (flows_setLane _ (flows_dropGuard _ _) k')
    · cases hs
      exact .refl _

/-- Every step lets the events flow. -/
theorem flows_step {act : Action} (h : Inv False s.lanes s.pc) (hs : step s act = some t)
    (k : QueueKind) : Flows (s.lanes k) (t.lanes k) := by
  cases step_cases hs with
  | refuse | resultTruncated | notify | beginCapture | startScan | ioctlReturn | setPort
  | poll | cancelCapture | hostapReturn => exact .refl _
  | announce e => exact flows_callback s (h.lane _) e k
  | resultRefused => exact flows_callback s (h.lane .scan) _ k
  | resultQueued =>
    exact flows_callback { s with acceptedResults := s.acceptedResults + 1 } (h.lane .scan) _ k
  | scanDone => exact flows_callback { s with nativeScanActive := false } (h.lane .scan) _ k
  | advance hs => exact flows_advance hs k
  | receive =>
    rw [State.stepReceive]
    split
    · exact .refl _
    · exact .refl _
    · split <;> exact .refl _

end Poll

end HisiRiscv.Supplicant
