/-
HisiRiscv.Osal.WaitTheorems — whom a wakeup wakes.

A wakeup releases one permit, and any wait on the object may take it, also
one whose own predicate does not hold: it evaluates the predicate, waits
again, and the permit is gone. So a wakeup may pass by the wait it was
meant for, and one wakeup is not enough when the predicates of two waits
hold. Nothing else goes wrong: as long as no wait takes the last permit
while the predicate of another one holds, no wait is left behind. A wait
that is alone takes nothing from others.

  §1 The condition.
  §2 The invariant.
  §3 Main results.
-/
import HisiRiscv.Lib.Ledger
import HisiRiscv.Osal.Wait

namespace HisiRiscv.Osal.Wait

open HisiRiscv.Machine

variable {S P : Type*} {eval : P → S → Int32} {s t : State S P}

/-! ## §1 The condition -/

/-- A wait takes the last permit, with no wakeup on its way, only if the predicate
of no other wait holds that has found it false. -/
def LeavesNone (eval : P → S → Int32) (s : State S P) : Action S P → Prop
  | .waiter k => ∀ w ∈ s.waiters[k]?, w.pc = .blocked → s.semaphore = some 1 →
      (∀ c ∈ s.wakeups, c.pending = false) →
        ∀ j < s.waiters.length, j ≠ k → ∀ v ∈ s.waiters[j]?, v.stale = true →
          v.holds eval s.shared = false
  | .wait _ _ | .wakeup | .write _ | .quietWrite _ | .timesOut _ | .downFails _ | .waker _
  | .tick _ => True

instance decidableLeavesNone (eval : P → S → Int32) (s : State S P) :
    (a : Action S P) → Decidable (LeavesNone eval s a)
  | .waiter k => inferInstanceAs (Decidable (∀ w ∈ s.waiters[k]?, w.pc = .blocked →
      s.semaphore = some 1 → (∀ c ∈ s.wakeups, c.pending = false) →
        ∀ j < s.waiters.length, j ≠ k → ∀ v ∈ s.waiters[j]?, v.stale = true →
          v.holds eval s.shared = false))
  | .wait _ _ | .wakeup | .write _ | .quietWrite _ | .timesOut _ | .downFails _ | .waker _
  | .tick _ => inferInstanceAs (Decidable True)

/-! ## §2 The invariant -/

/-- The call is past the check of the handle. -/
def Waiter.inside (w : Waiter P) : Bool :=
  match w.pc with
  | .checking | .unready | .blocked | .ready => true
  | .entered | .returned _ => false

theorem Waiter.inside_of_stale {w : Waiter P} (h : w.stale = true) : w.inside = true := by
  unfold stale at h
  unfold inside
  cases hpc : w.pc <;> first | rfl | (rw [hpc] at h; cases h)

theorem Waiter.unfinished_of_stale {w : Waiter P} (h : w.stale = true) : w.unfinished = true := by
  unfold stale at h
  unfold unfinished
  cases hpc : w.pc <;> first | rfl | (rw [hpc] at h; cases h)

structure Inv (eval : P → S → Int32) (s : State S P) : Prop where
  handle : ∀ w ∈ s.waiters, w.inside = true → s.semaphore.isSome = true
  woken : ∀ w ∈ s.waiters, w.stale = true → w.holds eval s.shared = true →
    s.semaphore ≠ some 0 ∨ ∃ c ∈ s.wakeups, c.pending = true

theorem inv_init (shared : S) (semaphore : Option Nat) (clock : UInt64) :
    Inv eval (init shared semaphore clock : State S P) :=
  ⟨nofun, nofun⟩

/-- Of the waits, only number `k` moves; if it is about to wait, so it was before,
or its predicate does not hold. -/
theorem Inv.move (h : Inv eval s) {k : Nat} {w w' : Waiter P} (hk : s.waiters[k]? = some w)
    (hinside : w'.inside = true → s.semaphore.isSome = true)
    (hstale : w'.stale = true → w'.holds eval s.shared = true →
      w.stale = true ∧ w.holds eval s.shared = true) : Inv eval (s.goto k w') := by
  refine ⟨fun v hv hin => ?_, fun v hv hst hholds => ?_⟩
  · rcases Ledger.mem_set_cases hv with rfl | hv
    · exact hinside hin
    · exact h.handle v hv hin
  · rcases Ledger.mem_set_cases hv with rfl | hv
    · obtain ⟨hst, hholds⟩ := hstale hst hholds
      exact h.woken w (List.mem_of_getElem? hk) hst hholds
    · exact h.woken v hv hst hholds

/-- A wait that is about to wait has just found its predicate false. -/
theorem Waiter.holds_of_checked_stale {w : Waiter P} {b : Bool} (h : (w.checked b).stale = true) :
    b = false := by
  cases b with
  | false => rfl
  | true =>
    unfold checked at h
    split at h
    · cases h
    · cases h
    · rw [if_pos rfl] at h
      split at h <;> cases h

theorem Waiter.checked_func (w : Waiter P) (b : Bool) : (w.checked b).func = w.func := by
  unfold checked
  split
  · rfl
  · rfl
  · split
    · rfl
    · split <;> rfl

theorem Waiter.holds_congr {w w' : Waiter P} (h : w'.func = w.func) (shared : S) :
    w'.holds eval shared = w.holds eval shared := by
  unfold holds
  rw [h]

theorem Waiter.not_stale_enter (w : Waiter P) (clock : UInt64) : (w.enter clock).stale = false := by
  unfold enter
  split
  · rfl
  · rfl
  · split
    · rfl
    · split <;> rfl

/-- A permit is taken. -/
theorem inv_down {k permits : Nat} {w : Waiter P}
    (hok : permits = 0 → (∀ c ∈ s.wakeups, c.pending = false) →
      ∀ j < s.waiters.length, j ≠ k → ∀ v ∈ s.waiters[j]?, v.stale = true →
        v.holds eval s.shared = false) :
    Inv eval ({ s with semaphore := some permits }.goto k (w.goto .checking)) := by
  refine ⟨fun _ _ _ => rfl, fun v hv hst hholds => ?_⟩
  obtain ⟨j, hj⟩ := List.mem_iff_getElem?.mp hv
  rcases Ledger.getElem?_set_cases hj with ⟨-, rfl⟩ | ⟨hjk, hj⟩
  · cases hst
  · by_cases hzero : permits = 0
    · refine .inr (Classical.by_contradiction fun hnone => ?_)
      have hquiet : ∀ c ∈ s.wakeups, c.pending = false := by
        intro c hc
        exact Bool.eq_false_iff.mpr fun hpending => hnone ⟨c, hc, hpending⟩
      have hlt := (List.getElem?_eq_some_iff.mp hj).1
      have hfalse := hok hzero hquiet j hlt hjk v hj hst
      have hholds : v.holds eval s.shared = true := hholds
      rw [hfalse] at hholds
      cases hholds
    · exact .inl fun heq => hzero (Option.some.inj heq)

theorem inv_stepWaiter (h : Inv eval s) {k : Nat} {w : Waiter P} (hk : s.waiters[k]? = some w)
    (hok : LeavesNone eval s (.waiter k)) (hs : s.stepWaiter eval k w = some t) : Inv eval t := by
  have hhandle := h.handle w (List.mem_of_getElem? hk)
  unfold State.stepWaiter at hs
  split at hs
  · -- entered
    split at hs
    · cases hs
      exact h.move hk nofun nofun
    · rename_i hsem
      cases hs
      refine h.move hk (fun _ => by rw [hsem]; rfl) fun hst => ?_
      rw [Waiter.not_stale_enter] at hst
      cases hst
  · -- checking
    rename_i hpc
    cases hs
    refine h.move hk (fun _ => hhandle (by unfold Waiter.inside; rw [hpc])) fun hst hholds => ?_
    rw [Waiter.holds_congr (w.checked_func _), Waiter.holds_of_checked_stale hst] at hholds
    cases hholds
  · -- unready
    rename_i hpc
    cases hs
    refine h.move hk (fun _ => hhandle (by unfold Waiter.inside; rw [hpc])) fun _ hholds => ?_
    exact ⟨by unfold Waiter.stale; rw [hpc], hholds⟩
  · -- blocked
    rename_i hpc
    split at hs
    · cases hs
    · cases hs
    · rename_i permits hsem
      cases hs
      refine inv_down fun hzero => hok w hk hpc ?_
      rw [hsem, hzero]
  · -- ready
    cases hs
    exact h.move hk nofun nofun
  · cases hs

theorem inv_stepWaker (h : Inv eval s) {k : Nat} {c : Wakeup} (hk : s.wakeups[k]? = some c)
    (hs : s.stepWaker k c = some t) : Inv eval t := by
  cases c with
  | entered =>
    cases hs
    refine ⟨h.handle, fun w hw hst hholds => ?_⟩
    obtain ⟨permits, hsem⟩ := Option.isSome_iff_exists.mp (h.handle w hw (Waiter.inside_of_stale hst))
    refine .inr ⟨.signalling, ?_, rfl⟩
    have hlt := (List.getElem?_eq_some_iff.mp hk).1
    have hset : (if s.semaphore.isNone then Wakeup.returned else .signalling) = .signalling := by
      rw [hsem]
      rfl
    dsimp only
    rw [hset]
    exact List.mem_of_getElem? (List.getElem?_set_self hlt)
  | signalling =>
    cases hs
    refine ⟨fun w hw hin => ?_, fun w hw hst _ => .inl ?_⟩
    · exact Option.isSome_map.trans (h.handle w hw hin)
    · obtain ⟨permits, hsem⟩ :=
        Option.isSome_iff_exists.mp (h.handle w hw (Waiter.inside_of_stale hst))
      dsimp only
      rw [hsem]
      exact fun heq => nomatch Option.some.inj heq
  | returned => cases hs

theorem inv_step (h : Inv eval s) {act : Action S P} (hok : LeavesNone eval s act)
    (hs : step eval s act = some t) : Inv eval t := by
  have happend : ∀ v : Waiter P, v.pc = .entered → ∀ w ∈ s.waiters ++ [v], w.inside = true →
      w ∈ s.waiters := by
    intro v hv w hw hin
    rcases List.mem_append.mp hw with hw | hw
    · exact hw
    · rw [List.mem_singleton.mp hw, Waiter.inside, hv] at hin
      cases hin
  cases act with
  | wait kind func =>
    cases hs
    refine ⟨fun w hw hin => h.handle w (happend _ rfl w hw hin) hin, fun w hw hst hholds => ?_⟩
    exact h.woken w (happend _ rfl w hw (Waiter.inside_of_stale hst)) hst hholds
  | wakeup | write shared =>
    cases hs
    exact ⟨h.handle, fun _ _ _ _ => .inr ⟨.entered, List.mem_append_right _ List.mem_cons_self, rfl⟩⟩
  | quietWrite shared =>
    obtain ⟨hsame, hs⟩ := Option.ite_none_right_eq_some.mp hs
    cases hs
    refine ⟨h.handle, fun w hw hst hholds => h.woken w hw hst ?_⟩
    rw [← hsame w hw (Waiter.unfinished_of_stale hst)]
    exact hholds
  | waiter k =>
    obtain ⟨w, hk, hs⟩ := Option.bind_eq_some_iff.mp hs
    exact inv_stepWaiter h hk hok hs
  | timesOut k =>
    obtain ⟨w, hk, hs⟩ := Option.bind_eq_some_iff.mp hs
    obtain ⟨⟨hpc, -⟩, hs⟩ := Option.ite_none_right_eq_some.mp hs
    cases hs
    refine h.move hk (fun _ => h.handle w (List.mem_of_getElem? hk) ?_) nofun
    unfold Waiter.inside
    rw [hpc]
  | downFails k =>
    obtain ⟨w, hk, hs⟩ := Option.bind_eq_some_iff.mp hs
    obtain ⟨-, hs⟩ := Option.ite_none_right_eq_some.mp hs
    cases hs
    exact h.move hk nofun nofun
  | waker k =>
    obtain ⟨c, hk, hs⟩ := Option.bind_eq_some_iff.mp hs
    exact inv_stepWaker h hk hs
  | tick clock =>
    obtain ⟨-, hs⟩ := Option.ite_none_right_eq_some.mp hs
    cases hs
    exact ⟨h.handle, h.woken⟩

/-! ## §3 Main results -/

/-- In a quiescent state all wakeups have returned. -/
theorem Quiescent.not_pending (h : Quiescent eval s) {c : Wakeup} (hc : c ∈ s.wakeups) :
    c.pending = false := by
  obtain ⟨k, hk⟩ := List.mem_iff_getElem?.mp hc
  have hstep : s.wakeups[k]?.bind (s.stepWaker k) = none := h.2 k
  rw [hk, Option.bind_some] at hstep
  cases c with
  | entered | signalling => cases hstep
  | returned => rfl

/-- In a quiescent state a blocked wait finds no permit. -/
theorem Quiescent.no_permit (h : Quiescent eval s) {w : Waiter P} (hw : w ∈ s.waiters)
    (hpc : w.pc = .blocked) {permits : Nat} : s.semaphore ≠ some (permits + 1) := by
  intro hsem
  obtain ⟨k, hk⟩ := List.mem_iff_getElem?.mp hw
  have hstep : s.waiters[k]?.bind (s.stepWaiter eval k) = none := h.1 k
  rw [hk, Option.bind_some, State.stepWaiter, hpc] at hstep
  simp only [hsem] at hstep
  cases hstep

/-- **No lost wakeup.** In a run where no wait takes the last permit while the
predicate of another holds, no wait is blocked in a quiescent state whose
predicate holds. -/
theorem no_lost_wakeup {shared : S} {semaphore : Option Nat} {clock : UInt64}
    {as : List (Action S P)}
    (h : Steps (step eval) (LeavesNone eval) (init shared semaphore clock) as s)
    (hq : Quiescent eval s) : ∀ w ∈ s.waiters, w.pc = .blocked → w.holds eval s.shared = false := by
  have hinv := h.invariant (inv_init shared semaphore clock) fun _ _ _ ht hok hs => inv_step ht hok hs
  intro w hw hpc
  refine Bool.eq_false_iff.mpr fun hholds => ?_
  have hst : w.stale = true := by
    unfold Waiter.stale
    rw [hpc]
  obtain ⟨permits, hsem⟩ := Option.isSome_iff_exists.mp (hinv.handle w hw (Waiter.inside_of_stale hst))
  rcases hinv.woken w hw hst hholds with hpermit | ⟨c, hc, hpending⟩
  · cases permits with
    | zero => exact hpermit hsem
    | succ permits => exact hq.no_permit hw hpc hsem
  · rw [hq.not_pending hc] at hpending
    cases hpending

/-- Predicates that ask for bits of a word. -/
def bitsSet (mask word : UInt32) : Int32 := (mask &&& word).toInt32

/-- Two waits, for bit 0 and bit 1, are blocked; a write sets some bits, and the
first wait takes the permit of its wakeup. -/
def firstTakes (word : UInt32) : List (Action UInt32 UInt32) :=
  [.wait .interruptible (some 1), .wait .uninterruptible (some 2), .waiter 0, .waiter 0, .waiter 1,
    .waiter 1, .write word, .waker 0, .waker 0, .waiter 0, .waiter 0]

/-- The state after that. -/
def afterFirst (word : UInt32) (pc : Pc) : State UInt32 UInt32 where
  shared := word
  semaphore := some 0
  clock := 0
  waiters := [⟨.interruptible, some 1, 0, pc⟩, ⟨.uninterruptible, some 2, 0, .blocked⟩]
  wakeups := [.returned]

theorem quiescent_afterFirst (word : UInt32) {pc : Pc} (hpc : pc = .blocked ∨ ∃ r, pc = .returned r) :
    Quiescent bitsSet (afterFirst word pc) := by
  refine ⟨fun k => ?_, fun k => ?_⟩
  · match k with
    | 0 => rcases hpc with rfl | ⟨r, rfl⟩ <;> rfl
    | 1 | _ + 2 => rfl
  · match k with
    | 0 | _ + 1 => rfl

/-- Bit 0 is set: the first wait returns, and the other one has nothing to wait for. -/
theorem no_lost_wakeup_sample : Quiescent bitsSet (afterFirst 1 (.returned 0)) ∧
    ∀ w ∈ (afterFirst 1 (.returned 0)).waiters, w.pc = .blocked → w.holds bitsSet 1 = false := by
  have hrun : run (guarded (step bitsSet) (LeavesNone bitsSet)) (init 0 (some 0) 0) (firstTakes 1) =
      some (afterFirst 1 (.returned 0)) := by decide +kernel
  have hquiet := quiescent_afterFirst 1 (.inr ⟨0, rfl⟩)
  exact ⟨hquiet, no_lost_wakeup (Steps.of_run_guarded hrun) hquiet⟩

/-- Bit 1 is set, but the wait for bit 0 takes the permit, and both wait for ever. -/
theorem wakeup_swallowed :
    ¬ ∀ s : State UInt32 UInt32, Reachable (step bitsSet) (init 0 (some 0) 0) s →
      Quiescent bitsSet s → ∀ w ∈ s.waiters, w.pc = .blocked → w.holds bitsSet s.shared = false := by
  intro h
  have hrun : run (step bitsSet) (init 0 (some 0) 0) (firstTakes 2) =
      some (afterFirst 2 .blocked) := by decide +kernel
  have hquiet := quiescent_afterFirst 2 (.inl rfl)
  have hfalse := h (afterFirst 2 .blocked) ⟨_, Steps.of_run hrun⟩ hquiet
    ⟨.uninterruptible, some 2, 0, .blocked⟩ (List.mem_cons_of_mem _ List.mem_cons_self) rfl
  cases hfalse

/-- A wait that is alone leaves none behind. -/
theorem leavesNone_of_alone {k : Nat}
    (h : ∀ j w, s.waiters[j]? = some w → j ≠ k → w.unfinished = false) :
    LeavesNone eval s (.waiter k) := by
  intro w _ _ _ _ j _ hjk v hv hst
  have hdone := h j v hv hjk
  rw [Waiter.unfinished_of_stale hst] at hdone
  cases hdone

end HisiRiscv.Osal.Wait
