/-
HisiRiscv.Supplicant.ScanReservation — when the terminal scan-done event
finds a slot.

The scan queue has one slot more than a transaction may queue results, so
that scan-done always fits. But `begin_transaction` only resets the
counter: events of earlier scans that are still queued keep their slots.
A run that begins every scan on an empty queue has no such leftovers, and
then the counter keeps the last slot free. A scan that begins on a queue in
use may fill it with its results.

  §1 The property and the condition.
  §2 What the runner does to a lane.
  §3 The reservation.
  §4 Main results.
-/
import HisiRiscv.Supplicant.Delivery

namespace HisiRiscv.Supplicant

open HisiRiscv.Machine

/-! ## §1 The property and the condition -/

namespace Poll

variable {sys : RadioSys}

/-- A scan-done that arrives while the port is READY and a scan is active is
queued, and counts as no drop. -/
def ScanDoneKept (s : State sys) : Prop :=
  s.portReady = true → s.nativeScanActive = true → ∀ status,
    (s.enqueueScanDone status).2 = true ∧
      ((s.enqueueScanDone status).1.lanes .scan).queue.dropped = (s.lanes .scan).queue.dropped

/-- The events of earlier scans that are still queued. -/
def State.leftover (s : State sys) : Nat := (s.lanes .scan).queue.occupied (· < s.scanStart)

/-- The queued results of the current scan. -/
def State.own (s : State sys) : Nat := (s.lanes .scan).queue.occupied (s.scanStart ≤ ·)

/-- The calls that claim `NATIVE_SCAN_ACTIVE` and begin a transaction. -/
def State.begins (s : State sys) : Action → Bool
  | .beginScanCacheCapture => s.portReady && !s.nativeScanActive
  | .startScan => !s.nativeScanActive
  | _ => false

/-- A scan transaction begins on an empty queue. -/
def BeginsEmpty (s : State sys) (act : Action) : Prop :=
  s.begins act = true → (s.lanes .scan).queue.hasPending = false

instance (s : State sys) (act : Action) : Decidable (BeginsEmpty s act) :=
  inferInstanceAs (Decidable (_ → _))

end Poll

/-! ## §2 What the runner does to a lane -/

namespace Lane

variable {L : Layout}

/-- The runner checks for overflow, takes events and drops guards. -/
inductive Moved (lane : Lane L) : Lane L → Prop
  | refl : Moved lane lane
  | seen {l} (h : Moved lane l) : Moved lane { l with droppedSeen := l.queue.dropped }
  | take {l l'} (h : Moved lane l) (ht : l.takeOldest = some l') : Moved lane l'
  | drop {l} (h : Moved lane l) (fate : Fate) : Moved lane (l.dropGuard fate)

/-- The runner occupies no slots and allocates no numbers. -/
theorem Moved.occupied_le {lane lane' : Lane L} (h : Moved lane lane') (p : Nat → Bool) :
    lane'.queue.occupied p ≤ lane.queue.occupied p := by
  induction h with
  | refl => exact Nat.le_refl _
  | seen _ ih => exact ih
  | @take l l' _ ht ih =>
    obtain ⟨i, hi, rfl⟩ := Option.map_eq_some_iff.mp ht
    have hready := Queue.takeOldest_some hi
    have hmodify := l.queue.occupied_modify p i fun slot => { slot with state := .reading }
    rw [hready] at hmodify
    have hsame : (l.queue.markReading i).occupied p = l.queue.occupied p := by
      rw [Queue.markReading]
      exact Nat.add_right_cancel hmodify
    exact hsame.le.trans ih
  | @drop l _ fate ih =>
    refine le_trans ?_ ih
    rw [dropGuard]
    cases hg : l.guard with
    | none => exact Nat.le_refl _
    | some i =>
      have hmodify := l.queue.occupied_modify p i fun slot => { slot with state := .free }
      have hle : (l.queue.release i).occupied p ≤ l.queue.occupied p := by
        rw [Queue.release]
        simp only [bne_self_eq_false, Bool.false_and, Bool.false_eq_true, if_false] at hmodify
        omega
      cases fate <;> exact hle

theorem Moved.nextSequence {lane lane' : Lane L} (h : Moved lane lane') :
    lane'.queue.nextSequence = lane.queue.nextSequence := by
  induction h with
  | refl => rfl
  | seen _ ih => exact ih
  | take _ ht ih =>
    obtain ⟨i, -, rfl⟩ := Option.map_eq_some_iff.mp ht
    exact ih
  | @drop l _ fate ih =>
    rw [dropGuard]
    cases l.guard with
    | none => exact ih
    | some i => cases fate <;> exact ih

end Lane

namespace Poll

variable {sys : RadioSys} {s t : State sys}

/-- A step of the runner moves the lanes and leaves the scan transaction alone. -/
structure RunnerStep (s t : State sys) : Prop where
  lane : ∀ k, (s.lanes k).Moved (t.lanes k)
  active : t.nativeScanActive = s.nativeScanActive
  acceptedResults : t.acceptedResults = s.acceptedResults
  scanStart : t.scanStart = s.scanStart
  portReady : t.portReady = s.portReady

theorem moved_setLane {k : QueueKind} {lane : Lane (k.layout sys)} (h : (s.lanes k).Moved lane)
    (k' : QueueKind) : (s.lanes k').Moved ((s.setLane k lane).lanes k') := by
  by_cases hk : k' = k
  · subst hk
    rw [State.setLane_self]
    exact h
  · rw [State.setLane_ne s lane hk]
    exact .refl

theorem runnerStep_advance {status : Int32} (hs : s.advance status = some t) : RunnerStep s t := by
  have hrefl : ∀ k, (s.lanes k).Moved (s.lanes k) := fun _ => .refl
  have hdrop : ∀ k fate k', (s.lanes k').Moved ((s.dropGuard k fate).lanes k') :=
    fun k fate => moved_setLane (.drop .refl fate)
  cases hpc : s.pc with
  | idle | receive | hostap =>
    simp only [State.advance, hpc] at hs
    cases hs
  | overflow k rxGrant =>
    simp only [State.advance, hpc] at hs
    split at hs
    · rename_i delta lane hover
      cases hs
      refine ⟨moved_setLane ?_, rfl, rfl, rfl, rfl⟩
      rw [Lane.overflow] at hover
      split at hover
      · cases hover
      · cases hover
        exact .seen .refl
    · cases hs
      exact ⟨hrefl, rfl, rfl, rfl, rfl⟩
  | take k rxGrant budget =>
    simp only [State.advance, hpc] at hs
    cases hs
    rw [State.stepTake]
    split
    · exact ⟨hrefl, rfl, rfl, rfl, rfl⟩
    · split
      · exact ⟨hrefl, rfl, rfl, rfl, rfl⟩
      · rename_i lane ht
        have htake := moved_setLane (.take .refl ht)
        dsimp only
        split
        · exact ⟨htake, rfl, rfl, rfl, rfl⟩
        · refine ⟨fun k' => ?_, rfl, rfl, rfl, rfl⟩
          by_cases hk : k' = k
          · subst hk
            simp only [State.return_, State.dropGuard, State.setLane_self]
            exact .drop (.take .refl ht) .lost
          · simp only [State.return_, State.dropGuard, State.setLane_ne _ _ hk]
            exact .refl
        · exact ⟨htake, rfl, rfl, rfl, rfl⟩
  | clear rxGrant budget =>
    simp only [State.advance, hpc] at hs
    split at hs
    · cases hs
      exact ⟨hdrop .link .lost, rfl, rfl, rfl, rfl⟩
    · cases hs
      exact ⟨hrefl, rfl, rfl, rfl, rfl⟩
  | feed k rxGrant budget =>
    simp only [State.advance, hpc] at hs
    cases hs
    rw [State.stepFeed]
    split
    · exact ⟨hdrop k .fed, rfl, rfl, rfl, rfl⟩
    · exact ⟨hdrop k .fed, rfl, rfl, rfl, rfl⟩
  | swap rxGrant budget =>
    simp only [State.advance, hpc] at hs
    cases hs
    rw [State.stepSwap]
    split <;> exact ⟨hrefl, rfl, rfl, rfl, rfl⟩
  | feedEapol rxGrant budget =>
    simp only [State.advance, hpc] at hs
    cases hs
    rw [State.stepFeedEapol]
    split
    · exact ⟨hrefl, rfl, rfl, rfl, rfl⟩
    · split <;> exact ⟨hrefl, rfl, rfl, rfl, rfl⟩
  | discard =>
    simp only [State.advance, hpc] at hs
    split at hs
    · rename_i lane ht
      cases hs
      refine ⟨fun k' => ?_, rfl, rfl, rfl, rfl⟩
      by_cases hk : k' = .scan
      · subst hk
        simp only [State.dropGuard, State.setLane_self]
        exact .drop (.take .refl ht) .discarded
      · simp only [State.dropGuard, State.setLane_ne _ _ hk]
        exact .refl
    · cases hs
      exact ⟨hrefl, rfl, rfl, rfl, rfl⟩

/-! ## §3 The reservation -/

/-- The invariant; `clean` says that every scan so far began on an empty queue. -/
structure Reserved (clean : Prop) (s : State sys) : Prop where
  capped : s.acceptedResults ≤ maxScanResults
  /-- the counter bounds the results of the current scan -/
  counted : s.nativeScanActive = true → s.own ≤ s.acceptedResults
  started : s.scanStart ≤ (s.lanes .scan).queue.nextSequence
  leftover : clean → s.leftover = 0

/-- Whatever the runner does, the reservation stands. -/
theorem Reserved.runner {clean : Prop} (h : Reserved clean s) (hrun : RunnerStep s t) :
    Reserved clean t where
  capped := hrun.acceptedResults ▸ h.capped
  counted hactive := by
    rw [hrun.active] at hactive
    rw [State.own, hrun.scanStart, hrun.acceptedResults]
    exact ((hrun.lane .scan).occupied_le _).trans (h.counted hactive)
  started := by
    rw [hrun.scanStart, (hrun.lane .scan).nextSequence]
    exact h.started
  leftover hclean := by
    rw [State.leftover, hrun.scanStart]
    exact Nat.le_zero.mp (((hrun.lane .scan).occupied_le _).trans_eq (h.leftover hclean))

theorem Reserved.congr {clean : Prop} (h : Reserved clean s) (h₁ : t.lanes .scan = s.lanes .scan)
    (h₂ : t.nativeScanActive = true → s.nativeScanActive = true)
    (h₃ : t.acceptedResults = s.acceptedResults) (h₄ : t.scanStart = s.scanStart) :
    Reserved clean t where
  capped := h₃ ▸ h.capped
  counted hactive := by
    rw [State.own, h₁, h₄, h₃]
    exact h.counted (h₂ hactive)
  started := by
    rw [h₁, h₄]
    exact h.started
  leftover hclean := by
    rw [State.leftover, h₁, h₄]
    exact h.leftover hclean

theorem Reserved.other {clean : Prop} (h : Reserved clean s) {k : QueueKind} (hk : k ≠ .scan)
    (e : (k.layout sys).Event) : Reserved clean (s.enqueue k e).1 :=
  h.congr (State.setLane_ne s _ hk.symm) id rfl rfl

/-- An event queued in the current scan is not a leftover, and one of its own. -/
theorem Reserved.enqueue {clean : Prop} (h : Reserved clean s)
    (e : (QueueKind.layout sys .scan).Event) (hcapped : t.acceptedResults ≤ maxScanResults)
    (hlane : t.lanes .scan = ((s.lanes .scan).enqueue e).1) (hstart : t.scanStart = s.scanStart)
    (hcounted : t.nativeScanActive = true →
      s.own + (if ((s.lanes .scan).queue.enqueue e).2 then 1 else 0) ≤ t.acceptedResults) :
    Reserved clean t := by
  have hqueue : (t.lanes .scan).queue = ((s.lanes .scan).queue.enqueue e).1 := by
    rw [hlane]
    rfl
  refine ⟨hcapped, fun hactive => ?_, ?_, fun hclean => ?_⟩
  · rw [State.own, hqueue, hstart, Queue.occupied_enqueue]
    have hown := hcounted hactive
    rw [State.own] at hown
    simpa [h.started] using hown
  · rw [hqueue, hstart]
    exact h.started.trans (Queue.enqueue_nextSequence_le _ e)
  · rw [State.leftover, hqueue, hstart, Queue.occupied_enqueue]
    have hnext : ¬ (s.lanes .scan).queue.nextSequence < s.scanStart := Nat.not_lt.mpr h.started
    have hleftover := h.leftover hclean
    rw [State.leftover] at hleftover
    simpa [hnext] using hleftover

/-- A transaction begins with nothing of its own. -/
theorem reserved_begin {clean : Prop} (hlanes : Inv False s.lanes s.pc)
    (hclean : clean → (s.lanes .scan).queue.hasPending = false) :
    Reserved clean s.beginTransaction where
  capped := Nat.zero_le _
  counted _ := by
    refine Nat.le_zero.mpr (Queue.occupied_eq_zero fun i hi => ?_)
    exact decide_eq_false (Nat.not_le.mpr ((hlanes.lane .scan).occupied_lt hi))
  started := Nat.le_refl _
  leftover hc := Queue.occupied_eq_zero fun i hi =>
    absurd (Queue.hasPending_eq_false (hclean hc) i) hi

theorem reserved_step {clean : Prop} {act : Action} (h : Reserved clean s)
    (hlanes : Inv False s.lanes s.pc) (hok : clean → BeginsEmpty s act) (hs : step s act = some t) :
    Reserved clean t := by
  cases step_cases hs with
  | refuse => exact h
  | announce e _ hk _ => exact h.other hk e
  | @resultRefused metadata ies hacc =>
    refine h.enqueue (.result metadata ies) h.capped (State.setLane_self ..) rfl fun hactive => ?_
    have hrefused : (QueueKind.layout sys .scan).accepts (ScanEvent.result metadata ies) = false := hacc
    rw [Queue.enqueue_refused hrefused]
    exact h.counted hactive
  | @resultQueued metadata ies hroom =>
    refine h.enqueue (.result metadata ies) hroom (State.setLane_self ..) rfl fun hactive => ?_
    refine Nat.add_le_add (h.counted hactive) ?_
    split
    · exact Nat.le_refl _
    · exact Nat.zero_le _
  | @scanDone status =>
    exact h.enqueue (.done status) h.capped (State.setLane_self ..) rfl fun heq => by cases heq
  | beginCapture hready hactive =>
    exact reserved_begin hlanes fun hc => hok hc (by rw [State.begins, hready, hactive]; rfl)
  | startScan hactive =>
    exact (reserved_begin hlanes fun hc => hok hc (by rw [State.begins, hactive]; rfl)).congr rfl id rfl rfl
  | cancelCapture => exact h.congr rfl (fun heq => by cases heq) rfl rfl
  | ioctlReturn hactive => exact h.congr rfl hactive rfl rfl
  | advance hs => exact h.runner (runnerStep_advance hs)
  | receive hpc =>
    rw [State.stepReceive]
    split
    · exact h.congr rfl id rfl rfl
    · exact h.congr rfl id rfl rfl
    · split <;> exact h.congr rfl id rfl rfl
  | resultTruncated | notify | poll | hostapReturn | setPort => exact h.congr rfl id rfl rfl

theorem reserved_init (clean : Prop) : Reserved clean (init sys) where
  capped := Nat.zero_le _
  counted := nofun
  started := Nat.le_refl _
  leftover _ := Queue.occupied_eq_zero fun _ hi => absurd rfl hi

theorem reserved_run {clean : Prop} {ok : State sys → Action → Prop} {as : List Action}
    (h : Steps step ok (init sys) as s) (hok : clean → ∀ s act, ok s act → BeginsEmpty s act) :
    Reserved clean s :=
  (h.invariant (I := fun s => Inv False s.lanes s.pc ∧ Reserved clean s)
    ⟨inv_init, reserved_init clean⟩ fun u act _ hI hu hs =>
      ⟨inv_step hI.1 nofun hs, reserved_step hI.2 hI.1 (fun hc => hok hc u act hu) hs⟩).2

/-! ## §4 Main results -/

/-- Scan-done passes the checks, so it is queued exactly if a slot is FREE. -/
theorem scanDoneKept_iff_free (s : State sys) :
    ScanDoneKept s ↔ (s.portReady = true → s.nativeScanActive = true →
      ∃ i, ((s.lanes .scan).queue.slots i).state = .free) := by
  have hcall : s.portReady = true → s.nativeScanActive = true → ∀ status,
      (s.enqueueScanDone status).2 = ((s.lanes .scan).queue.enqueue (ScanEvent.done status)).2 ∧
        ((s.enqueueScanDone status).1.lanes .scan).queue =
          ((s.lanes .scan).queue.enqueue (ScanEvent.done status)).1 := by
    intro hready hactive status
    simp only [State.enqueueScanDone, hready, hactive, Bool.not_true, Bool.or_false,
      Bool.false_eq_true, if_false]
    exact ⟨rfl, congrArg Lane.queue (State.setLane_self ..)⟩
  constructor
  · intro h hready hactive
    obtain ⟨hok, -⟩ := h hready hactive 0
    rw [(hcall hready hactive 0).1] at hok
    rcases (s.lanes .scan).queue.enqueue_cases (ScanEvent.done 0) with
      ⟨-, hq⟩ | ⟨-, -, hq⟩ | ⟨i, -, hfree, -⟩
    · rw [hq] at hok
      cases hok
    · rw [hq] at hok
      cases hok
    · exact ⟨i, hfree⟩
  · intro h hready hactive status
    obtain ⟨i, hi⟩ := h hready hactive
    rw [(hcall hready hactive status).1, (hcall hready hactive status).2]
    rcases (s.lanes .scan).queue.enqueue_cases (ScanEvent.done status) with
      ⟨hacc, -⟩ | ⟨-, hfull, -⟩ | ⟨j, -, -, hq⟩
    · have hdone : (scanEventQueue sys).accepts (ScanEvent.done status) = true := by
        simp [scanEventQueue, ScanEvent.done, ScanMeta.zero]
      exact absurd (hdone.symm.trans hacc) (by decide)
    · exact absurd hi (hfull i)
    · rw [hq]
      exact ⟨rfl, rfl⟩

/-- In every reachable state a scan-done is queued exactly if the events of
earlier scans and the queued results of the current one come to at most 32. -/
theorem scanDoneKept_iff_count {s : State sys} :
    ScanDoneKept s ↔ (s.portReady = true → s.nativeScanActive = true →
      s.leftover + s.own ≤ maxScanResults) := by
  rw [scanDoneKept_iff_free, Queue.free_iff_occupied_lt, ← Queue.occupied_split _ s.scanStart]
  exact forall₂_congr fun _ _ => Nat.lt_succ_iff (n := maxScanResults)

/-- A scan of which `n` results have been counted, with one slot more than that in use. -/
structure Crowded (n : Nat) (s : State sys) : Prop where
  ready : s.portReady = true
  active : s.nativeScanActive = true
  counted : s.acceptedResults = n
  occupied : n < s.leftover + s.own

theorem total_eq (s : State sys) :
    s.leftover + s.own = (s.lanes .scan).queue.occupied fun _ => true :=
  Queue.occupied_split _ s.scanStart

/-- A queue that is not empty is crowded when a transaction begins on it. -/
theorem crowded_begin {act : Action} (hready : s.portReady = true) (hbegins : s.begins act = true)
    (hpending : (s.lanes .scan).queue.hasPending = true) (hs : step s act = some t) : Crowded 0 t := by
  have hcrowded : Crowded 0 s.beginTransaction := by
    refine ⟨hready, rfl, rfl, ?_⟩
    obtain ⟨i, -, hi⟩ := List.any_eq_true.mp hpending
    rw [total_eq]
    refine Nat.pos_of_ne_zero fun hzero => ?_
    rw [Queue.occupied, List.countP_eq_zero] at hzero
    refine hzero _ (List.mem_ofFn.mpr ⟨i, rfl⟩) ?_
    rw [Bool.and_true]
    exact hi
  cases act with
  | beginScanCacheCapture =>
    simp only [State.begins, Bool.and_eq_true, Bool.not_eq_true'] at hbegins
    simp only [step, hbegins.1, hbegins.2, and_self, if_true] at hs
    split at hs
    · exact Option.some.inj hs ▸ hcrowded
    · cases hs
  | startScan =>
    simp only [State.begins, Bool.not_eq_true'] at hbegins
    simp only [step, hbegins, Bool.false_eq_true, if_false] at hs
    split at hs
    · exact Option.some.inj hs ▸ ⟨hcrowded.ready, rfl, rfl, hcrowded.occupied⟩
    · cases hs
  | _ => cases hbegins

/-- The next result takes one more slot, unless none is left. -/
theorem Crowded.result {n : Nat} (h : Crowded n s) (hn : n < maxScanResults) :
    Crowded (n + 1) (s.enqueueScanResult ScanMeta.zero []).1 := by
  obtain ⟨e, he⟩ : ∃ e : (QueueKind.layout sys .scan).Event, e = ScanEvent.result ScanMeta.zero [] :=
    ⟨_, rfl⟩
  have hacc : (QueueKind.layout sys .scan).accepts e = true := by
    rw [he]
    simp [QueueKind.layout, scanEventQueue, ScanEvent.result, ScanMeta.zero]
  have hcall : s.enqueueScanResult ScanMeta.zero [] =
      { s with acceptedResults := s.acceptedResults + 1 }.enqueue .scan e := by
    have hacc' : (scanEventQueue sys).accepts (.result ScanMeta.zero []) = true := he ▸ hacc
    rw [State.enqueueScanResult, h.ready, h.active, hacc', h.counted, he]
    exact if_pos hn
  have hqueue : ((s.enqueueScanResult ScanMeta.zero []).1.lanes .scan).queue =
      ((s.lanes .scan).queue.enqueue e).1 := by
    rw [hcall]
    exact congrArg Lane.queue (State.setLane_self ..)
  have hoccupied := h.occupied
  rw [total_eq] at hoccupied
  refine ⟨?_, ?_, ?_, ?_⟩
  · rw [hcall]
    exact h.ready
  · rw [hcall]
    exact h.active
  · rw [hcall, ← h.counted]
    rfl
  · rw [total_eq, hqueue, Queue.occupied_enqueue]
    rcases (s.lanes .scan).queue.enqueue_cases e with ⟨hno, -⟩ | ⟨-, hfull, hq⟩ | ⟨i, -, -, hq⟩
    · exact absurd (hacc.symm.trans hno) (by decide)
    · have hnone : ¬ (s.lanes .scan).queue.occupied (fun _ => true) < maxScanResults + 1 := by
        intro hlt
        obtain ⟨i, hi⟩ := (Queue.free_iff_occupied_lt _).mpr hlt
        exact hfull i hi
      rw [hq]
      simp only [Bool.false_and, Bool.false_eq_true, if_false]
      omega
    · rw [hq]
      simp only [Bool.true_and, if_true]
      omega

/-- The results that a crowded scan still counts fill the queue. -/
theorem Crowded.fill {n k : Nat} (h : Crowded n s) (hk : n + k = maxScanResults) :
    ∃ u, Steps step Always s (List.replicate k (.enqueueScanResult ScanMeta.zero [])) u ∧
      Crowded maxScanResults u := by
  induction k generalizing n s with
  | zero => exact ⟨s, .nil, hk ▸ h⟩
  | succ k ih =>
    obtain ⟨u, hrun, hu⟩ := ih (h.result (by omega)) (by omega)
    exact ⟨u, .cons trivial rfl hrun, hu⟩

/-- **Scan-done is kept when every scan begins on an empty queue**, and only
then for certain: after a transaction that begins on a queue in use, 32 results
leave no slot for its scan-done. -/
theorem scan_done_kept (sys : RadioSys) :
    (∀ {as : List Action} {s : State sys}, Steps step BeginsEmpty (init sys) as s → ScanDoneKept s) ∧
      ∀ {s t : State sys} {act : Action}, s.portReady = true → s.begins act = true →
        ¬ BeginsEmpty s act → step s act = some t →
          ∃ u, Steps step Always t (List.replicate maxScanResults (.enqueueScanResult ScanMeta.zero [])) u ∧
            ¬ ScanDoneKept u := by
  constructor
  · intro as s hrun
    have hreserved : Reserved True s := reserved_run hrun fun _ _ _ hok => hok
    refine scanDoneKept_iff_count.mpr fun _ hactive => ?_
    rw [hreserved.leftover trivial, Nat.zero_add]
    exact (hreserved.counted hactive).trans hreserved.capped
  · intro s t act hready hbegins hpending hs
    have hbusy : (s.lanes .scan).queue.hasPending = true := by
      rw [BeginsEmpty, Classical.not_imp, Bool.not_eq_false] at hpending
      exact hpending.2
    obtain ⟨u, hrun, hu⟩ := (crowded_begin hready hbegins hbusy hs).fill (Nat.zero_add _)
    refine ⟨u, hrun, fun hkept => ?_⟩
    exact absurd (scanDoneKept_iff_count.mp hkept hu.ready hu.active) (Nat.not_le.mpr hu.occupied)

/-- A full scan, the results of which nobody takes, and the beginning of the next. -/
def crowdedRun : List Action :=
  .beginScanCacheCapture :: List.replicate 32 (.enqueueScanResult ScanMeta.zero []) ++
    [.enqueueScanDone 0, .beginScanCacheCapture]

/-- A full scan that is taken from the queue, and a second full scan. -/
def drainedRun : List Action :=
  .beginScanCacheCapture :: List.replicate 32 (.enqueueScanResult ScanMeta.zero []) ++
    .enqueueScanDone 0 :: .cancelScanCacheCapture :: List.replicate 34 (.advance 0) ++
    .beginScanCacheCapture :: List.replicate 32 (.enqueueScanResult ScanMeta.zero [])

/-- Thirty-two results of the second scan are queued, and its scan-done is kept. -/
theorem scan_done_kept_twoScans :
    ∃ s : State ⟨2304, 1⟩, Steps step BeginsEmpty (init _) drainedRun s ∧
      s.portReady = true ∧ s.nativeScanActive = true ∧ s.own = 32 ∧ ScanDoneKept s := by
  have hrun : (run (guarded step BeginsEmpty) (init ⟨2304, 1⟩) drainedRun).map
      (fun s => (s.portReady, s.nativeScanActive, s.own)) = some (true, true, 32) := by decide +kernel
  obtain ⟨s, hs, hlast⟩ := Option.map_eq_some_iff.mp hrun
  obtain ⟨hready, hlast⟩ := Prod.mk.inj hlast
  obtain ⟨hactive, hown⟩ := Prod.mk.inj hlast
  have hsteps := Steps.of_run_guarded hs
  exact ⟨s, hsteps, hready, hactive, hown, (scan_done_kept ⟨2304, 1⟩).1 hsteps⟩

/-- With 33 leftovers there is no slot for scan-done. -/
theorem scan_done_dropped :
    ¬ ∀ (sys : RadioSys) (s : State sys), Reachable step (init sys) s → ScanDoneKept s := by
  intro h
  have hrun : (run step (init ⟨2304, 1⟩) crowdedRun).map
      (fun s => (s.portReady, s.nativeScanActive, (s.enqueueScanDone 0).2)) =
      some (true, true, false) := by decide +kernel
  obtain ⟨s, hs, hlast⟩ := Option.map_eq_some_iff.mp hrun
  obtain ⟨hready, hlast⟩ := Prod.mk.inj hlast
  obtain ⟨hactive, hfalse⟩ := Prod.mk.inj hlast
  have hok := (h ⟨2304, 1⟩ s ⟨_, Steps.of_run hs⟩ hready hactive 0).1
  rw [hfalse] at hok
  cases hok

end Poll

end HisiRiscv.Supplicant
