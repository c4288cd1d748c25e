/-
HisiRiscv.Supplicant.Drain — polls hand the scan queue to hostap in order.

While no callback adds to the scan queue, the events fed since some
earlier moment and the events still in the lane make up one fixed list:
`Draining`. A step of the runner either keeps this or makes the poll
return an error; and nothing is fed before the overflow check of the
queue has passed.

  §1 The lane.
  §2 The runner.
  §3 Whole polls.
-/
import HisiRiscv.Supplicant.Delivery
import HisiRiscv.Supplicant.Fifo

namespace HisiRiscv.Supplicant

/-! ## §1 The lane -/

/-- Of the events `expected`, some have been fed since the lane was `start`,
the others are in the lane; `drops` is the drop count. -/
structure Lane.Draining {L : Layout} (start : Lane L) (drops : UInt32) (expected : List L.Event)
    (lane : Lane L) (checked guarded : Bool) : Prop where
  order : ∃ fed pending, lane.fed = start.fed ++ fed ∧ lane.Fifo pending ∧
    (fed ++ pending).map Prod.snd = expected ∧ (fed ≠ [] → drops = start.droppedSeen)
  dropped : lane.queue.dropped = drops
  seen : lane.droppedSeen = start.droppedSeen
  /-- the overflow check has passed -/
  checked : checked = true → drops = start.droppedSeen
  guard : lane.guard.isSome = guarded

namespace Lane.Draining

variable {L : Layout} {start lane lane' : Lane L} {drops : UInt32} {expected : List L.Event}
  {checked guarded : Bool}

theorem unguarded (h : Draining start drops expected lane checked false) : lane.guard = none :=
  Option.isSome_eq_false_iff.mp h.guard |> Option.isNone_iff_eq_none.mp

/-- The overflow check passes. -/
theorem check (h : Draining start drops expected lane checked guarded)
    (hpass : lane.overflow = none) : Draining start drops expected lane true guarded := by
  refine { h with checked := fun _ => ?_ }
  unfold Lane.overflow at hpass
  split at hpass
  · rename_i heq
    rw [← h.dropped, heq, h.seen]
  · cases hpass

/-- A later overflow check starts anew. -/
theorem recheck (h : Draining start drops expected lane checked guarded) :
    Draining start drops expected lane false guarded :=
  { h with checked := nofun }

theorem take (h : Draining start drops expected lane checked false)
    (ht : lane.takeOldest = some lane') : Draining start drops expected lane' checked true := by
  obtain ⟨fed, pending, hfed, hfifo, hexpected, hchecked⟩ := h.order
  obtain ⟨hfifo', -, -, -, -⟩ := hfifo.takeOldest h.unguarded ht
  obtain ⟨i, -, rfl⟩ := Option.map_eq_some_iff.mp ht
  exact ⟨⟨fed, pending, hfed, hfifo', hexpected, hchecked⟩, h.dropped, h.seen, h.checked, rfl⟩

theorem feed (h : Draining start drops expected lane true true) :
    Draining start drops expected (lane.dropGuard .fed) true false := by
  obtain ⟨fed, pending, hfed, hfifo, hexpected, -⟩ := h.order
  have hsome := h.guard
  obtain ⟨i, hi⟩ := Option.isSome_iff_exists.mp hsome
  obtain ⟨rest, hpending, -⟩ := hfifo.order
  rw [held, hi, List.singleton_append] at hpending
  subst hpending
  obtain ⟨-, hfifo', hfed', hguard'⟩ := hfifo.dropGuard hsome
  refine ⟨⟨fed ++ [((lane.queue.slots i).ticket, lane.queue.payload i)], rest, ?_, hfifo', ?_,
    fun _ => h.checked rfl⟩, ?_, ?_, h.checked, ?_⟩
  · rw [hfed', hfed, List.append_assoc]
  · rw [← hexpected, List.append_assoc]
    rfl
  · rw [← h.dropped, Lane.dropGuard, hi]
    rfl
  · rw [← h.seen, Lane.dropGuard, hi]
  · rw [hguard']
    rfl

/-- When every slot is FREE, all events have been fed. -/
theorem all_fed (h : Draining start drops expected lane checked guarded) (hne : expected ≠ [])
    (hfree : ∀ i, (lane.queue.slots i).state = .free) :
    ∃ fed, lane.fed = start.fed ++ fed ∧ fed.map Prod.snd = expected ∧ lane.held = [] ∧
      lane.queue.stored = [] ∧ drops = start.droppedSeen := by
  obtain ⟨fed, pending, hfed, hfifo, hexpected, hchecked⟩ := h.order
  have hnil := hfifo.eq_nil hfree
  subst hnil
  rw [List.append_nil] at hexpected
  obtain ⟨rest, hrest, hperm⟩ := hfifo.order
  obtain ⟨hheld, rfl⟩ := List.append_eq_nil_iff.mp hrest.symm
  refine ⟨fed, hfed, hexpected, hheld, List.perm_nil.mp hperm, hchecked fun hnil => hne ?_⟩
  rw [← hexpected, hnil]
  rfl

end Lane.Draining

/-! ## §2 The runner -/

namespace Poll

variable {sys : RadioSys} {s t : State sys}

/-- The overflow check of the scan queue is behind this point of a poll. -/
def Pc.checked : Pc → Bool
  | .idle | .discard | .overflow .mgmt _ | .overflow .scan _ => false
  | .overflow .link _ | .overflow .externalAuth _ | .take _ _ _ | .clear _ _ | .feed _ _ _
  | .swap _ _ | .receive _ _ | .feedEapol _ _ | .hostap _ _ => true

variable (start : Lane (QueueKind.layout sys .scan)) (drops : UInt32)
  (expected : List (QueueKind.layout sys .scan).Event)

/-- The scan queue is being drained, by a poll that has not failed. -/
structure Drains (s : State sys) : Prop where
  lane : Lane.Draining start drops expected (s.lanes .scan) s.pc.checked (s.pc.guards .scan)
  pc : s.pc ≠ .discard

/-- A poll has returned an error. -/
def Failed (s : State sys) : Prop := s.pc = .idle ∧ ∃ e, s.returned = some (.error e)

variable {start drops expected}

/-- A step that leaves the scan queue alone. -/
theorem Drains.frame (h : Drains start drops expected s) (hlane : t.lanes .scan = s.lanes .scan)
    (hchecked : t.pc.checked = s.pc.checked) (hguards : t.pc.guards .scan = s.pc.guards .scan)
    (hpc : t.pc ≠ .discard) : Drains start drops expected t := by
  refine ⟨?_, hpc⟩
  rw [hlane, hchecked, hguards]
  exact h.lane

theorem drains_take (h : Drains start drops expected s) {k : QueueKind} {rxGrant budget : Nat}
    (hpc : s.pc = .take k rxGrant budget) :
    Failed (s.stepTake k rxGrant budget) ∨
      Drains start drops expected (s.stepTake k rxGrant budget) := by
  have hafter : Drains start drops expected
      { s with pc := State.afterLoop k rxGrant budget } := by
    refine h.frame rfl ?_ ?_ ?_
    · rw [hpc]
      cases k <;> rfl
    · rw [hpc]
      cases k <;> rfl
    · cases k <;> nofun
  unfold State.stepTake
  split
  · exact .inr hafter
  · cases ht : (s.lanes k).takeOldest with
    | none => exact .inr hafter
    | some lane =>
      dsimp only
      by_cases hk : k = .scan
      · subst hk
        have hlane := h.lane
        rw [hpc] at hlane
        have htaken := hlane.take ht
        split
        · rename_i hroute
          obtain ⟨e, -, hclear⟩ := Option.map_eq_some_iff.mp hroute
          cases route_clear hclear
        · exact .inl ⟨rfl, _, rfl⟩
        · refine .inr ⟨?_, nofun⟩
          rw [State.setLane_self]
          exact htaken
      · have hother : (s.setLane k lane).lanes .scan = s.lanes .scan :=
          State.setLane_ne s lane (Ne.symm hk)
        split
        · refine .inr (h.frame hother ?_ ?_ nofun)
          · rw [hpc]
            rfl
          · rw [hpc]
            rfl
        · exact .inl ⟨rfl, _, rfl⟩
        · refine .inr (h.frame hother ?_ ?_ nofun)
          · rw [hpc]
            rfl
          · rw [hpc]
            exact beq_false_of_ne hk

theorem drains_feed (h : Drains start drops expected s) {k : QueueKind} {rxGrant budget : Nat}
    {status : Int32} (hpc : s.pc = .feed k rxGrant budget) :
    Failed (s.stepFeed k rxGrant budget status) ∨
      Drains start drops expected (s.stepFeed k rxGrant budget status) := by
  unfold State.stepFeed
  split
  · exact .inl ⟨rfl, _, rfl⟩
  · refine .inr ?_
    by_cases hk : k = .scan
    · subst hk
      have hlane := h.lane
      rw [hpc] at hlane
      refine ⟨?_, nofun⟩
      simp only [State.dropGuard, State.setLane_self]
      exact hlane.feed
    · refine h.frame (State.setLane_ne s _ (Ne.symm hk)) ?_ ?_ nofun
      · rw [hpc]
        rfl
      · rw [hpc]
        exact (beq_false_of_ne hk).symm

/-- A step of the runner drains the queue or makes the poll fail. -/
theorem drains_advance (h : Drains start drops expected s) {status : Int32}
    (hs : s.advance status = some t) : Failed t ∨ Drains start drops expected t := by
  cases hpc : s.pc with
  | idle | receive | hostap =>
    simp only [State.advance, hpc] at hs
    cases hs
  | discard => exact absurd hpc h.pc
  | overflow k rxGrant =>
    simp only [State.advance, hpc] at hs
    split at hs
    · cases hs
      exact .inl ⟨rfl, _, rfl⟩
    · rename_i hpass
      cases hs
      have hlane := h.lane
      rw [hpc] at hlane
      refine .inr ?_
      cases k with
      | scan => exact ⟨hlane.check hpass, fun heq => by cases heq⟩
      | mgmt | link | externalAuth => exact ⟨hlane, fun heq => by cases heq⟩
  | take k rxGrant budget =>
    simp only [State.advance, hpc] at hs
    cases hs
    exact drains_take h hpc
  | clear rxGrant budget =>
    simp only [State.advance, hpc] at hs
    split at hs
    · cases hs
      exact .inl ⟨rfl, _, rfl⟩
    · cases hs
      exact .inr (h.frame rfl (by rw [hpc]; rfl) (by rw [hpc]; rfl) fun heq => by cases heq)
  | feed k rxGrant budget =>
    simp only [State.advance, hpc] at hs
    cases hs
    exact drains_feed h hpc
  | swap rxGrant budget =>
    simp only [State.advance, hpc] at hs
    cases hs
    unfold State.stepSwap
    dsimp only
    split
    · exact .inr (h.frame rfl (by rw [hpc]; rfl) (by rw [hpc]; rfl) fun heq => by cases heq)
    · exact .inr (h.frame rfl (by rw [hpc]; rfl) (by rw [hpc]; rfl) fun heq => by cases heq)
  | feedEapol rxGrant budget =>
    simp only [State.advance, hpc] at hs
    cases hs
    unfold State.stepFeedEapol
    split
    · exact .inl ⟨rfl, _, rfl⟩
    · split
      · exact .inr (h.frame rfl (by rw [hpc]; rfl) (by rw [hpc]; rfl) fun heq => by cases heq)
      · exact .inr (h.frame rfl (by rw [hpc]; rfl) (by rw [hpc]; rfl) fun heq => by cases heq)

theorem drains_receive (h : Drains start drops expected s) {rxGrant budget : Nat} {status : Int32}
    {length : UInt32} {frame : Vector UInt8 maxEapolRxFrameLen}
    (hpc : s.pc = .receive rxGrant budget) :
    Failed (s.stepReceive rxGrant budget status length frame) ∨
      Drains start drops expected (s.stepReceive rxGrant budget status length frame) := by
  unfold State.stepReceive
  split
  · exact .inl ⟨rfl, _, rfl⟩
  · exact .inr (h.frame rfl (by rw [hpc]; rfl) (by rw [hpc]; rfl) nofun)
  · split
    · exact .inr (h.frame rfl (by rw [hpc]; rfl) (by rw [hpc]; rfl) nofun)
    · exact .inl ⟨rfl, _, rfl⟩

/-! ## §3 Whole polls -/

/-- The callbacks that do not touch the scan queue. -/
def Action.foreign : Action → Bool
  | .enqueueMgmtRx _ _ _ | .enqueueExternalAuth _ _ _ _ _ _ | .enqueueAssociateResult _ _ _ _ _
  | .enqueueDisconnect _ _ | .eapolNotify => true
  | .enqueueScanResult _ _ | .enqueueScanDone _ | .poll _ | .beginScanCacheCapture
  | .cancelScanCacheCapture | .startScan | .scanIoctlReturns _ | .advance _ | .receive _ _ _
  | .hostapReturns _ | .setPort _ => false

/-- The steps of the runner within a poll. -/
def Action.runner : Action → Bool
  | .advance _ | .receive _ _ _ | .hostapReturns _ => true
  | .enqueueMgmtRx _ _ _ | .enqueueExternalAuth _ _ _ _ _ _ | .enqueueAssociateResult _ _ _ _ _
  | .enqueueDisconnect _ _ | .eapolNotify | .enqueueScanResult _ _ | .enqueueScanDone _ | .poll _
  | .beginScanCacheCapture | .cancelScanCacheCapture | .startScan | .scanIoctlReturns _
  | .setPort _ => false

theorem Action.polls_of_runner {act : Action} (h : act.runner = true) : act.polls = true := by
  cases act <;> first | rfl | cases h

/-- Nothing that concerns a scan has changed. -/
structure SameScan (s t : State sys) : Prop where
  lane : t.lanes .scan = s.lanes .scan
  pc : t.pc = s.pc
  returned : t.returned = s.returned
  portReady : t.portReady = s.portReady
  active : t.nativeScanActive = s.nativeScanActive
  acceptedResults : t.acceptedResults = s.acceptedResults

theorem SameScan.refl (s : State sys) : SameScan s s := ⟨rfl, rfl, rfl, rfl, rfl, rfl⟩

theorem sameScan_enqueue {k : QueueKind} (hk : k ≠ .scan) (e : (k.layout sys).Event) :
    SameScan s (s.enqueue k e).1 :=
  ⟨State.setLane_ne s _ (Ne.symm hk), rfl, rfl, rfl, rfl, rfl⟩

theorem sameScan_foreign {act : Action} (hact : act.foreign = true) (hs : step s act = some t) :
    SameScan s t := by
  cases step_cases hs with
  | refuse => exact .refl s
  | announce e _ hk => exact sameScan_enqueue hk e
  | notify => exact ⟨rfl, rfl, rfl, rfl, rfl, rfl⟩
  | resultRefused | resultQueued | resultTruncated | scanDone | poll | beginCapture | cancelCapture
  | startScan | ioctlReturn | advance | receive | hostapReturn | setPort => cases hact

theorem Drains.same (h : Drains start drops expected s) (hsame : SameScan s t) :
    Drains start drops expected t :=
  h.frame hsame.lane (by rw [hsame.pc]) (by rw [hsame.pc]) (by rw [hsame.pc]; exact h.pc)

theorem Failed.same (h : Failed s) (hsame : SameScan s t) : Failed t := by
  unfold Failed at h ⊢
  rw [hsame.pc, hsame.returned]
  exact h

/-- Between polls the runner does nothing. -/
theorem runner_idle {act : Action} (hact : act.runner = true) (hpc : s.pc = .idle) :
    step s act = none := by
  cases act with
  | advance status =>
    simp only [step, State.advance, hpc]
    split <;> rfl
  | receive status length frame => simp only [step, hpc]
  | hostapReturns result => simp only [step, hpc]
  | enqueueMgmtRx | enqueueExternalAuth | enqueueAssociateResult | enqueueDisconnect | eapolNotify
  | enqueueScanResult | enqueueScanDone | poll | beginScanCacheCapture | cancelScanCacheCapture
  | startScan | scanIoctlReturns | setPort => cases hact

/-- **A poll drains the scan queue in order**, or it fails. -/
theorem drains_runner (h : Drains start drops expected s) {act : Action}
    (hact : act.runner = true) (hs : step s act = some t) :
    Failed t ∨ Drains start drops expected t := by
  cases step_cases hs with
  | advance hs => exact drains_advance h hs
  | receive hpc => exact drains_receive h hpc
  | hostapReturn hpc =>
    have hlane := h.lane
    rw [hpc] at hlane
    split
    · exact .inr ⟨hlane.recheck, fun heq => by cases heq⟩
    · exact .inl ⟨rfl, _, rfl⟩
  | refuse hpolls | announce _ hpolls =>
    rw [Action.polls_of_runner hact] at hpolls
    cases hpolls
  | resultRefused | resultQueued | resultTruncated | scanDone | notify | poll | beginCapture
  | cancelCapture | startScan | ioctlReturn | setPort => cases hact

end Poll

end HisiRiscv.Supplicant
