/-
HisiRiscv.Supplicant.Delivery — every accepted event is fed, discarded or
still queued.

`poll` frees the slot of an event on every way out of its receive loops,
so an event is consumed by the iteration that takes it. That iteration
feeds it, except in one place: a disconnect event that asks for the stale
station to be cleared is dropped when the clearing ioctl fails. The other
early return, on an event of unknown kind, is never taken, because no
callback queues such an event.

  §1 The property and the condition.
  §2 The invariant.
  §3 Main results.
-/
import HisiRiscv.Supplicant.Poll

namespace HisiRiscv.Supplicant.Poll

open HisiRiscv.Machine
open scoped List

variable {sys : RadioSys}

/-! ## §1 The property and the condition -/

/-- Each accepted event has been fed or discarded once, or is still in its
queue; between polls it is not under a guard either. -/
structure Delivered (s : State sys) : Prop where
  accounted : ∀ k, (s.lanes k).accepted ~
    (s.lanes k).fed ++ (s.lanes k).discarded ++ (s.lanes k).held ++ (s.lanes k).queue.stored
  distinct : ∀ k, ((s.lanes k).accepted.map Prod.fst).Nodup
  unguarded : s.pc = .idle → ∀ k, (s.lanes k).held = []

def Pc.clears : Pc → Bool
  | .clear _ _ => true
  | _ => false

/-- The clearing of a stale station succeeds. -/
def StaleStateCleared (s : State sys) : Action → Prop
  | .advance status => s.pc.clears = true → status = 0
  | _ => True

instance (s : State sys) : (act : Action) → Decidable (StaleStateCleared s act)
  | .advance status => inferInstanceAs (Decidable (s.pc.clears = true → status = 0))
  | .enqueueMgmtRx _ _ _ | .enqueueExternalAuth _ _ _ _ _ _ | .enqueueScanResult _ _
  | .enqueueScanDone _ | .enqueueAssociateResult _ _ _ _ _ | .enqueueDisconnect _ _ | .eapolNotify
  | .poll _ | .beginScanCacheCapture | .cancelScanCacheCapture | .startScan | .scanIoctlReturns _
  | .receive _ _ _ | .hostapReturns _ | .setPort _ => inferInstanceAs (Decidable True)

/-! ## §2 The invariant -/

/-- The queue whose guard is alive at a program point. -/
def Pc.guards : Pc → QueueKind → Bool
  | .feed k _ _, k' => k == k'
  | .clear _ _, k' => k' == .link
  | .idle, _ | .overflow _ _, _ | .take _ _ _, _ | .swap _ _, _ | .receive _ _, _
  | .feedEapol _ _, _ | .hostap _ _, _ | .discard, _ => false

/-- The invariant; `clean` says that every clearing so far has succeeded. -/
structure Inv (clean : Prop) (lanes : (k : QueueKind) → Lane (k.layout sys)) (pc : Pc) : Prop where
  lane : ∀ k, (lanes k).Inv
  guard : ∀ k, (lanes k).guard.isSome = pc.guards k
  /-- every accepted event is of a kind its receive loop knows -/
  routable : ∀ k, ∀ x ∈ (lanes k).accepted, State.route k x.2 ≠ .invalid
  lost : clean → ∀ k, (lanes k).lost = []

section Steps

variable {clean : Prop} {lanes : (k : QueueKind) → Lane (k.layout sys)} {pc pc' : Pc}

/-- One lane changes and the program counter with it. -/
theorem Inv.update (h : Inv clean lanes pc) (k : QueueKind) {lane : Lane (k.layout sys)}
    (hinv : lane.Inv) (hguard : lane.guard.isSome = pc'.guards k)
    (hothers : ∀ k', k' ≠ k → pc'.guards k' = pc.guards k')
    (hroute : ∀ x ∈ lane.accepted, State.route k x.2 ≠ .invalid)
    (hlost : clean → lane.lost = []) :
    Inv clean (Function.update lanes k lane) pc' := by
  have hcases : ∀ (P : (k' : QueueKind) → Lane (k'.layout sys) → Prop), P k lane →
      (∀ k', k' ≠ k → P k' (lanes k')) → ∀ k', P k' (Function.update lanes k lane k') := by
    intro P hk hne k'
    by_cases hkk : k' = k
    · subst hkk
      rw [Function.update_self]
      exact hk
    · rw [Function.update_of_ne hkk]
      exact hne k' hkk
  refine ⟨hcases (fun _ l => l.Inv) hinv fun k' _ => h.lane k',
    hcases (fun k' l => l.guard.isSome = pc'.guards k') hguard fun k' hk' => ?_,
    hcases (fun k' l => ∀ x ∈ l.accepted, State.route k' x.2 ≠ .invalid) hroute fun k' _ => h.routable k',
    fun hclean => hcases (fun _ l => l.lost = []) (hlost hclean) fun k' _ => h.lost hclean k'⟩
  rw [hothers k' hk']
  exact h.guard k'

/-- The program counter changes between points that hold the same guards. -/
theorem Inv.goto (h : Inv clean lanes pc) (hguards : ∀ k, pc'.guards k = pc.guards k) : Inv clean lanes pc' :=
  ⟨h.lane, fun k => by rw [hguards k]; exact h.guard k, h.routable, h.lost⟩

theorem Inv.guard_none (h : Inv clean lanes pc) {k : QueueKind} (hk : pc.guards k = false) :
    (lanes k).guard = none := by
  rw [← Option.isNone_iff_eq_none, ← Option.not_isSome, h.guard k, hk]
  rfl

theorem Inv.enqueue (h : Inv clean lanes pc) (k : QueueKind) (e : (k.layout sys).Event)
    (hroute : (k.layout sys).accepts e = true → State.route k e ≠ .invalid) :
    Inv clean (Function.update lanes k ((lanes k).enqueue e).1) pc := by
  have hok : ((lanes k).enqueue e).2 = true → (k.layout sys).accepts e = true := by
    intro hok
    rcases (lanes k).queue.enqueue_cases e with ⟨-, hq⟩ | ⟨-, -, hq⟩ | ⟨_, hacc, -, -⟩
    · simp [Lane.enqueue, hq] at hok
    · simp [Lane.enqueue, hq] at hok
    · exact hacc
  refine h.update k ((h.lane k).enqueue e) (h.guard k) (fun _ _ => rfl) (fun x hx => ?_)
    (h.lost · k)
  change x ∈ (if ((lanes k).queue.enqueue e).2 then
    (lanes k).accepted ++ [((lanes k).queue.nextSequence, e)] else (lanes k).accepted) at hx
  split at hx
  · rename_i hq
    rcases List.mem_append.mp hx with hx | hx
    · exact h.routable k x hx
    · rw [List.mem_singleton.mp hx]
      exact hroute (hok hq)
  · exact h.routable k x hx

/-- The runner takes an event: it is under the guard, of a known kind. -/
theorem Inv.take (h : Inv clean lanes pc) (k : QueueKind) {lane : Lane (k.layout sys)}
    (hk : pc.guards k = false) (ht : (lanes k).takeOldest = some lane) (hpc : pc'.guards k = true)
    (hothers : ∀ k', k' ≠ k → pc'.guards k' = pc.guards k') :
    Inv clean (Function.update lanes k lane) pc' := by
  have hinv := (h.lane k).takeOldest (h.guard_none hk) ht
  obtain ⟨i, -, rfl⟩ := Option.map_eq_some_iff.mp ht
  exact h.update k hinv hpc.symm hothers (h.routable k) (h.lost · k)

/-- The guard of an event that is fed or discarded is dropped. -/
theorem Inv.drop (h : Inv clean lanes pc) (k : QueueKind) {fate : Fate} (hfate : clean → fate ≠ .lost)
    (hpc : pc'.guards k = false) (hothers : ∀ k', k' ≠ k → pc'.guards k' = pc.guards k') :
    Inv clean (Function.update lanes k ((lanes k).dropGuard fate)) pc' := by
  have hinv := (h.lane k).dropGuard fate
  have hsame : ((lanes k).dropGuard fate).guard = none ∧
      ((lanes k).dropGuard fate).accepted = (lanes k).accepted ∧
      (clean → ((lanes k).dropGuard fate).lost = []) := by
    rw [Lane.dropGuard]
    cases hg : (lanes k).guard with
    | none => exact ⟨hg, rfl, (h.lost · k)⟩
    | some i =>
      cases fate with
      | fed => exact ⟨rfl, rfl, (h.lost · k)⟩
      | discarded => exact ⟨rfl, rfl, (h.lost · k)⟩
      | lost => exact ⟨rfl, rfl, fun hclean => absurd rfl (hfate hclean)⟩
  refine h.update k hinv (by rw [hsame.1, hpc]; rfl) hothers ?_ hsame.2.2
  rw [hsame.2.1]
  exact h.routable k

end Steps

section Run

variable {clean : Prop} {s t : State sys}

theorem event?_setLane (k : QueueKind) (lane : Lane (k.layout sys)) :
    (s.setLane k lane).event? k = lane.guard.map fun i => lane.queue.payload i := by
  rw [State.event?, State.setLane_self]

/-- Only link events ask for the stale station to be cleared. -/
theorem route_clear {k : QueueKind} {e : (k.layout sys).Event} (h : State.route k e = .clear) :
    k = .link := by
  cases k with
  | link => rfl
  | scan =>
    simp only [State.route] at h
    split at h <;> cases h
  | mgmt | externalAuth => cases h

theorem inv_take (h : Inv clean s.lanes s.pc) {k : QueueKind} {rxGrant budget : Nat}
    (hpc : s.pc = .take k rxGrant budget) :
    Inv clean (s.stepTake k rxGrant budget).lanes (s.stepTake k rxGrant budget).pc := by
  have hguards : ∀ k', s.pc.guards k' = false := fun k' => by rw [hpc]; rfl
  have hafter : ∀ k', (State.afterLoop k rxGrant budget).guards k' = s.pc.guards k' := by
    intro k'
    rw [hguards k']
    cases k <;> rfl
  rw [State.stepTake]
  split
  · exact h.goto hafter
  · cases ht : (s.lanes k).takeOldest with
    | none => exact h.goto hafter
    | some lane =>
      obtain ⟨i, -, hlane⟩ := Option.map_eq_some_iff.mp ht
      have hg : lane.guard = some i := by rw [← hlane]
      have hmem := ((h.lane k).takeOldest (h.guard_none (hguards k)) ht).held_mem hg
      have haccepted : lane.accepted = (s.lanes k).accepted := by rw [← hlane]
      rw [haccepted] at hmem
      have hknown := h.routable k _ hmem
      simp only [event?_setLane, hg, Option.map_some]
      have hfeed : ∀ k', k' ≠ k → (Pc.feed k rxGrant budget).guards k' = s.pc.guards k' := by
        intro k' hne
        rw [hguards k']
        exact beq_false_of_ne (Ne.symm hne)
      cases hroute : State.route k (lane.queue.payload i) with
      | invalid => exact absurd hroute hknown
      | feed => exact h.take k (hguards k) ht (by simp [Pc.guards]) hfeed
      | clear =>
        obtain rfl := route_clear hroute
        refine h.take .link (hguards _) ht rfl fun k' hne => ?_
        rw [hguards k']
        exact beq_false_of_ne hne

/-- A step of the runner. -/
theorem inv_advance (h : Inv clean s.lanes s.pc) {status : Int32}
    (hok : clean → s.pc.clears = true → status = 0)
    (hs : s.advance status = some t) : Inv clean t.lanes t.pc := by
  cases hpc : s.pc with
  | idle | receive | hostap =>
    simp only [State.advance, hpc] at hs
    cases hs
  | overflow k rxGrant =>
    simp only [State.advance, hpc] at hs
    split at hs
    · rename_i delta lane hover
      cases hs
      obtain ⟨rfl, rfl⟩ : delta = (s.lanes k).queue.dropped - (s.lanes k).droppedSeen ∧
          lane = { s.lanes k with droppedSeen := (s.lanes k).queue.dropped } := by
        rw [Lane.overflow] at hover
        split at hover
        · cases hover
        · cases hover
          exact ⟨rfl, rfl⟩
      have hl := h.lane k
      refine h.update k ⟨hl.no_writing, hl.reading_iff, hl.balanced, hl.increasing, hl.below,
        hl.checked⟩ ?_ (fun k' _ => by rw [hpc]; rfl) (h.routable k) (h.lost · k)
      rw [h.guard k, hpc]
      rfl
    · cases hs
      refine h.goto fun k' => ?_
      rw [hpc]
      cases k <;> rfl
  | take k rxGrant budget =>
    simp only [State.advance, hpc] at hs
    cases hs
    exact inv_take h hpc
  | clear rxGrant budget =>
    simp only [State.advance, hpc] at hs
    split at hs
    · rename_i hstatus
      cases hs
      refine h.drop .link (fun hclean => absurd (hok hclean (by rw [hpc]; rfl)) hstatus) rfl
        fun k' hne => ?_
      rw [hpc]
      exact (beq_false_of_ne hne).symm
    · cases hs
      refine h.goto fun k' => ?_
      rw [hpc]
      cases k' <;> rfl
  | feed k rxGrant budget =>
    simp only [State.advance, hpc] at hs
    cases hs
    have hothers : ∀ k', k' ≠ k → false = s.pc.guards k' := fun k' hne => by
      rw [hpc]
      exact (beq_false_of_ne (Ne.symm hne)).symm
    rw [State.stepFeed]
    split
    · exact h.drop k (by simp) rfl hothers
    · exact h.drop k (by simp) rfl hothers
  | swap rxGrant budget =>
    simp only [State.advance, hpc] at hs
    cases hs
    have hsame : ∀ k, s.pc.guards k = false := fun k => by rw [hpc]; rfl
    rw [State.stepSwap]
    split
    · exact h.goto fun k => (hsame k).symm
    · exact h.goto fun k => (hsame k).symm
  | feedEapol rxGrant budget =>
    simp only [State.advance, hpc] at hs
    cases hs
    have hsame : ∀ k, s.pc.guards k = false := fun k => by rw [hpc]; rfl
    rw [State.stepFeedEapol]
    split
    · exact h.goto fun k => (hsame k).symm
    · split
      · exact h.goto fun k => (hsame k).symm
      · exact h.goto fun k => (hsame k).symm
  | discard =>
    have hsame : ∀ k, s.pc.guards k = false := fun k => by rw [hpc]; rfl
    simp only [State.advance, hpc] at hs
    split at hs
    · rename_i lane ht
      cases hs
      have htaken : Inv clean (s.setLane .scan lane).lanes (.feed .scan 0 0) :=
        h.take .scan (hsame _) ht rfl fun k hne => by
          rw [hsame k]
          exact beq_false_of_ne (Ne.symm hne)
      refine htaken.drop .scan (by simp) (hsame _) fun k hne => ?_
      exact (hsame k).trans (beq_false_of_ne (Ne.symm hne)).symm
    · cases hs
      exact h.goto fun k => (hsame k).symm

theorem inv_enqueue (h : Inv clean s.lanes s.pc) (k : QueueKind) (e : (k.layout sys).Event)
    (hroute : (k.layout sys).accepts e = true → State.route k e ≠ .invalid) :
    Inv clean (s.enqueue k e).1.lanes (s.enqueue k e).1.pc :=
  h.enqueue k e hroute

theorem route_scan {e : ScanEvent} (h : (scanEventQueue sys).accepts e = true) :
    @State.route sys .scan e ≠ .invalid := by
  simp only [scanEventQueue, Bool.and_eq_true, Bool.or_eq_true, beq_iff_eq] at h
  simp only [State.route, if_pos h.1.1]
  intro heq
  cases heq

theorem inv_step {act : Action} (h : Inv clean s.lanes s.pc) (hok : clean → StaleStateCleared s act)
    (hs : step s act = some t) : Inv clean t.lanes t.pc := by
  cases step_cases hs with
  | refuse | resultTruncated | notify | beginCapture | startScan | ioctlReturn | setPort => exact h
  | announce e _ _ hroute => exact inv_enqueue h _ e fun _ => hroute
  | resultRefused => exact inv_enqueue h .scan _ route_scan
  | resultQueued =>
    exact inv_enqueue (s := { s with acceptedResults := s.acceptedResults + 1 }) h .scan _ route_scan
  | scanDone => exact inv_enqueue (s := { s with nativeScanActive := false }) h .scan _ route_scan
  | poll hpc | cancelCapture hpc => exact h.goto fun k => by rw [hpc]; rfl
  | advance hs => exact inv_advance h hok hs
  | receive hpc =>
    have hsame : ∀ k, s.pc.guards k = false := fun k => by rw [hpc]; rfl
    rw [State.stepReceive]
    split
    · exact h.goto fun k => (hsame k).symm
    · exact h.goto fun k => (hsame k).symm
    · split
      · exact h.goto fun k => (hsame k).symm
      · exact h.goto fun k => (hsame k).symm
  | hostapReturn hpc => exact h.goto fun k => by rw [hpc]; rfl

theorem inv_init : Inv clean (init sys).lanes (init sys).pc where
  lane _ := Lane.inv_new _
  guard := fun _ => rfl
  routable := fun _ _ hx => nomatch hx
  lost := fun _ _ => rfl

end Run

/-! ## §3 Main results -/

theorem Inv.delivered {s : State sys} (h : Inv True s.lanes s.pc) : Delivered s where
  accounted k := by
    have hbalanced := (h.lane k).balanced
    rwa [Lane.accounted, h.lost trivial k, List.append_nil] at hbalanced
  distinct k := (h.lane k).increasing.imp Nat.ne_of_lt
  unguarded hidle _ := by
    rw [Lane.held, h.guard_none (by rw [hidle]; rfl)]

/-- **Every event is delivered.** In every run of callbacks and runner in which
each clearing of a stale station succeeds, whatever else hostap, the driver and
the ioctls answer, every accepted event is fed once, or discarded by a cancel,
or still queued. -/
theorem events_delivered (sys : RadioSys) {as : List Action} {s : State sys}
    (h : Steps step StaleStateCleared (init sys) as s) : Delivered s :=
  (h.invariant (I := fun s => Inv True s.lanes s.pc) inv_init
    fun _ _ _ hI hok hs => inv_step hI (fun _ => hok) hs).delivered

/-- A result of status 8030 and the poll that takes it, up to the clearing ioctl. -/
def staleRun : List Action :=
  [.enqueueAssociateResult 8030 2412 (Vector.replicate 6 1) [] [], .poll 8] ++
    List.replicate 6 (.advance 0)

theorem events_delivered_sample :
    ∃ s : State ⟨2304, 1⟩, (s.lanes .link).fed.length = 1 ∧ Delivered s := by
  have hrun : (run (guarded step StaleStateCleared) (init ⟨2304, 1⟩)
      (staleRun ++ [.advance 0, .advance 1])).map (fun s => (s.lanes .link).fed.length) = some 1 := by
    decide +kernel
  obtain ⟨s, hs, hlen⟩ := Option.map_eq_some_iff.mp hrun
  exact ⟨s, hlen, events_delivered ⟨2304, 1⟩ (Steps.of_run_guarded hs)⟩

/-- When the clearing fails the event is gone. -/
theorem events_lost :
    ¬ ∀ (sys : RadioSys) (s : State sys), Reachable step (init sys) s → Delivered s := by
  intro h
  have hrun : (run step (init ⟨2304, 1⟩) (staleRun ++ [.advance (-1)])).map
      (fun s => ((s.lanes .link).accepted.length, ((s.lanes .link).fed ++ (s.lanes .link).discarded ++
        (s.lanes .link).held ++ (s.lanes .link).queue.stored).length)) = some (1, 0) := by
    decide +kernel
  obtain ⟨s, hs, hlen⟩ := Option.map_eq_some_iff.mp hrun
  obtain ⟨haccepted, hrest⟩ := Prod.mk.inj hlen
  have hperm := (h ⟨2304, 1⟩ s ⟨_, Steps.of_run hs⟩).accounted .link
  rw [hperm.length_eq, hrest] at haccepted
  cases haccepted

end HisiRiscv.Supplicant.Poll
