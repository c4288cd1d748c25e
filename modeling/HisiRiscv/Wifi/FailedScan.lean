/-
HisiRiscv.Wifi.FailedScan — what a failed `Ws63WifiBackend::scan` leaves behind.

`begin_scan_cache_capture` sets `NATIVE_SCAN_ACTIVE`. Two ways out of the call go through
`cancel_scan_cache_capture`, which clears it and empties the scan queue; an error of
`finish_scan_cache_capture` is returned as it is, and the events that its polls have not taken
stay in the queue. A later poll feeds them to hostap (`not_no_trace`).

Translation notes. The supplicant is that of `Supplicant.Poll`, and `Wifi::scan` returns what
it likes, when it likes. A scan callback makes its checks in one step and puts its event into
the queue in another; while one is between the two, its slot may be WRITING, for which
`take_oldest` returns `None` and `has_pending` is true (`blocked`). The copy of the results, which
cannot fail, is that of `BackendScan`; `self.supplicant` is there, and stays. The calls of the
owner do not overlap.

History variables: `first` is the next number of the scan queue when the call began. A
`Failure` is a call that set `NATIVE_SCAN_ACTIVE` and returned an error while no scan callback was
in the middle of an enqueue.

  §1 State and steps.
  §2 The property and the condition.
  §3 Events that are gone.
  §4 The invariant.
  §5 Main results.
-/
import HisiRiscv.Supplicant.Flow
import HisiRiscv.Wifi.NativeScan

namespace HisiRiscv.Wifi.FailedScan

open HisiRiscv.Machine HisiRiscv.Supplicant
open NativeScan (BackendError)

/-! ## §1 State and steps -/

/-- The program counter of the backend. -/
inductive Pc where
  | outside
  /-- Before the match on `self.wifi`. -/
  | start (hasWifi : Bool)
  /-- In `Wifi::scan`. -/
  | scanning
  /-- Before and in `cancel_scan_cache_capture`. -/
  | cancel (e : BackendError)
  | discarding (e : BackendError)
  /-- In `finish_scan_cache_capture`: the check, the head of the loop, in `poll`. -/
  | finish
  | pending
  | polling
  deriving DecidableEq

structure Failure where
  error : BackendError
  /-- The next numbers of the scan queue when the call began and when it returned. -/
  first : ℕ
  next : ℕ
  /-- `NATIVE_SCAN_ACTIVE` when it returned. -/
  active : Bool
  /-- The number of events that had been fed. -/
  fed : ℕ

structure State (sys : RadioSys) where
  poll : Poll.State sys
  pc : Pc
  /-- The events of the scan callbacks that are past their checks. -/
  underway : List ScanEvent
  first : ℕ
  failures : List Failure

def init (sys : RadioSys) : State sys := ⟨Poll.init sys, .outside, [], 0, []⟩

inductive Action where
  /-- A callback of another queue, or a step of the supplicant. -/
  | supplicant (act : Poll.Action)
  /-- The checks of a scan callback. -/
  | scanResult (metadata : ScanMeta) (ies : List UInt8)
  | scanDone (status : Int32)
  /-- A scan callback puts its event into the queue. -/
  | store (k : ℕ)
  /-- The owner meets a slot that is being written. -/
  | blocked
  /-- A call of the backend begins. -/
  | scan (hasWifi : Bool)
  /-- `Wifi::scan` returns. -/
  | scanReturns (result : Except Error ℕ)
  /-- A step of the backend. -/
  | advance

variable {sys : RadioSys}

namespace State

def lane (s : State sys) : Lane (QueueKind.layout sys .scan) := s.poll.lanes .scan

/-- The steps of the supplicant at this point of the backend; `poll` is called between
the scans and by `finish_scan_cache_capture`, and hostap starts a scan from inside. -/
def allows (s : State sys) : Poll.Action → Bool
  | .enqueueMgmtRx _ _ _ | .enqueueExternalAuth _ _ _ _ _ _ | .enqueueAssociateResult _ _ _ _ _
  | .enqueueDisconnect _ _ | .eapolNotify | .scanIoctlReturns _ | .advance _ | .receive _ _ _
  | .hostapReturns _ | .setPort _ => true
  | .poll _ => s.pc == .outside
  | .startScan => s.pc == .outside || (s.pc == .polling && s.poll.pc != .idle)
  | .enqueueScanResult _ _ | .enqueueScanDone _ | .beginScanCacheCapture
  | .cancelScanCacheCapture => false

/-- `enqueue_scan_result`, up to the call of the queue. -/
def scanResult (s : State sys) (metadata : ScanMeta) (ies : List UInt8) : State sys :=
  if !s.poll.portReady || !s.poll.nativeScanActive then s
  else if !(scanEventQueue sys).accepts (.result metadata ies) then
    { s with underway := s.underway ++ [.result metadata ies] }
  else if s.poll.acceptedResults < maxScanResults then
    { s with
      poll := { s.poll with acceptedResults := s.poll.acceptedResults + 1 }
      underway := s.underway ++ [.result metadata ies] }
  else { s with poll := { s.poll with truncatedResults := s.poll.truncatedResults + 1 } }

/-- `enqueue_scan_done`, up to the call of the queue. -/
def scanDone (s : State sys) (status : Int32) : State sys :=
  if !s.poll.portReady || !s.poll.nativeScanActive then s
  else
    { s with
      poll := { s.poll with nativeScanActive := false }
      underway := s.underway ++ [.done status] }

/-- A callback ends: the queue has its event, or has counted it as dropped. -/
def store (s : State sys) (k : ℕ) (e : ScanEvent) : State sys :=
  { s with poll := (s.poll.enqueue .scan e).1, underway := s.underway.eraseIdx k }

def blocked (s : State sys) : Option (State sys) :=
  if s.underway.isEmpty then none
  else
    match s.pc, s.poll.pc with
    | .pending, _ => some { s with poll := s.poll.startPoll 64, pc := .polling }
    | _, .discard => some { s with poll := { s.poll with pc := .idle } }
    | _, .take .scan rxGrant budget =>
      some { s with poll := { s.poll with pc := Poll.State.afterLoop .scan rxGrant budget } }
    | _, _ => none

/-- `begin_scan_cache_capture` succeeds. -/
def begins (s : State sys) : Bool := s.poll.portReady && !s.poll.nativeScanActive

def scan (s : State sys) (hasWifi : Bool) : State sys :=
  if s.begins then
    { s with
      poll := s.poll.beginTransaction
      pc := .start hasWifi
      first := s.lane.queue.nextSequence }
  else s

/-- The call returns an error. -/
def fail (s : State sys) (e : BackendError) : State sys :=
  { s with
    pc := .outside
    failures :=
      if s.underway.isEmpty then
        s.failures ++
          [⟨e, s.first, s.lane.queue.nextSequence, s.poll.nativeScanActive, s.lane.fed.length⟩]
      else s.failures }

def advance (s : State sys) : Option (State sys) :=
  match s.pc with
  | .outside | .scanning => none
  | .start hasWifi => some { s with pc := if hasWifi then .scanning else .cancel .notInitialized }
  | .cancel e =>
    some { s with
      poll := { s.poll with nativeScanActive := false, pc := .discard }
      pc := .discarding e }
  | .discarding e => if s.poll.pc = .idle then some (s.fail e) else none
  | .finish =>
    if s.poll.nativeScanActive then some (s.fail (.native .invalidResult))
    else some { s with pc := .pending }
  | .pending =>
    if s.lane.queue.hasPending then some { s with poll := s.poll.startPoll 64, pc := .polling }
    else some { s with pc := .outside }
  | .polling =>
    if s.poll.pc = .idle then
      match s.poll.returned with
      | some (.ok _) => some { s with pc := .pending }
      | some (.error e) => some (s.fail (.native e))
      | none => none
    else none

end State

def step (s : State sys) : Action → Option (State sys)
  | .supplicant act =>
    if s.allows act then (Poll.step s.poll act).map fun poll => { s with poll } else none
  | .scanResult metadata ies => some (s.scanResult metadata ies)
  | .scanDone status => some (s.scanDone status)
  | .store k => (s.underway[k]?).map (s.store k)
  | .blocked => s.blocked
  | .scan hasWifi =>
    if s.pc = .outside ∧ s.poll.pc = .idle ∧ s.poll.scanIoctl = false then some (s.scan hasWifi)
    else none
  | .scanReturns result =>
    match s.pc, result with
    | .scanning, .ok _ => some { s with pc := .finish }
    | .scanning, .error e => some { s with pc := .cancel (.wifi e) }
    | _, _ => none
  | .advance => s.advance

/-! ## §2 The property and the condition -/

/-- The event is one of the call's. -/
def Failure.Owns (f : Failure) (number : ℕ) : Prop := f.first ≤ number ∧ number < f.next

structure NoTrace (s : State sys) : Prop where
  inactive : ∀ f ∈ s.failures, f.active = false
  /-- no event of a failed call has been fed since -/
  unfed : ∀ f ∈ s.failures, ∀ x ∈ s.lane.fed.drop f.fed, ¬ f.Owns x.1
  refused : ∀ hasWifi t, s.begins = false → step s (.scan hasWifi) = some t → t.poll = s.poll

def failed (poll : Poll.State sys) : Bool :=
  match poll.returned with
  | some (.error _) => true
  | _ => false

/-- `finish_scan_cache_capture` does not fail before the queue is empty, and
`discard_pending` does not end before the callbacks do. -/
def Clean (s : State sys) : Action → Prop
  | .advance => s.underway = [] →
      (s.pc = .finish → s.poll.nativeScanActive = false) ∧
      (s.pc = .polling → failed s.poll = true →
        s.lane.queue.hasPending = false ∧ s.poll.nativeScanActive = false)
  | .supplicant (.advance _) =>
      s.poll.pc = .discard → s.lane.takeOldest.isNone = true → s.underway = []
  | .blocked => s.poll.pc ≠ .discard
  | _ => True

instance (s : State sys) : (act : Action) → Decidable (Clean s act)
  | .advance => inferInstanceAs (Decidable (_ → _ ∧ _))
  | .supplicant (.advance _) => inferInstanceAs (Decidable (_ → _ → _))
  | .blocked => inferInstanceAs (Decidable (_ ≠ _))
  | .supplicant (.enqueueMgmtRx _ _ _) | .supplicant (.enqueueExternalAuth _ _ _ _ _ _)
  | .supplicant (.enqueueScanResult _ _) | .supplicant (.enqueueScanDone _)
  | .supplicant (.enqueueAssociateResult _ _ _ _ _) | .supplicant (.enqueueDisconnect _ _)
  | .supplicant .eapolNotify | .supplicant (.poll _) | .supplicant .beginScanCacheCapture
  | .supplicant .cancelScanCacheCapture | .supplicant .startScan
  | .supplicant (.scanIoctlReturns _) | .supplicant (.receive _ _ _)
  | .supplicant (.hostapReturns _) | .supplicant (.setPort _) | .scanResult _ _ | .scanDone _
  | .store _ | .scan _ | .scanReturns _ => inferInstanceAs (Decidable True)

/-! ## §3 Events that are gone -/

/-- No event of the call can be fed. -/
structure Gone (f : Failure) {L : Layout} (lane : Lane L) : Prop where
  next_le : f.next ≤ lane.queue.nextSequence
  fed_le : f.fed ≤ lane.fed.length
  waiting : ∀ x ∈ lane.waiting, ¬ f.Owns x.1
  unfed : ∀ x ∈ lane.fed.drop f.fed, ¬ f.Owns x.1

theorem Gone.flows {f : Failure} {L : Layout} {l l' : Lane L} (h : Gone f l) (hl : l.Flows l') :
    Gone f l' := by
  have old : ∀ x : Nat × L.Event, x ∈ l.waiting ∨ l.queue.nextSequence ≤ x.1 → ¬ f.Owns x.1 := by
    rintro x (hx | hx)
    · exact h.waiting x hx
    · exact fun howns => Nat.lt_irrefl _ (howns.2.trans_le (h.next_le.trans hx))
  obtain ⟨xs, hfed, hxs⟩ := hl.fed
  refine ⟨h.next_le.trans hl.next, ?_, fun x hx => old x (hl.waiting x hx), fun x hx => ?_⟩
  · rw [hfed, List.length_append]
    exact Nat.le_add_right_of_le h.fed_le
  · rw [hfed, List.drop_append_of_le_length h.fed_le] at hx
    rcases List.mem_append.mp hx with hx | hx
    · exact h.unfed x hx
    · exact old x (hxs x hx)

/-- When nothing waits, everything is gone. -/
theorem gone_of_waiting {L : Layout} {l : Lane L} (h : l.waiting = []) (e : BackendError)
    (first : ℕ) (active : Bool) :
    Gone ⟨e, first, l.queue.nextSequence, active, l.fed.length⟩ l where
  next_le := Nat.le_refl _
  fed_le := Nat.le_refl _
  waiting := by
    rw [h]
    nofun
  unfed := by
    rw [List.drop_length]
    nofun

/-! ## §4 The invariant -/

/-- The supplicant rests. -/
def Pc.rests : Pc → Bool
  | .start _ | .scanning | .cancel _ | .finish | .pending => true
  | .outside | .discarding _ | .polling => false

/-- In and after `discard_pending`. -/
structure Discards (poll : Poll.State sys) (underway : List ScanEvent) : Prop where
  inactive : poll.nativeScanActive = false
  done : poll.pc = .discard ∨ poll.pc = .idle ∧ underway = [] ∧ (poll.lanes .scan).waiting = []

structure Inv (s : State sys) : Prop where
  poll : Poll.Inv False s.poll.lanes s.poll.pc
  rests : s.pc.rests = true → s.poll.pc = .idle
  discards : ∀ e, s.pc = .discarding e → Discards s.poll s.underway
  failures : ∀ f ∈ s.failures, f.active = false ∧ Gone f s.lane

variable {s t : State sys}

theorem inv_init (sys : RadioSys) : Inv (init sys) where
  poll := Poll.inv_init
  rests := nofun
  discards := nofun
  failures := nofun

/-- A step with which no call fails. -/
theorem Inv.flows (h : Inv s) (poll : Poll.Inv False t.poll.lanes t.poll.pc)
    (flows : s.lane.Flows t.lane) (rests : t.pc.rests = true → t.poll.pc = .idle)
    (discards : ∀ e, t.pc = .discarding e → Discards t.poll t.underway)
    (failures : t.failures = s.failures) : Inv t where
  poll := poll
  rests := rests
  discards := discards
  failures := by
    intro f hf
    rw [failures] at hf
    obtain ⟨inactive, gone⟩ := h.failures f hf
    exact ⟨inactive, gone.flows flows⟩

/-- The call fails with nothing in the queue. -/
theorem Inv.fail (h : Inv s) (e : BackendError)
    (clean : s.underway = [] → s.poll.nativeScanActive = false ∧ s.lane.waiting = []) :
    Inv (s.fail e) where
  poll := h.poll
  rests := nofun
  discards := nofun
  failures := by
    intro f hf
    have hf : f ∈ (if s.underway.isEmpty then
        s.failures ++ [⟨e, s.first, s.lane.queue.nextSequence, s.poll.nativeScanActive,
          s.lane.fed.length⟩] else s.failures) := hf
    split at hf
    · rename_i hempty
      obtain ⟨hactive, hwaiting⟩ := clean (List.isEmpty_iff.mp hempty)
      rcases List.mem_append.mp hf with hf | hf
      · exact h.failures f hf
      · rw [List.mem_singleton.mp hf]
        exact ⟨hactive, gone_of_waiting hwaiting _ _ _⟩
    · exact h.failures f hf

section Supplicant

variable {poll : Poll.State sys} {act : Poll.Action}

/-- Outside its polls the owner is not in hostap. -/
theorem not_allowed_of_calls (hpc : s.pc ≠ .outside) (hpolling : s.pc ≠ .polling)
    (hact : act = .startScan ∨ ∃ workBudget, act = .poll workBudget) : s.allows act = false := by
  rcases hact with rfl | ⟨workBudget, rfl⟩
  · rw [State.allows, beq_eq_false_iff_ne.mpr hpc, beq_eq_false_iff_ne.mpr hpolling]
    rfl
  · exact beq_eq_false_iff_ne.mpr hpc

/-- While the supplicant rests, only callbacks run. -/
theorem idle_step (hallow : s.allows act = true) (hrests : s.pc.rests = true)
    (hidle : s.poll.pc = .idle) (hs : Poll.step s.poll act = some poll) : poll.pc = .idle := by
  have hpc : s.pc ≠ .outside := by
    rintro hpc
    rw [hpc] at hrests
    cases hrests
  have hpolling : s.pc ≠ .polling := by
    rintro hpc
    rw [hpc] at hrests
    cases hrests
  cases Poll.step_cases hs with
  | refuse | announce | resultRefused | resultQueued | resultTruncated | scanDone | notify
  | beginCapture | startScan | ioctlReturn | setPort => exact hidle
  | poll => rw [not_allowed_of_calls hpc hpolling (.inr ⟨_, rfl⟩)] at hallow; cases hallow
  | cancelCapture => cases hallow
  | advance hs =>
    simp only [Poll.State.advance, hidle] at hs
    cases hs
  | receive hreceive => rw [hidle] at hreceive; cases hreceive
  | hostapReturn => rfl

/-- A step that neither scans nor polls. -/
theorem Discards.frame {p q : Poll.State sys} {underway : List ScanEvent} (h : Discards p underway)
    (hactive : q.nativeScanActive = p.nativeScanActive) (hpc : q.pc = p.pc)
    (hlane : q.lanes .scan = p.lanes .scan) : Discards q underway where
  inactive := hactive.trans h.inactive
  done := by
    rw [hpc, hlane]
    exact h.done

/-- `discard_pending` ends when nothing waits. -/
theorem Discards.advance {p q : Poll.State sys} {underway : List ScanEvent} {status : Int32}
    (h : Discards p underway) (hinv : Poll.Inv False p.lanes p.pc)
    (clean : p.pc = .discard → (p.lanes .scan).takeOldest.isNone = true → underway = [])
    (hs : p.advance status = some q) : Discards q underway := by
  rcases h.done with hpc | ⟨hpc, -⟩
  · simp only [Poll.State.advance, hpc] at hs
    split at hs
    · cases hs
      exact ⟨h.inactive, .inl hpc⟩
    · rename_i hnone
      cases hs
      have hguard := hinv.guard_none (k := .scan) (by rw [hpc]; rfl)
      exact ⟨h.inactive, .inr ⟨rfl, clean hpc (Option.isNone_iff_eq_none.mpr hnone),
        (hinv.lane .scan).waiting_of_takeOldest hguard hnone⟩⟩
  · simp only [Poll.State.advance, hpc] at hs
    cases hs

theorem Inv.discards_step (h : Inv s) {e : BackendError} (hpc : s.pc = .discarding e)
    (hallow : s.allows act = true) (clean : Clean s (.supplicant act))
    (hs : Poll.step s.poll act = some poll) : Discards poll s.underway := by
  have hdiscards := h.discards e hpc
  have hcalls : act = .startScan ∨ (∃ workBudget, act = .poll workBudget) → s.allows act = false :=
    not_allowed_of_calls (by rw [hpc]; nofun) (by rw [hpc]; nofun)
  cases Poll.step_cases hs with
  | refuse | notify | setPort => exact hdiscards.frame rfl rfl rfl
  | announce event _ hk =>
    have hsame := Poll.sameScan_enqueue (s := s.poll) hk event
    exact hdiscards.frame hsame.active hsame.pc hsame.lane
  | resultRefused | resultQueued | resultTruncated | scanDone | beginCapture
  | cancelCapture => cases hallow
  | startScan => rw [hcalls (.inl rfl)] at hallow; cases hallow
  | poll => rw [hcalls (.inr ⟨_, rfl⟩)] at hallow; cases hallow
  | ioctlReturn hactive =>
    refine hdiscards.frame ?_ rfl rfl
    rw [hdiscards.inactive] at hactive ⊢
    exact Bool.eq_false_iff.mpr fun htrue => absurd (hactive htrue) (by decide)
  | advance hs => exact hdiscards.advance h.poll clean hs
  | receive hreceive =>
    rcases hdiscards.done with hdone | ⟨hdone, -⟩
    · rw [hreceive] at hdone
      cases hdone
    · rw [hreceive] at hdone
      cases hdone
  | hostapReturn hhostap =>
    rcases hdiscards.done with hdone | ⟨hdone, -⟩
    · rw [hhostap] at hdone
      cases hdone
    · rw [hhostap] at hdone
      cases hdone

theorem Inv.supplicant (h : Inv s) (hallow : s.allows act = true)
    (clean : Clean s (.supplicant act)) (hs : Poll.step s.poll act = some poll) :
    Inv { s with poll } :=
  h.flows (Poll.inv_step h.poll nofun hs) (Poll.flows_step h.poll hs .scan)
    (fun hrests => idle_step hallow hrests (h.rests hrests) hs)
    (fun _ hpc => h.discards_step hpc hallow clean hs) rfl

end Supplicant

/-- A callback passes its checks, which it does not during `discard_pending`. -/
theorem Inv.enters (h : Inv s) (hactive : s.poll.nativeScanActive = true) {poll : Poll.State sys}
    (hlanes : poll.lanes = s.poll.lanes) (hpc : poll.pc = s.poll.pc) (underway : List ScanEvent) :
    Inv { s with poll, underway } := by
  have hinv : Poll.Inv False poll.lanes poll.pc := by
    rw [hlanes, hpc]
    exact h.poll
  have hflows : s.lane.Flows (poll.lanes .scan) := by
    rw [hlanes]
    exact .refl _
  refine h.flows hinv hflows (fun hrests => hpc.trans (h.rests hrests)) (fun e he => ?_) rfl
  have hinactive := (h.discards e he).inactive
  rw [hactive] at hinactive
  cases hinactive

/-- A callback that is let through is one of a scan. -/
theorem active_of_checks (h : ¬ (!s.poll.portReady || !s.poll.nativeScanActive) = true) :
    s.poll.nativeScanActive = true := by
  rw [Bool.or_eq_true, not_or] at h
  simpa using h.2

theorem Inv.scanResult (h : Inv s) (metadata : ScanMeta) (ies : List UInt8) :
    Inv (s.scanResult metadata ies) := by
  rw [State.scanResult]
  split
  · exact h
  · rename_i hchecks
    have hactive := active_of_checks hchecks
    split
    · exact h.enters hactive (by rfl) (by rfl) _
    · split
      · exact h.enters hactive (by rfl) (by rfl) _
      · exact h.enters hactive (by rfl) (by rfl) _

theorem Inv.scanDone (h : Inv s) (status : Int32) : Inv (s.scanDone status) := by
  rw [State.scanDone]
  split
  · exact h
  · rename_i hchecks
    have hactive := active_of_checks hchecks
    exact h.enters hactive (by rfl) (by rfl) _

theorem Inv.store (h : Inv s) {k : ℕ} {e : ScanEvent} (hk : s.underway[k]? = some e) :
    Inv (s.store k e) := by
  refine h.flows (Poll.inv_enqueue h.poll .scan e Poll.route_scan)
    (Poll.flows_callback s.poll (h.poll.lane .scan) e .scan) h.rests (fun e' he => ?_) rfl
  obtain ⟨hinactive, hdone⟩ := h.discards e' he
  refine ⟨hinactive, .inl (hdone.resolve_right ?_)⟩
  rintro ⟨-, hempty, -⟩
  rw [hempty] at hk
  cases hk

/-- The program counter of the supplicant changes between points without a guard. -/
theorem Inv.goto (h : Inv s) {pc : Poll.Pc} {pc' : Pc}
    (hguards : ∀ k, pc.guards k = s.poll.pc.guards k) (hrests : pc'.rests = true → pc = .idle)
    (hdiscards : ∀ e, pc' ≠ .discarding e) :
    Inv { s with poll := { s.poll with pc }, pc := pc' } :=
  h.flows (h.poll.goto hguards) (.refl _) hrests (fun e he => absurd he (hdiscards e)) rfl

theorem Inv.poll_begins (h : Inv s) (hidle : s.poll.pc = .idle) :
    Inv { s with poll := s.poll.startPoll 64, pc := .polling } := by
  refine h.flows (h.poll.goto fun k => ?_) (.refl _) nofun nofun rfl
  rw [hidle]
  rfl

theorem Inv.blocked (h : Inv s) (clean : Clean s .blocked) (hs : s.blocked = some t) : Inv t := by
  have hclean : s.poll.pc ≠ .discard := clean
  rw [State.blocked] at hs
  split at hs
  · cases hs
  · split at hs
    · rename_i hpc
      cases hs
      exact h.poll_begins (h.rests (by rw [hpc]; rfl))
    · exact absurd ‹_› hclean
    · rename_i rxGrant budget htake _
      cases hs
      refine h.goto (fun k => by rw [htake]; rfl) (fun hrests => ?_) fun e he => ?_
      · have hidle := h.rests hrests
        rw [htake] at hidle
        cases hidle
      · rcases (h.discards e he).done with hdone | ⟨hdone, -⟩
        · rw [htake] at hdone
          cases hdone
        · rw [htake] at hdone
          cases hdone
    · cases hs

theorem Inv.scan (h : Inv s) (hidle : s.poll.pc = .idle)
    (hasWifi : Bool) : Inv (s.scan hasWifi) := by
  rw [State.scan]
  split
  · exact h.flows h.poll (.refl _) (fun _ => hidle) nofun rfl
  · exact h

/-- Nothing waits in the queue of a poll that has failed, if its condition is met. -/
theorem Inv.waiting_of_hasPending (h : Inv s) (hidle : s.poll.pc = .idle)
    (hpending : s.lane.queue.hasPending = false) : s.lane.waiting = [] :=
  Lane.waiting_of_hasPending (h.poll.guard_none (by rw [hidle]; rfl)) hpending

theorem Inv.advance (h : Inv s) (clean : Clean s .advance) (hs : s.advance = some t) : Inv t := by
  have hclean : s.underway = [] → _ := clean
  rw [State.advance] at hs
  split at hs
  · cases hs
  · cases hs
  · rename_i hasWifi hpc
    cases hs
    have hidle := h.rests (by rw [hpc]; rfl)
    refine h.flows h.poll (.refl _) (fun _ => hidle) (fun e he => ?_) rfl
    cases hasWifi <;> cases he
  · rename_i e hpc
    cases hs
    have hidle := h.rests (by rw [hpc]; rfl)
    refine h.flows (h.poll.goto fun k => ?_) (.refl _) nofun (fun _ _ => ⟨rfl, .inl rfl⟩) rfl
    rw [hidle]
    rfl
  · rename_i e hpc
    split at hs
    · rename_i hidle
      cases hs
      obtain ⟨hinactive, hdone⟩ := h.discards e hpc
      refine h.fail e fun _ => ⟨hinactive, ?_⟩
      rcases hdone with hdone | ⟨-, -, hwaiting⟩
      · rw [hidle] at hdone
        cases hdone
      · exact hwaiting
    · cases hs
  · rename_i hpc
    have hidle := h.rests (by rw [hpc]; rfl)
    split at hs
    · rename_i hactive
      cases hs
      refine h.fail _ fun hempty => ?_
      rw [(hclean hempty).1 hpc] at hactive
      cases hactive
    · cases hs
      exact h.flows h.poll (.refl _) (fun _ => hidle) nofun rfl
  · rename_i hpc
    split at hs
    · cases hs
      exact h.poll_begins (h.rests (by rw [hpc]; rfl))
    · cases hs
      exact h.flows h.poll (.refl _) nofun nofun rfl
  · rename_i hpc
    split at hs
    · rename_i hidle
      split at hs
      · cases hs
        exact h.flows h.poll (.refl _) (fun _ => hidle) nofun rfl
      · rename_i e hreturned
        cases hs
        refine h.fail _ fun hempty => ?_
        have hfailed : failed s.poll = true := by rw [failed, hreturned]
        obtain ⟨hpending, hinactive⟩ := (hclean hempty).2 hpc hfailed
        exact ⟨hinactive, h.waiting_of_hasPending hidle hpending⟩
      · cases hs
    · cases hs

theorem inv_step {a : Action} (h : Inv s) (clean : Clean s a) (hs : step s a = some t) : Inv t := by
  cases a with
  | supplicant act =>
    simp only [step] at hs
    split at hs
    · rename_i hallow
      obtain ⟨poll, hpoll, rfl⟩ := Option.map_eq_some_iff.mp hs
      exact h.supplicant hallow clean hpoll
    · cases hs
  | scanResult metadata ies =>
    cases hs
    exact h.scanResult metadata ies
  | scanDone status =>
    cases hs
    exact h.scanDone status
  | store k =>
    obtain ⟨e, he, rfl⟩ := Option.map_eq_some_iff.mp hs
    exact h.store he
  | blocked => exact h.blocked clean hs
  | scan hasWifi =>
    simp only [step] at hs
    split at hs
    · rename_i hready
      cases hs
      exact h.scan hready.2.1 hasWifi
    · cases hs
  | scanReturns result =>
    simp only [step] at hs
    split at hs
    · rename_i hpc
      cases hs
      exact h.flows h.poll (.refl _) (fun _ => h.rests (by rw [hpc]; rfl)) nofun rfl
    · rename_i hpc
      cases hs
      exact h.flows h.poll (.refl _) (fun _ => h.rests (by rw [hpc]; rfl)) nofun rfl
    · cases hs
  | advance => exact h.advance clean hs

/-! ## §5 Main results -/

/-- A refused call changes nothing. -/
theorem scan_refused (h : s.begins = false) {hasWifi : Bool}
    (hs : step s (.scan hasWifi) = some t) : t = s := by
  simp only [step] at hs
  split at hs
  · have hsame : s.scan hasWifi = s := by
      rw [State.scan, h]
      rfl
    rw [hsame] at hs
    exact (Option.some.inj hs).symm
  · cases hs

theorem Inv.noTrace (h : Inv s) : NoTrace s where
  inactive := fun f hf => (h.failures f hf).1
  unfed := fun f hf => (h.failures f hf).2.unfed
  refused := fun _ _ hbegins hs => by rw [scan_refused hbegins hs]

/-- In every run that meets the condition, a failed scan leaves no trace. -/
theorem no_trace {acts : List Action} (h : Steps step Clean (init sys) acts s) : NoTrace s :=
  (h.invariant (inv_init sys) fun _ _ _ hI clean hs => inv_step hI clean hs).noTrace

/-- A scan that times out, with a result in the queue and another in the middle of it. -/
def timeoutRun : List Action :=
  [.scan true, .advance, .scanResult ScanMeta.zero [], .store 0, .scanResult ScanMeta.zero [],
    .scanReturns (.error .timeout), .advance, .store 0, .supplicant (.advance 0),
    .supplicant (.advance 0), .supplicant (.advance 0), .advance]

theorem no_trace_timeout : ∃ s : State ⟨2304, 1⟩,
    s.failures.map (fun f => (f.first, f.next)) = [(0, 2)] ∧ NoTrace s := by
  have hrun : (run (guarded step Clean) (init ⟨2304, 1⟩) timeoutRun).map
      (fun s => s.failures.map fun f => (f.first, f.next)) = some [(0, 2)] := by decide +kernel
  obtain ⟨s, hs, hfailures⟩ := Option.map_eq_some_iff.mp hrun
  exact ⟨s, hfailures, no_trace (Steps.of_run_guarded hs)⟩

/-- Hostap refuses the result of a scan; scan-done stays in the queue, and a later poll
feeds it. -/
def refusedFeedRun : List Action :=
  [.scan true, .advance, .scanResult ScanMeta.zero [], .store 0, .scanDone 0, .store 0,
    .scanReturns (.ok 1), .advance, .advance] ++
    List.replicate 5 (.supplicant (.advance 0)) ++ [.supplicant (.advance 1), .advance] ++
    .supplicant (.poll 64) :: List.replicate 6 (.supplicant (.advance 0))

theorem not_no_trace : ¬ ∀ (sys : RadioSys) (acts : List Action) (s : State sys),
    Steps step Always (init sys) acts s → NoTrace s := by
  intro h
  have hrun : (run step (init ⟨2304, 1⟩) refusedFeedRun).map
      (fun s => (s.failures.map (fun f => (f.first, f.next, f.fed)), s.lane.fed.map Prod.fst)) =
      some ([(0, 2, 1)], [0, 1]) := by decide +kernel
  obtain ⟨s, hs, hlast⟩ := Option.map_eq_some_iff.mp hrun
  obtain ⟨hfailures, hfed⟩ := Prod.mk.inj hlast
  obtain ⟨f, hf, hnumbers⟩ := List.map_eq_singleton_iff.mp hfailures
  obtain ⟨hfirst, hlast⟩ := Prod.mk.inj hnumbers
  obtain ⟨hnext, hcount⟩ := Prod.mk.inj hlast
  have hmem : (1 : ℕ) ∈ (s.lane.fed.drop f.fed).map Prod.fst := by
    rw [List.map_drop, hfed, hcount]
    decide
  obtain ⟨x, hx, hnumber⟩ := List.mem_map.mp hmem
  refine (h _ _ s (Steps.of_run hs)).unfed f (by rw [hf]; exact List.mem_singleton_self f) x hx ?_
  rw [Failure.Owns, hfirst, hnext, hnumber]
  decide

end HisiRiscv.Wifi.FailedScan
