/-
HisiRiscv.Supplicant.Poll — `NativeSupplicant::poll` and the calls around it.

The runner's side of the native supplicant as a machine: `poll` with its
overflow checks, its four receive loops, `drain_eapol` and the final
`hisi_wpa_poll`; the scan transaction calls; the vendor callbacks. One
step of the runner is one pass over a program point: an overflow check, a
`take_oldest`, a call of hostap, an ioctl. Callbacks run between any two
steps of the runner, each as one step on its queue.

Translation notes. What hostap, the driver and the vendor ioctls answer is
part of the action. `budget` is `rx_budget`, which only counts down and is
a `Nat` here. `start_scan` is called by hostap, so it is enabled while the
runner is inside a hostap call; between it and the return of its ioctl the
runner waits. Diagnostics counters, the wake-up semaphore and the DIAG_*
cells are left out: nothing reads them back.

History variables: the ledgers of the lanes, `scanStart` (the next number of
the scan queue when the current scan transaction began), `arrived` (a
notification has come since the driver last reported its queue empty),
`pendingAtStart` and `drained` (`EAPOL_PENDING` when the current poll began,
and whether it has read 0xffff).

  §1 Status words of the vendor.
  §2 State.
  §3 Callbacks.
  §4 The runner.
  §5 What one step can do.
-/
import HisiRiscv.Lib.Machine
import HisiRiscv.Supplicant.Lane
import HisiRiscv.Supplicant.Queues

namespace HisiRiscv.Supplicant

/-! ## §1 Status words of the vendor -/

def vendorAssocStatusOffset : UInt16 := 8000
def maxStandardIeeeStatus : UInt16 := 255
def wlanStatusAssocRejectedTemporarily : UInt16 := 30
def vendorAuthStatusOffset : UInt16 := 7000
def wlanStatusAuthTimeout : UInt16 := 16
def wlanStatusInvalidPmkid : UInt16 := 53
def eapolFallbackPollWindow : Nat := 2000
def ethernetHeaderLen : Nat := 14
def maxEapolRxFrameLen : Nat := 800

def vendorResultRequiresStaleStateClear (rawStatus : UInt16) : Bool :=
  rawStatus == vendorAssocStatusOffset + wlanStatusAssocRejectedTemporarily

def normalizeVendorAssociationStatus (status : UInt16) : UInt16 :=
  if vendorAssocStatusOffset ≤ status then
    let standard := status - vendorAssocStatusOffset
    if standard ≠ 0 ∧ standard ≤ maxStandardIeeeStatus then standard else status
  else status

def vendorResultUsesAssociationReject (rawStatus : UInt16) : Bool :=
  rawStatus == vendorAssocStatusOffset + wlanStatusInvalidPmkid ||
    rawStatus == vendorAuthStatusOffset + wlanStatusAuthTimeout

def vendorResultUsesDisconnect (rawStatus : UInt16) : Bool :=
  rawStatus != 0 && !vendorResultUsesAssociationReject rawStatus

/-- `classify_eapol_receive`: a frame, the empty queue, or an error. -/
def classifyEapolReceive (status : Int32) : Except Int32 Bool :=
  if status = 0 then .ok true else if status = 0xffff then .ok false else .error status

/-- The checks `drain_eapol` makes on a received frame. -/
def eapolFrameValid (length : UInt32) (frame : Vector UInt8 maxEapolRxFrameLen) : Bool :=
  ethernetHeaderLen < length.toNat && length.toNat ≤ maxEapolRxFrameLen &&
    frame[12] == 0x88 && frame[13] == 0x8e

/-- The fields of `PollResult` that `poll` looks at. -/
structure PollResult where
  status : Int32
  workCompleted : UInt32
  deriving DecidableEq

/-- `account_poll_work`: a saturating addition. -/
def accountPollWork (result : PollResult) (rxGrant rxRemaining : Nat) : PollResult :=
  { result with
    workCompleted :=
      UInt32.ofNat (min (result.workCompleted.toNat + (rxGrant - rxRemaining)) (2 ^ 32 - 1)) }

/-- The errors `poll` returns. -/
inductive NativeSupplicantError where
  | queueOverflow (k : QueueKind) (delta : UInt32)
  | feedFailed (k : QueueKind) (status : Int32)
  | feedEapolFailed (status : Int32)
  | disconnectFailed (status : Int32)
  | invalidResult
  | pollFailed (status : Int32)
  deriving DecidableEq

namespace Poll

/-! ## §2 State -/

/-- The program counter of the runner. -/
inductive Pc where
  | idle
  /-- Before the overflow check of queue `k`. -/
  | overflow (k : QueueKind) (rxGrant : Nat)
  /-- At the head of the receive loop of queue `k`. -/
  | take (k : QueueKind) (rxGrant budget : Nat)
  /-- Before the `IOCTL_DISCONNECT` that clears the stale station. -/
  | clear (rxGrant budget : Nat)
  /-- Before the `hisi_wpa_feed_*` of the event under the guard of queue `k`. -/
  | feed (k : QueueKind) (rxGrant budget : Nat)
  /-- Before the swap of `EAPOL_PENDING`. -/
  | swap (rxGrant budget : Nat)
  /-- At the head of the loop of `drain_eapol`. -/
  | receive (rxGrant budget : Nat)
  /-- Before `hisi_wpa_feed_eapol`. -/
  | feedEapol (rxGrant budget : Nat)
  /-- Before `hisi_wpa_poll`. -/
  | hostap (rxGrant budget : Nat)
  /-- In `discard_pending`, called by `cancel_scan_cache_capture`. -/
  | discard
  deriving DecidableEq

structure State (sys : RadioSys) where
  lanes : (k : QueueKind) → Lane (k.layout sys)
  portReady : Bool
  nativeScanActive : Bool
  acceptedResults : Nat
  truncatedResults : UInt32
  /-- The `IOCTL_SCAN` of `start_scan` has not returned. -/
  scanIoctl : Bool
  eapolPending : Bool
  eapolFallbackPollsRemaining : Nat
  pc : Pc
  /-- What the last poll returned; `none` while one is running. -/
  returned : Option (Except NativeSupplicantError PollResult)
  scanStart : Nat
  arrived : Bool
  pendingAtStart : Bool
  drained : Bool

/-- The state `create` leaves behind. -/
def init (sys : RadioSys) : State sys where
  lanes k := Lane.new (k.layout sys)
  portReady := true
  nativeScanActive := false
  acceptedResults := 0
  truncatedResults := 0
  scanIoctl := false
  eapolPending := false
  eapolFallbackPollsRemaining := 0
  pc := .idle
  returned := none
  scanStart := 0
  arrived := false
  pendingAtStart := false
  drained := false

inductive Action where
  /-- The vendor callbacks. -/
  | enqueueMgmtRx (frequencyMhz : UInt32) (rssiDbm : Int32) (frame : List UInt8)
  | enqueueExternalAuth (action : UInt8) (bssid : Bssid) (ssid : List UInt8)
      (keyMgmtSuite : UInt32) (status : UInt16) (pmkid : Option (Vector UInt8 16))
  | enqueueScanResult (metadata : ScanMeta) (ies : List UInt8)
  | enqueueScanDone (status : Int32)
  | enqueueAssociateResult (status frequencyMhz : UInt16) (bssid : Bssid)
      (requestIes responseIes : List UInt8)
  | enqueueDisconnect (reason : UInt16) (ies : List UInt8)
  | eapolNotify
  /-- The calls of the runner. -/
  | poll (workBudget : UInt32)
  | beginScanCacheCapture
  | cancelScanCacheCapture
  /-- `start_scan`, and the return of its ioctl. -/
  | startScan
  | scanIoctlReturns (status : Int32)
  /-- One step of the runner; `status` is what hostap or the ioctl returns. -/
  | advance (status : Int32)
  /-- `IOCTL_RECEIVE_EAPOL` returns. -/
  | receive (status : Int32) (length : UInt32) (frame : Vector UInt8 maxEapolRxFrameLen)
  /-- `hisi_wpa_poll` returns. -/
  | hostapReturns (result : PollResult)
  | setPort (ready : Bool)

variable {sys : RadioSys}

namespace State

def setLane (s : State sys) (k : QueueKind) (lane : Lane (k.layout sys)) : State sys :=
  { s with lanes := Function.update s.lanes k lane }

@[simp] theorem setLane_self (s : State sys) (k : QueueKind) (lane : Lane (k.layout sys)) :
    (s.setLane k lane).lanes k = lane := Function.update_self ..

theorem setLane_ne (s : State sys) {k k' : QueueKind} (lane : Lane (k.layout sys)) (h : k' ≠ k) :
    (s.setLane k lane).lanes k' = s.lanes k' := Function.update_of_ne h ..

/-! ## §3 Callbacks -/

/-- A call of the queue's `enqueue`, with its result. -/
def enqueue (s : State sys) (k : QueueKind) (e : (k.layout sys).Event) : State sys × Bool :=
  let (lane, ok) := (s.lanes k).enqueue e
  (s.setLane k lane, ok)

def enqueueMgmtRx (s : State sys) (frequencyMhz : UInt32) (rssiDbm : Int32) (frame : List UInt8) :
    State sys × Bool :=
  if s.portReady then s.enqueue .mgmt ⟨frequencyMhz, rssiDbm, frame⟩ else (s, false)

def enqueueExternalAuth (s : State sys) (action : UInt8) (bssid : Bssid) (ssid : List UInt8)
    (keyMgmtSuite : UInt32) (status : UInt16) (pmkid : Option (Vector UInt8 16)) :
    State sys × Bool :=
  if !s.portReady || action > 1 || ssid.length > 32 || (action == 0 && ssid.isEmpty) then
    (s, false)
  else
    s.enqueue .externalAuth
      { abiVersion := sys.abiVersion
        action := action
        ssidLen := UInt8.ofNat ssid.length
        bssid := bssid
        status := status
        keyMgmtSuite := keyMgmtSuite
        pmkidPresent := if pmkid.isSome then 1 else 0
        reserved := Vector.replicate 3 0
        ssid := ByteBuffer.copyAt (Vector.replicate 32 0) 0 ssid
        pmkid := pmkid.getD (Vector.replicate 16 0) }

/-- `enqueue_scan_result`: beyond the cap a result is truncated, which counts
as queued. -/
def enqueueScanResult (s : State sys) (metadata : ScanMeta) (ies : List UInt8) : State sys × Bool :=
  if !s.portReady || !s.nativeScanActive then (s, false)
  else if !(scanEventQueue sys).accepts (.result metadata ies) then
    s.enqueue .scan (.result metadata ies)
  else if s.acceptedResults < maxScanResults then
    { s with acceptedResults := s.acceptedResults + 1 }.enqueue .scan (.result metadata ies)
  else ({ s with truncatedResults := s.truncatedResults + 1 }, true)

def enqueueScanDone (s : State sys) (status : Int32) : State sys × Bool :=
  if !s.portReady || !s.nativeScanActive then (s, false)
  else { s with nativeScanActive := false }.enqueue .scan (.done status)

/-- The link event of an association result. -/
def associateResultEvent (status frequencyMhz : UInt16) (bssid : Bssid)
    (requestIes responseIes : List UInt8) : LinkEvent :=
  if vendorResultUsesDisconnect status then
    ⟨⟨linkEventDisconnect, status, frequencyMhz, bssid, 0, 0⟩, [], []⟩
  else
    ⟨⟨linkEventAssociate, normalizeVendorAssociationStatus status, frequencyMhz, bssid,
      requestIes.length, responseIes.length⟩, requestIes, responseIes⟩

def enqueueAssociateResult (s : State sys) (status frequencyMhz : UInt16) (bssid : Bssid)
    (requestIes responseIes : List UInt8) : State sys × Bool :=
  if s.portReady then
    s.enqueue .link (associateResultEvent status frequencyMhz bssid requestIes responseIes)
  else (s, false)

def disconnectEvent (reason : UInt16) (ies : List UInt8) : LinkEvent :=
  ⟨⟨linkEventDisconnect, reason, 0, Vector.replicate 6 0, ies.length, 0⟩, ies, []⟩

def enqueueDisconnect (s : State sys) (reason : UInt16) (ies : List UInt8) : State sys × Bool :=
  if s.portReady then s.enqueue .link (disconnectEvent reason ies) else (s, false)

/-! ## §4 The runner -/

/-- `poll` returns. -/
def return_ (s : State sys) (result : Except NativeSupplicantError PollResult) : State sys :=
  { s with pc := .idle, returned := some result }

/-- What a receive loop does with an event. -/
inductive Route where
  | feed
  /-- First clear the stale station. -/
  | clear
  | invalid
  deriving DecidableEq

def route : (k : QueueKind) → (k.layout sys).Event → Route
  | .scan, e =>
      let e : ScanEvent := e
      if e.metadata.kind = scanEventResult ∨ e.metadata.kind = scanEventDone then .feed else .invalid
  | .link, e =>
      let e : LinkEvent := e
      if e.metadata.kind = linkEventAssociate then .feed
      else if e.metadata.kind = linkEventDisconnect then
        if vendorResultRequiresStaleStateClear e.metadata.statusOrReason then .clear else .feed
      else .invalid
  | .externalAuth, _ | .mgmt, _ => .feed

/-- The fallback window after a successful feed. -/
def fallbackAfter (remaining : Nat) : (k : QueueKind) → (k.layout sys).Event → Nat
  | .link, e =>
      let e : LinkEvent := e
      if e.metadata.kind = linkEventAssociate ∧ e.metadata.statusOrReason = 0 then
        eapolFallbackPollWindow
      else remaining
  | .scan, _ | .externalAuth, _ | .mgmt, _ => remaining

/-- The program point after the overflow check of a queue. -/
def afterOverflow (k : QueueKind) (rxGrant : Nat) : Pc :=
  match k with
  | .mgmt => .overflow .scan rxGrant
  | .scan => .overflow .link rxGrant
  | .link => .overflow .externalAuth rxGrant
  | .externalAuth => .take .scan rxGrant rxGrant

/-- The program point after the receive loop of a queue. -/
def afterLoop (k : QueueKind) (rxGrant budget : Nat) : Pc :=
  match k with
  | .scan => .take .link rxGrant budget
  | .link => .take .externalAuth rxGrant budget
  | .externalAuth => .take .mgmt rxGrant budget
  | .mgmt => .swap rxGrant budget

/-- The event under the guard of queue `k` meets its fate. -/
def dropGuard (s : State sys) (k : QueueKind) (fate : Fate) : State sys :=
  s.setLane k ((s.lanes k).dropGuard fate)

/-- The event under the guard of queue `k`. -/
def event? (s : State sys) (k : QueueKind) : Option (k.layout sys).Event :=
  (s.lanes k).guard.map fun i => (s.lanes k).queue.payload i

/-- One iteration of a receive loop, up to the call of hostap or the ioctl. -/
def stepTake (s : State sys) (k : QueueKind) (rxGrant budget : Nat) : State sys :=
  if budget = 0 then { s with pc := afterLoop k rxGrant budget }
  else
    match (s.lanes k).takeOldest with
    | none => { s with pc := afterLoop k rxGrant budget }
    | some lane =>
        let s := s.setLane k lane
        match (s.event? k).map (route k) with
        | some .clear => { s with pc := .clear rxGrant budget }
        | some .invalid => (s.dropGuard k .lost).return_ (.error .invalidResult)
        | _ => { s with pc := .feed k rxGrant budget }

/-- The call of hostap; the guard is dropped on every way out. -/
def stepFeed (s : State sys) (k : QueueKind) (rxGrant budget : Nat) (status : Int32) : State sys :=
  let fed := s.dropGuard k .fed
  if status ≠ 0 then fed.return_ (.error (.feedFailed k status))
  else
    { fed with
      eapolFallbackPollsRemaining :=
        (s.event? k).elim s.eapolFallbackPollsRemaining
          (fallbackAfter s.eapolFallbackPollsRemaining k)
      pc := .take k rxGrant (budget - 1) }

/-- The swap of `EAPOL_PENDING` and the test in front of `drain_eapol`. -/
def stepSwap (s : State sys) (rxGrant budget : Nat) : State sys :=
  let notified := s.eapolPending
  let fallback := !notified && s.eapolFallbackPollsRemaining ≠ 0
  if budget ≠ 0 ∧ (notified ∨ fallback) then
    { s with
      eapolPending := false
      eapolFallbackPollsRemaining :=
        if fallback then s.eapolFallbackPollsRemaining - 1 else s.eapolFallbackPollsRemaining
      pc := .receive rxGrant budget }
  else { s with eapolPending := false, pc := .hostap rxGrant budget }

/-- `IOCTL_RECEIVE_EAPOL` and what follows up to the feed. -/
def stepReceive (s : State sys) (rxGrant budget : Nat) (status : Int32) (length : UInt32)
    (frame : Vector UInt8 maxEapolRxFrameLen) : State sys :=
  match classifyEapolReceive status with
  | .error status => s.return_ (.error (.feedEapolFailed status))
  | .ok false => { s with arrived := false, drained := true, pc := .hostap rxGrant budget }
  | .ok true =>
      if eapolFrameValid length frame then { s with pc := .feedEapol rxGrant budget }
      else s.return_ (.error .invalidResult)

/-- `hisi_wpa_feed_eapol`; with the budget used up `drain_eapol` sets the flag again. -/
def stepFeedEapol (s : State sys) (rxGrant budget : Nat) (status : Int32) : State sys :=
  if status ≠ 0 then s.return_ (.error (.feedEapolFailed status))
  else if budget - 1 = 0 then { s with eapolPending := true, pc := .hostap rxGrant 0 }
  else { s with pc := .receive rxGrant (budget - 1) }

/-- A step of the runner that needs no more than a status. -/
def advance (s : State sys) (status : Int32) : Option (State sys) :=
  match s.pc with
  | .idle | .receive _ _ | .hostap _ _ => none
  | .overflow k rxGrant =>
      match (s.lanes k).overflow with
      | some (delta, lane) => some ((s.setLane k lane).return_ (.error (.queueOverflow k delta)))
      | none => some { s with pc := afterOverflow k rxGrant }
  | .take k rxGrant budget => some (s.stepTake k rxGrant budget)
  | .clear rxGrant budget =>
      if status ≠ 0 then some ((s.dropGuard .link .lost).return_ (.error (.disconnectFailed status)))
      else some { s with pc := .feed .link rxGrant budget }
  | .feed k rxGrant budget => some (s.stepFeed k rxGrant budget status)
  | .swap rxGrant budget => some (s.stepSwap rxGrant budget)
  | .feedEapol rxGrant budget => some (s.stepFeedEapol rxGrant budget status)
  | .discard =>
      match (s.lanes .scan).takeOldest with
      | some lane => some ((s.setLane .scan lane).dropGuard .scan .discarded)
      | none => some { s with pc := .idle }

/-- The claim of `NATIVE_SCAN_ACTIVE` and `begin_transaction`. -/
def beginTransaction (s : State sys) : State sys :=
  { s with
    nativeScanActive := true
    acceptedResults := 0
    scanStart := (s.lanes .scan).queue.nextSequence }

/-- `poll` begins. -/
def startPoll (s : State sys) (workBudget : UInt32) : State sys :=
  { s with
    pc := .overflow .mgmt (workBudget.toNat - 1)
    returned := none
    pendingAtStart := s.eapolPending
    drained := false }

/-- The runner is inside a hostap call, from which hostap may start a scan. -/
def inHostap (s : State sys) : Bool :=
  match s.pc with
  | .idle | .feed _ _ _ | .feedEapol _ _ | .hostap _ _ => true
  | .overflow _ _ | .take _ _ _ | .clear _ _ | .swap _ _ | .receive _ _ | .discard => false

end State

open State in
def step (s : State sys) : Action → Option (State sys)
  | .enqueueMgmtRx frequencyMhz rssiDbm frame =>
      some (s.enqueueMgmtRx frequencyMhz rssiDbm frame).1
  | .enqueueExternalAuth action bssid ssid keyMgmtSuite status pmkid =>
      some (s.enqueueExternalAuth action bssid ssid keyMgmtSuite status pmkid).1
  | .enqueueScanResult metadata ies => some (s.enqueueScanResult metadata ies).1
  | .enqueueScanDone status => some (s.enqueueScanDone status).1
  | .enqueueAssociateResult status frequencyMhz bssid requestIes responseIes =>
      some (s.enqueueAssociateResult status frequencyMhz bssid requestIes responseIes).1
  | .enqueueDisconnect reason ies => some (s.enqueueDisconnect reason ies).1
  | .eapolNotify => some { s with eapolPending := true, arrived := true }
  | .poll workBudget =>
      if s.pc = .idle ∧ s.scanIoctl = false ∧ workBudget ≠ 0 then some (s.startPoll workBudget)
      else none
  | .beginScanCacheCapture =>
      if s.pc = .idle ∧ s.scanIoctl = false then
        if s.portReady ∧ s.nativeScanActive = false then some s.beginTransaction else some s
      else none
  | .cancelScanCacheCapture =>
      if s.pc = .idle ∧ s.scanIoctl = false then
        some { s with nativeScanActive := false, pc := .discard }
      else none
  | .startScan =>
      if s.inHostap ∧ s.scanIoctl = false then
        if s.nativeScanActive then some s
        else some { s.beginTransaction with scanIoctl := true }
      else none
  | .scanIoctlReturns status =>
      if s.scanIoctl then
        some { s with
          scanIoctl := false
          nativeScanActive := if status = 0 then s.nativeScanActive else false }
      else none
  | .advance status => if s.scanIoctl then none else s.advance status
  | .receive status length frame =>
      match s.pc with
      | .receive rxGrant budget => some (s.stepReceive rxGrant budget status length frame)
      | _ => none
  | .hostapReturns result =>
      match s.pc with
      | .hostap rxGrant budget =>
          if s.scanIoctl then none
          else
            let result := accountPollWork result rxGrant budget
            some (s.return_ (if result.status = 0 then .ok result else .error (.pollFailed result.status)))
      | _ => none
  | .setPort ready => some { s with portReady := ready }

/-! ## §5 What one step can do -/

/-- The start of a poll and the steps of the runner within it. -/
def Action.polls : Action → Bool
  | .poll _ | .advance _ | .receive _ _ _ | .hostapReturns _ => true
  | .enqueueMgmtRx _ _ _ | .enqueueExternalAuth _ _ _ _ _ _ | .enqueueScanResult _ _
  | .enqueueScanDone _ | .enqueueAssociateResult _ _ _ _ _ | .enqueueDisconnect _ _ | .eapolNotify
  | .beginScanCacheCapture | .cancelScanCacheCapture | .startScan | .scanIoctlReturns _
  | .setPort _ => false

/-- Every step, with what the guards of its caller say. -/
inductive Move (s : State sys) : Action → State sys → Prop
  /-- A callback without the port, a scan that is already under way. -/
  | refuse {act} (hact : act.polls = false) : Move s act s
  /-- A callback of another queue than that of the scan. -/
  | announce {act} {k : QueueKind} (e : (k.layout sys).Event) (hact : act.polls = false)
      (hk : k ≠ .scan) (hroute : State.route k e ≠ .invalid) : Move s act (s.enqueue k e).1
  | resultRefused {metadata ies} (h : (scanEventQueue sys).accepts (.result metadata ies) = false) :
      Move s (.enqueueScanResult metadata ies) (s.enqueue .scan (.result metadata ies)).1
  | resultQueued {metadata ies} (h : s.acceptedResults < maxScanResults) :
      Move s (.enqueueScanResult metadata ies)
        ({ s with acceptedResults := s.acceptedResults + 1 }.enqueue .scan (.result metadata ies)).1
  | resultTruncated {metadata ies} :
      Move s (.enqueueScanResult metadata ies)
        { s with truncatedResults := s.truncatedResults + 1 }
  | scanDone {status} :
      Move s (.enqueueScanDone status)
        ({ s with nativeScanActive := false }.enqueue .scan (.done status)).1
  | notify : Move s .eapolNotify { s with eapolPending := true, arrived := true }
  | poll {workBudget} (hpc : s.pc = .idle) (hwork : workBudget ≠ 0) :
      Move s (.poll workBudget) (s.startPoll workBudget)
  | beginCapture (hready : s.portReady = true) (hactive : s.nativeScanActive = false) :
      Move s .beginScanCacheCapture s.beginTransaction
  | cancelCapture (hpc : s.pc = .idle) :
      Move s .cancelScanCacheCapture { s with nativeScanActive := false, pc := .discard }
  | startScan (hactive : s.nativeScanActive = false) :
      Move s .startScan { s.beginTransaction with scanIoctl := true }
  | ioctlReturn {status active} (h : active = true → s.nativeScanActive = true) :
      Move s (.scanIoctlReturns status) { s with scanIoctl := false, nativeScanActive := active }
  | advance {status t} (h : s.advance status = some t) : Move s (.advance status) t
  | receive {status length frame rxGrant budget} (hpc : s.pc = .receive rxGrant budget) :
      Move s (.receive status length frame) (s.stepReceive rxGrant budget status length frame)
  | hostapReturn {result result' rxGrant budget} (hpc : s.pc = .hostap rxGrant budget)
      (h : result' = accountPollWork result rxGrant budget) :
      Move s (.hostapReturns result)
        (s.return_ (if result'.status = 0 then .ok result' else .error (.pollFailed result'.status)))
  | setPort {ready} : Move s (.setPort ready) { s with portReady := ready }

theorem route_link {e : LinkEvent}
    (h : e.metadata.kind = linkEventAssociate ∨ e.metadata.kind = linkEventDisconnect) :
    @State.route sys .link e ≠ .invalid := by
  simp only [State.route]
  split
  · nofun
  · rename_i hassociate
    rw [if_pos (h.resolve_left hassociate)]
    split <;> nofun

theorem associateResultEvent_kind (status frequencyMhz : UInt16) (bssid : Bssid)
    (requestIes responseIes : List UInt8) :
    let e := State.associateResultEvent status frequencyMhz bssid requestIes responseIes
    e.metadata.kind = linkEventAssociate ∨ e.metadata.kind = linkEventDisconnect := by
  dsimp only [State.associateResultEvent]
  split
  · exact Or.inr rfl
  · exact Or.inl rfl

theorem enqueueScanResult_cases (s : State sys) (metadata : ScanMeta) (ies : List UInt8) :
    Move s (.enqueueScanResult metadata ies) (s.enqueueScanResult metadata ies).1 := by
  rw [State.enqueueScanResult]
  split
  · exact .refuse rfl
  · split
    · rename_i hrefused
      exact .resultRefused (by rwa [Bool.not_eq_true'] at hrefused)
    · split
      · rename_i hroom
        exact .resultQueued hroom
      · exact .resultTruncated

theorem step_cases {s t : State sys} {act : Action} (hs : step s act = some t) : Move s act t := by
  cases act with
  | enqueueMgmtRx frequencyMhz rssiDbm frame =>
    cases hs
    rw [State.enqueueMgmtRx]
    split
    · exact .announce _ rfl (by decide) nofun
    · exact .refuse rfl
  | enqueueExternalAuth action bssid ssid keyMgmtSuite status pmkid =>
    cases hs
    rw [State.enqueueExternalAuth]
    split
    · exact .refuse rfl
    · exact .announce _ rfl (by decide) nofun
  | enqueueScanResult metadata ies =>
    cases hs
    exact enqueueScanResult_cases s metadata ies
  | enqueueScanDone status =>
    cases hs
    rw [State.enqueueScanDone]
    split
    · exact .refuse rfl
    · exact .scanDone
  | enqueueAssociateResult status frequencyMhz bssid requestIes responseIes =>
    cases hs
    rw [State.enqueueAssociateResult]
    split
    · exact .announce _ rfl (by decide) (route_link (associateResultEvent_kind ..))
    · exact .refuse rfl
  | enqueueDisconnect reason ies =>
    cases hs
    rw [State.enqueueDisconnect]
    split
    · exact .announce _ rfl (by decide) (route_link (Or.inr rfl))
    · exact .refuse rfl
  | eapolNotify =>
    cases hs
    exact .notify
  | poll workBudget =>
    simp only [step] at hs
    split at hs
    · rename_i hidle
      cases hs
      exact .poll hidle.1 hidle.2.2
    · cases hs
  | beginScanCacheCapture =>
    simp only [step] at hs
    split at hs
    · split at hs
      · rename_i hbegins
        cases hs
        exact .beginCapture hbegins.1 hbegins.2
      · cases hs
        exact .refuse rfl
    · cases hs
  | cancelScanCacheCapture =>
    simp only [step] at hs
    split at hs
    · rename_i hidle
      cases hs
      exact .cancelCapture hidle.1
    · cases hs
  | startScan =>
    simp only [step] at hs
    split at hs
    · split at hs
      · cases hs
        exact .refuse rfl
      · rename_i hinactive
        cases hs
        exact .startScan (Bool.eq_false_iff.mpr hinactive)
    · cases hs
  | scanIoctlReturns status =>
    simp only [step] at hs
    split at hs
    · cases hs
      refine .ioctlReturn fun hactive => ?_
      split at hactive
      · exact hactive
      · cases hactive
    · cases hs
  | advance status =>
    simp only [step] at hs
    split at hs
    · cases hs
    · exact .advance hs
  | receive status length frame =>
    simp only [step] at hs
    split at hs
    · rename_i hpc
      cases hs
      exact .receive hpc
    · cases hs
  | hostapReturns result =>
    simp only [step] at hs
    split at hs
    · rename_i hpc
      split at hs
      · cases hs
      · cases hs
        exact .hostapReturn hpc rfl
    · cases hs
  | setPort ready =>
    cases hs
    exact .setPort

end Poll

end HisiRiscv.Supplicant
