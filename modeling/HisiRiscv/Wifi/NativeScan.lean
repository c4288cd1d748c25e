/-
HisiRiscv.Wifi.NativeScan — `Ws63WifiBackend::scan` with the upstream
supplicant.

One call of the backend: `begin_scan_cache_capture`, `Wifi::scan`,
`finish_scan_cache_capture` and the loop that writes the output. The two
machines below it are `Supplicant.Poll`, whose scan queue feeds hostap,
and `ScanTransaction`, whose slots become the visible list. Every vendor
event goes to both: a result callback first to `enqueue_scan_result`, if
its payload passes the checks there, then to `SCAN_STATE`; a done callback
first to `enqueue_scan_done`.

Translation notes. The vendor delivers one event after the other, so a
callback is one step here; callbacks of the other queues and the steps of
hostap and the driver come in any order, and `setPort` and `startScan` are
not among the actions. The type and the parser of `hisi_rf::Ssid` are
not part of the repository: `Build` holds them, together with the cargo
features for WPA3. `map_error` and `map_native_error` only translate
errors into codes; the errors are kept as they are. The `truncated` flag
and the count of `ScanOutcome` are derived from the written list.

History variables: `vendor` lists the results the vendor has delivered for
this scan, `vendorDone` says that scan-done has followed them.

  §1 The two copies of an event.
  §2 The visible list.
  §3 State and steps.
-/
import HisiRiscv.Supplicant.Poll
import HisiRiscv.Supplicant.Drain
import HisiRiscv.Wifi.ScanTransaction

namespace HisiRiscv.Wifi.NativeScan

open HisiRiscv.Supplicant

/-! ## §1 The two copies of an event -/

/-- The metadata `scan_event` passes to `enqueue_scan_result`. -/
def scanMeta (vendor : VendorScanResult) : ScanMeta where
  kind := scanEventResult
  capabilities := vendor.capabilities.toUInt16
  flags := vendor.flags.toUInt32
  bssid := vendor.bssid
  frequencyMhz := vendor.frequency
  beaconInterval := vendor.beaconInterval.toUInt16
  quality := vendor.quality
  levelMbm := vendor.level
  ageMs := vendor.age
  ieLen := vendor.ieLen.toNat
  beaconIeLen := vendor.beaconIeLen.toNat
  status := 0

/-- The elements `scan_event` passes to `enqueue_scan_result`, if it calls it. -/
def hostapElements (vendor : VendorScanResult) : Option (List UInt8) :=
  match vendor.totalLen with
  | none => none
  | some total =>
      if total ≤ maxIeLength ∧ (total = 0 ∨ vendor.elements.isSome) then
        some (if total = 0 then [] else vendor.elements.getD [])
      else none

/-- The event that `enqueue_scan_result` is asked to queue. -/
def hostapEvent (vendor : VendorScanResult) : Option ScanEvent :=
  (hostapElements vendor).map fun ies => .result (scanMeta vendor) ies

/-- What a result callback does with `SCAN_STATE` and `SCAN_RESULTS`. -/
def callback (s : ScanTransaction.State) (vendor : VendorScanResult) : ScanTransaction.State :=
  let reserved := (s.deliver s.scan (.ofVendor vendor)).reserve s.scan (.ofVendor vendor)
  (reserved.write s.writers.length).getD reserved

/-! ## §2 The visible list -/

/-- `hisi_rf::Ssid::try_from_bytes`, and whether a WPA3 feature is enabled. -/
structure Build (Ssid : Type) where
  tryFromBytes : List UInt8 → Option Ssid
  wpa3 : Bool

/-- `hisi_rf::ScanResult`. -/
structure Network (Ssid : Type) where
  ssid : Ssid
  bssid : Bssid
  frequencyMhz : UInt16
  rssiDbm : Int16
  security : Security
  channel : UInt8

/-- The value of a successful call: what it wrote to `output`, and `truncated`. -/
structure Outcome (Ssid : Type) where
  written : List (Network Ssid)
  truncated : Bool

variable {Ssid : Type}

def network (build : Build Ssid) (ssid : Ssid) (scan : ScanResult) : Network Ssid where
  ssid
  bssid := scan.bssid
  frequencyMhz := scan.frequencyMhz
  rssiDbm := scan.rssiDbm
  security := security build.wpa3 scan
  channel := scan.channel

/-- The loop over `self.scans[..self.scan_count]`. -/
def writeResults (build : Build Ssid) (outputLen : Nat) :
    List ScanResult → List (Network Ssid) → List (Network Ssid)
  | [], written => written
  | scan :: scans, written =>
      match build.tryFromBytes scan.ssidBytes with
      | none => writeResults build outputLen scans written
      | some ssid =>
          if written.length = outputLen then written
          else writeResults build outputLen scans (written ++ [network build ssid scan])

/-! ## §3 State and steps -/

/-- The errors of the call. -/
inductive BackendError where
  | notInitialized
  | native (e : NativeSupplicantError)
  | wifi (e : Error)
  deriving DecidableEq

/-- The program counter of the backend. -/
inductive Pc where
  /-- Before `begin_scan_cache_capture`. -/
  | begin
  /-- Before `Wifi::scan`. -/
  | start
  /-- In `Wifi::scan`. -/
  | scanning
  /-- Before and in `cancel_scan_cache_capture`; then the call fails. -/
  | cancel (e : BackendError)
  | discarding (e : BackendError)
  /-- In `finish_scan_cache_capture`: the check, the head of the loop, in `poll`. -/
  | finish
  | pending
  | polling
  /-- Before the loop that writes the output. -/
  | write
  | returned
  deriving DecidableEq

structure State (sys : RadioSys) (Ssid : Type) where
  poll : Poll.State sys
  wifi : ScanTransaction.State
  pc : Pc
  /-- `self.supplicant` and `self.wifi` are there. -/
  hasSupplicant : Bool
  hasWifi : Bool
  /-- `self.scans[..self.scan_count]`. -/
  scans : List ScanResult
  /-- The arguments of the call. -/
  timeoutMs : UInt32
  outputLen : Nat
  returned : Option (Except BackendError (Outcome Ssid))
  vendor : List VendorScanResult
  vendorDone : Bool

inductive Action where
  /-- A callback of another queue, or a step of the runner. -/
  | supplicant (act : Poll.Action)
  /-- A step of `Wifi::scan`. -/
  | waiter (act : ScanTransaction.Action)
  /-- A step of the backend. -/
  | advance
  | scanResult (vendor : VendorScanResult)
  | scanDone

variable {sys : RadioSys}

namespace State

/-- The scan queue. -/
def lane (s : State sys Ssid) : Lane (QueueKind.layout sys .scan) := s.poll.lanes .scan

/-- The vendor scan has been requested and its scan-done has not come. -/
def delivering (s : State sys Ssid) : Bool :=
  match s.pc with
  | .begin | .start => false
  | .scanning | .cancel _ | .discarding _ | .finish | .pending | .polling | .write | .returned =>
      !s.vendorDone

def scanResult (s : State sys Ssid) (vendor : VendorScanResult) : State sys Ssid :=
  { s with
    poll := match hostapElements vendor with
      | some ies => (s.poll.enqueueScanResult (scanMeta vendor) ies).1
      | none => s.poll
    wifi := callback s.wifi vendor
    vendor := s.vendor ++ [vendor] }

def scanDone (s : State sys Ssid) : State sys Ssid :=
  { s with
    poll := (s.poll.enqueueScanDone 0).1
    wifi := s.wifi.scanDone s.wifi.scan 0
    vendorDone := true }

def fail (s : State sys Ssid) (e : BackendError) : State sys Ssid :=
  { s with pc := .returned, returned := some (.error e) }

/-- The value of the call. -/
def outcome (build : Build Ssid) (s : State sys Ssid) : Outcome Ssid :=
  let written := writeResults build s.outputLen s.scans []
  { written, truncated := written.length < s.scans.length }

def advance (build : Build Ssid) (s : State sys Ssid) : Option (State sys Ssid) :=
  match s.pc with
  | .begin =>
      if !s.hasSupplicant then some (s.fail .notInitialized)
      else if s.poll.portReady && !s.poll.nativeScanActive then
        some { s with poll := s.poll.beginTransaction, pc := .start }
      else some (s.fail (.native .invalidResult))
  | .start =>
      if s.hasWifi then
        some { s with wifi := s.wifi.startScan maxScanResults s.timeoutMs, pc := .scanning }
      else some { s with pc := .cancel .notInitialized }
  | .scanning =>
      if s.wifi.caller = .idle then
        match s.wifi.returned with
        | some (.ok scans) => some { s with scans, pc := .finish }
        | some (.error e) => some { s with pc := .cancel (.wifi e) }
        | none => none
      else none
  | .cancel e =>
      some { s with
        poll := { s.poll with nativeScanActive := false, pc := .discard }
        pc := .discarding e }
  | .discarding e => if s.poll.pc = .idle then some (s.fail e) else none
  | .finish =>
      if s.poll.nativeScanActive then some (s.fail (.native .invalidResult))
      else some { s with pc := .pending }
  | .pending =>
      if s.lane.queue.hasPending then some { s with poll := s.poll.startPoll 64, pc := .polling }
      else some { s with pc := .write }
  | .polling =>
      if s.poll.pc = .idle then
        match s.poll.returned with
        | some (.ok _) => some { s with pc := .pending }
        | some (.error e) => some (s.fail (.native e))
        | none => none
      else none
  | .write => some { s with pc := .returned, returned := some (.ok (s.outcome build)) }
  | .returned => none

end State

/-- The steps of `Wifi::scan`. -/
def waits : ScanTransaction.Action → Bool
  | .ioctlReturns _ | .clock _ | .advance => true
  | .scan _ _ | .scanResult _ _ | .write _ | .scanDone _ _ => false

def step (build : Build Ssid) (s : State sys Ssid) : Action → Option (State sys Ssid)
  | .supplicant act =>
      if act.foreign || act.runner then (Poll.step s.poll act).map fun poll => { s with poll }
      else none
  | .waiter act =>
      if s.pc = .scanning ∧ waits act = true then
        (ScanTransaction.step s.wifi act).map fun wifi => { s with wifi }
      else none
  | .advance => s.advance build
  | .scanResult vendor => if s.delivering then some (s.scanResult vendor) else none
  | .scanDone => if s.delivering then some s.scanDone else none

end HisiRiscv.Wifi.NativeScan
