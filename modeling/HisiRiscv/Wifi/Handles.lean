/-
HisiRiscv.Wifi.Handles — no call of a Wi-Fi handle leaves an active flag set.

`SCAN_STATE.active` and `CONNECTION_STATE.active` keep a second call out
while one is running. Every way out of a call has to clear its flag; there
is one that does not, the WPA3 arm of `WpaWifi::connect` in a build without
`wifi-wpa3-personal`. It is never taken: `from_scan_with_security` asks the
same feature before it makes a network with WPA3 (`Selected.wpa3_enabled`),
and `connect` takes its network from nowhere else.

`Wifi::scan` and the three connection calls are the machines
`ScanTransaction` and `Connection`; `WpaWifi::scan` shares `SCAN_STATE` with
the former and is added here.

Translation notes. The callbacks may run at any time and bring any event,
also one that no request has asked for. A scan and a connection call may
overlap, which a single handle does not even allow; two scans, or two
connection calls, do not. `wifi-personal` compiles `WpaWifi` in.

  §1 Choosing a network.
  §2 `WpaWifi::scan`.
  §3 State and steps.
  §4 The invariant.
  §5 Main results.
-/
import HisiRiscv.Wifi.Connection
import HisiRiscv.Wifi.ScanTransaction

namespace HisiRiscv.Wifi.Handles

open HisiRiscv.Machine
open HisiRiscv.ByteBuffer (copyAt)
open HisiRiscv.Supplicant (Bssid maxScanResults)
open HisiRiscv.Wifi.Connection (Features PersonalNetwork OpenNetwork PersonalSecurity
  wpaKeyCapacity)

/-! ## §1 Choosing a network -/

def pairwiseCcmp : Int32 := 1

inductive SelectError where
  | invalidSsid
  | openNetwork
  | protectedNetwork
  | unsupportedSecurity (authMode : Int32)
  | invalidPassphrase
  deriving DecidableEq

/-- The security modes `from_scan_with_security` accepts for a scan result. -/
def supported (features : Features) (result : ScanResult) : PersonalSecurity → Bool
  | .wpa2 =>
      (result.authMode = authModeWpa2Psk || result.authMode = authModeWpa2Wpa3Transition) &&
        result.pairwise = pairwiseCcmp
  | .wpa3 _ =>
      features.wpa3Personal &&
        (result.authMode = authModeWpa3Sae || result.authMode = authModeWpa2Wpa3Transition) &&
        result.pairwise = pairwiseCcmp

def validPassphrase (passphrase : List UInt8) : Bool :=
  8 ≤ passphrase.length && passphrase.length ≤ 63 &&
    passphrase.all fun byte => !(byte < 32 || byte = 127)

/-- `PersonalNetwork::from_scan_with_security`. -/
def fromScanWithSecurity (features : Features) (result : ScanResult) (passphrase : List UInt8)
    (security : PersonalSecurity) : Except SelectError PersonalNetwork :=
  if result.ssidLen = 0 then .error .invalidSsid
  else if result.security ≠ .protected then .error .openNetwork
  else if !supported features result security then .error (.unsupportedSecurity result.authMode)
  else if !validPassphrase passphrase then .error .invalidPassphrase
  else
    .ok
      { ssid := result.ssid
        ssidLen := result.ssidLen
        bssid := result.bssid
        authMode :=
          match security with
          | .wpa2 => authModeWpa2Psk
          | .wpa3 _ => authModeWpa3Sae
        pairwise := result.pairwise
        channel := result.channel
        security
        key := copyAt (Vector.replicate _ 0) 0 passphrase
        keyLen := UInt8.ofNat passphrase.length }

/-- A network that `from_scan` or `from_scan_with_security` has made. -/
structure Selected (features : Features) where
  network : PersonalNetwork
  selected : ∃ result passphrase security,
    fromScanWithSecurity features result passphrase security = .ok network

section Selected

variable {features : Features} {result : ScanResult} {passphrase : List UInt8}
  {security : PersonalSecurity} {network : PersonalNetwork}

/-- What every selected network has been checked for. -/
theorem fromScanWithSecurity_ok
    (h : fromScanWithSecurity features result passphrase security = .ok network) :
    network.security = security ∧ network.ssidLen ≠ 0 ∧ supported features result security ∧
      network.keyLen.toNat = passphrase.length ∧ passphrase.length ≤ 63 := by
  unfold fromScanWithSecurity at h
  split at h
  · cases h
  · rename_i hssid
    split at h
    · cases h
    · split at h
      · cases h
      · rename_i hsupported
        split at h
        · cases h
        · rename_i hpassphrase
          cases h
          have hlen : passphrase.length ≤ 63 := by
            simp [validPassphrase] at hpassphrase
            exact hpassphrase.1.2
          refine ⟨rfl, hssid, by simpa using hsupported, ?_, hlen⟩
          simp [UInt8.toNat_ofNat']
          omega

/-- No build makes a WPA3 network that it cannot connect to. -/
theorem Selected.wpa3_enabled (selected : Selected features) {saePwe : Connection.SaePwe}
    (h : selected.network.security = .wpa3 saePwe) : features.wpa3Personal = true := by
  obtain ⟨result, passphrase, security, hselected⟩ := selected.selected
  obtain ⟨hsecurity, -, hsupported, -⟩ := fromScanWithSecurity_ok hselected
  rw [← hsecurity, h] at hsupported
  simp [supported] at hsupported
  exact hsupported.1.1

end Selected

/-! ## §2 `WpaWifi::scan` -/

/-- What the call makes of the answer of `uapi_wifi_get_scan_results`. -/
def apResults (outputLen : Nat) (vendor : List VendorWpaApInfo) : List ScanResult :=
  (vendor.take (min outputLen maxScanResults)).map ScanResult.ofApInfo

/-- The program counter of `WpaWifi::scan`. -/
inductive WpaScan where
  | idle
  /-- In `uapi_wifi_sta_scan`. -/
  | requested (outputLen : Nat) (timeoutMs : UInt32)
  /-- Before `started_at` is read. -/
  | started (outputLen : Nat) (timeoutMs : UInt32)
  /-- At the head of the loop. -/
  | polling (outputLen : Nat) (timeoutMs : UInt32) (startedAt : UInt64)
  /-- Not done, before the deadline is checked. -/
  | clock (outputLen : Nat) (timeoutMs : UInt32) (startedAt : UInt64)
  /-- Before the `finish_scan` of a failed call. -/
  | failing (e : Error)
  /-- Before the `finish_scan` that follows the loop. -/
  | finishing (outputLen : Nat)
  /-- In `uapi_wifi_get_scan_results`. -/
  | results (outputLen : Nat)
  deriving DecidableEq

inductive WpaAction where
  /-- `uapi_wifi_sta_scan` returns. -/
  | vendorReturns (result : Int32)
  | clock (now : UInt64)
  | advance
  /-- `uapi_wifi_get_scan_results` returns, with the results it reports. -/
  | vendorResults (result : Int32) (vendor : List VendorWpaApInfo)

/-! ## §3 State and steps -/

structure Profile extends Features where
  personal : Bool

structure State where
  scan : ScanTransaction.State
  wpaScan : WpaScan
  /-- What the last `WpaWifi::scan` returned. -/
  wpaReturned : Option (Except Error (List ScanResult))
  connection : Connection.State

def init : State where
  scan := ScanTransaction.init
  wpaScan := .idle
  wpaReturned := none
  connection := Connection.init

inductive Action (profile : Profile) where
  /-- The calls. -/
  | scan (outputLen : Nat) (timeoutMs : UInt32)
  | wpaScan (outputLen : Nat) (timeoutMs : UInt32)
  | connect (network : Selected profile.toFeatures) (timeoutMs : UInt32)
  | disconnect (timeoutMs : UInt32)
  | connectOpen (network : OpenNetwork) (timeoutMs : UInt32)
  /-- A further step of the call that is running. -/
  | scanStep (a : ScanTransaction.Action)
  | wpaStep (a : WpaAction)
  | connectionStep (a : Connection.Action)
  /-- The critical sections of the callbacks, and the slot one of them writes. -/
  | scanResult (scan : Nat) (vendor : VendorScanResult)
  | writeResult (k : Nat)
  | scanDone (scan : Nat) (raw : UInt8)
  | wpaScanDone
  | connectionEvent (i : Nat) (e : Connection.Event)

namespace State

/-- The first critical section of `WpaWifi::scan`. -/
def startWpaScan (s : State) (outputLen : Nat) (timeoutMs : UInt32) : State :=
  if s.scan.active then { s with wpaReturned := some (.error .busy) }
  else
    { s with
      scan := { s.scan with active := true, done := false }
      wpaScan := .requested outputLen timeoutMs
      wpaReturned := none }

/-- `finish_scan`. -/
def finishScan (s : State) : State := { s with scan := { s.scan with active := false } }

def wpaReturn (s : State) (result : Except Error (List ScanResult)) : State :=
  { s with wpaScan := .idle, wpaReturned := some result }

def wpaClock (s : State) (now : UInt64) : Option State :=
  match s.wpaScan with
  | .started outputLen timeoutMs => some { s with wpaScan := .polling outputLen timeoutMs now }
  | .clock outputLen timeoutMs startedAt =>
      some { s with
        wpaScan :=
          if timeoutMs.toUInt64 ≤ now - startedAt then .failing .timeout
          else .polling outputLen timeoutMs startedAt }
  | _ => none

def wpaAdvance (s : State) : Option State :=
  match s.wpaScan with
  | .polling outputLen timeoutMs startedAt =>
      some { s with
        wpaScan :=
          if s.scan.done then .finishing outputLen else .clock outputLen timeoutMs startedAt }
  | .failing e => some (s.finishScan.wpaReturn (.error e))
  | .finishing outputLen => some { s.finishScan with wpaScan := .results outputLen }
  | _ => none

def wpaStep (s : State) : WpaAction → Option State
  | .vendorReturns result =>
      match s.wpaScan with
      | .requested outputLen timeoutMs =>
          some { s with
            wpaScan :=
              if result ≠ 0 then .failing (.startScan (-1)) else .started outputLen timeoutMs }
      | _ => none
  | .clock now => s.wpaClock now
  | .advance => s.wpaAdvance
  | .vendorResults result vendor =>
      match s.wpaScan with
      | .results outputLen =>
          some (s.wpaReturn
            (if result ≠ 0 then .error (.scanFailed .failed) else .ok (apResults outputLen vendor)))
      | _ => none

end State

/-- A step of the call itself, neither the call nor a callback. -/
def ownScanStep : ScanTransaction.Action → Bool
  | .ioctlReturns _ | .clock _ | .advance => true
  | .scan _ _ | .scanResult _ _ | .write _ | .scanDone _ _ => false

def ownConnectionStep : Connection.Action → Bool
  | .selfTest _ | .pbkdf2 _ | .saePwe _ | .vendorReturns _ | .clock _ | .advance => true
  | .connect _ _ | .connectOpen _ _ | .disconnect _ | .event _ _ => false

def step (profile : Profile) (s : State) : Action profile → Option State
  | .scan outputLen timeoutMs =>
      if s.wpaScan = .idle then
        (ScanTransaction.step s.scan (.scan outputLen timeoutMs)).map fun scan =>
          { s with scan }
      else none
  | .wpaScan outputLen timeoutMs =>
      if profile.personal ∧ s.wpaScan = .idle ∧ s.scan.caller = .idle then
        some (s.startWpaScan outputLen timeoutMs)
      else none
  | .connect network timeoutMs =>
      if profile.personal then
        (Connection.step profile.toFeatures s.connection
          (.connect network.network timeoutMs)).map fun connection => { s with connection }
      else none
  | .disconnect timeoutMs =>
      if profile.personal then
        (Connection.step profile.toFeatures s.connection (.disconnect timeoutMs)).map
          fun connection => { s with connection }
      else none
  | .connectOpen network timeoutMs =>
      (Connection.step profile.toFeatures s.connection (.connectOpen network timeoutMs)).map
        fun connection => { s with connection }
  | .scanStep a =>
      if ownScanStep a then (ScanTransaction.step s.scan a).map fun scan => { s with scan }
      else none
  | .wpaStep a => s.wpaStep a
  | .connectionStep a =>
      if ownConnectionStep a then
        (Connection.step profile.toFeatures s.connection a).map fun connection =>
          { s with connection }
      else none
  | .scanResult scan vendor =>
      some { s with scan := (s.scan.deliver scan (.ofVendor vendor)).reserve scan (.ofVendor vendor) }
  | .writeResult k => (s.scan.write k).map fun scan => { s with scan }
  | .scanDone scan raw => some { s with scan := s.scan.scanDone scan raw }
  | .wpaScanDone =>
      some (if s.scan.active then { s with scan := { s.scan with done := true } } else s)
  | .connectionEvent i e =>
      some { s with connection := e.outcome.elim s.connection (s.connection.deliver i) }

/-! ## §4 The invariant -/

/-- `WpaWifi::scan` has set `SCAN_STATE.active`. -/
def WpaScan.scanning : WpaScan → Bool
  | .idle | .results _ => false
  | .requested _ _ | .started _ _ | .polling _ _ _ | .clock _ _ _ | .failing _ | .finishing _ =>
      true

def Busy {α : Type} (result : Except Error α) : Prop := result = .error .busy

/-- The flag of a connection call, and the errors the call can still return. -/
structure ConnectionOk (s : Connection.State) : Prop where
  active : s.active = true ↔ s.caller ≠ .idle
  finishing : ∀ result, s.caller = .finishing result → ¬Busy result
  returned : ∀ result ∈ s.returned, ¬Busy result

/-- The same for `Wifi::scan`; the flag is the scans' common one. -/
structure ScanOk (s : ScanTransaction.State) : Prop where
  finishing : ∀ e, s.caller = .finishing (.error e) → e ≠ .busy
  returned : ∀ result ∈ s.returned, ¬Busy result

structure Inv (s : State) : Prop where
  /-- the flag says that one of the scans is running -/
  scanning : s.scan.active = (s.scan.caller.scanning || s.wpaScan.scanning)
  /-- and it is only one of them -/
  exclusive : s.wpaScan ≠ .idle → s.scan.caller = .idle
  scan : ScanOk s.scan
  failing : ∀ e, s.wpaScan = .failing e → e ≠ .busy
  wpaReturned : ∀ result ∈ s.wpaReturned, ¬Busy result
  connection : ConnectionOk s.connection

theorem inv_init : Inv init where
  scanning := rfl
  exclusive h := absurd rfl h
  scan := ⟨fun _ h => (by cases h), fun _ h => (by cases h)⟩
  failing _ h := by cases h
  wpaReturned _ h := by cases h
  connection := ⟨by simp [init, Connection.init], fun _ h => (by cases h), fun _ h => (by cases h)⟩

/-! ### Connection calls -/

section Connection

variable {features : Features} {s t : Connection.State}

theorem ConnectionOk.start (h : ConnectionOk s) (hidle : s.caller = .idle)
    (call : Connection.Call) (timeoutMs : UInt32) {next : Connection.Caller}
    (hnext : next ≠ .idle) (hfinishing : ∀ result, next = .finishing result → ¬Busy result) :
    ConnectionOk (s.start call timeoutMs next) := by
  have hinactive : s.active = false := by
    simpa [hidle] using h.active
  rw [Connection.State.start, if_neg (by simp [hinactive])]
  exact ⟨by simp [hnext], hfinishing, fun _ hr => by cases hr⟩

/-- A call that stays on its way. -/
theorem ConnectionOk.move (h : ConnectionOk s) (hrunning : s.caller ≠ .idle)
    {caller : Connection.Caller} (hcaller : caller ≠ .idle)
    (hfinishing : ∀ result, caller = .finishing result → ¬Busy result) :
    ConnectionOk { s with caller := caller } :=
  ⟨by simp [hcaller, h.active, hrunning], hfinishing, h.returned⟩

theorem not_busy_result (call : Connection.Call) (outcome : Connection.ConnectionOutcome) :
    ¬Busy (call.result outcome) := by
  unfold Busy
  cases outcome <;> cases call <;> simp [Connection.Call.result]

/-- The calls of the machine: only networks of `Selected` reach `connect`. -/
theorem ConnectionOk.connect (h : ConnectionOk s) (network : Selected features)
    {timeoutMs : UInt32}
    (hs : Connection.step features s (.connect network.network timeoutMs) = some t) :
    ConnectionOk t := by
  obtain ⟨hidle, hs⟩ := Option.ite_none_right_eq_some.mp hs
  cases hs
  unfold Connection.State.connect
  cases hsecurity : network.network.security with
  | wpa2 =>
    dsimp only
    split
    · exact h.start hidle _ _ (by simp) (fun _ hr => by cases hr)
    · refine h.start hidle _ _ (by simp) ?_
      intro result hr
      cases hr
      simp [Busy]
  | wpa3 saePwe =>
    -- the return that skips `finish_connection` needs a network nobody makes
    simp only [network.wpa3_enabled hsecurity, if_true]
    exact h.start hidle _ _ (by simp) (fun _ hr => by cases hr)

theorem ConnectionOk.deliver (h : ConnectionOk s) (i : Nat)
    (outcome : Connection.ConnectionOutcome) : ConnectionOk (s.deliver i outcome) := by
  unfold Connection.State.deliver
  split
  · exact ⟨h.active, h.finishing, h.returned⟩
  · exact h

/-- A step of the call itself. -/
theorem ConnectionOk.step (h : ConnectionOk s) {a : Connection.Action}
    (hown : ownConnectionStep a = true) (hs : Connection.step features s a = some t) :
    ConnectionOk t := by
  cases a with
  | connect | connectOpen | disconnect | event => cases hown
  | selfTest error =>
    obtain ⟨hcaller, hs⟩ := Option.ite_none_right_eq_some.mp hs
    have hrunning : s.caller ≠ .idle := by simp [hcaller]
    cases error with
    | none =>
      cases hs
      exact h.move hrunning (by simp) (fun _ hr => by cases hr)
    | some code =>
      cases hs
      refine h.move hrunning (by simp) ?_
      intro result hr
      cases hr
      simp [Busy]
  | pbkdf2 pmk =>
    simp only [Connection.step] at hs
    split at hs
    · rename_i hcaller _
      have hrunning : s.caller ≠ .idle := by simp [hcaller]
      cases pmk with
      | ok pmk =>
        cases hs
        exact h.move hrunning (by simp) (fun _ hr => by cases hr)
      | error code =>
        cases hs
        refine h.move hrunning (by simp) ?_
        intro result hr
        cases hr
        simp [Busy]
    · cases hs
  | saePwe configured =>
    simp only [Connection.step] at hs
    split at hs
    · rename_i hcaller _
      have hrunning : s.caller ≠ .idle := by simp [hcaller]
      split at hs
      · cases hs
        refine h.move hrunning (by simp) ?_
        intro result hr
        cases hr
        simp [Busy]
      · cases hs
        exact h.move hrunning (by simp) (fun _ hr => by cases hr)
    · cases hs
  | vendorReturns result =>
    obtain ⟨hcaller, hs⟩ := Option.ite_none_right_eq_some.mp hs
    have hrunning : s.caller ≠ .idle := by simp [hcaller]
    cases hs
    split
    · refine h.move hrunning (by simp) ?_
      intro result hr
      cases hr
      unfold Connection.State.refused Busy
      cases s.call <;> simp
    · exact h.move hrunning (by simp) (fun _ hr => by cases hr)
  | clock now =>
    simp only [Connection.step, Connection.State.clock] at hs
    split at hs
    · rename_i hcaller
      cases hs
      exact h.move (by simp [hcaller]) (by simp) (fun _ hr => by cases hr)
    · rename_i startedAt hcaller
      split at hs
      · cases hs
        refine h.move (by simp [hcaller]) (by simp) ?_
        intro result hr
        cases hr
        simp [Busy]
      · cases hs
        exact h.move (by simp [hcaller]) (by simp) (fun _ hr => by cases hr)
    all_goals cases hs
  | advance =>
    simp only [Connection.step, Connection.State.advance] at hs
    split at hs
    · rename_i request hcaller
      cases hs
      exact ⟨by simp [h.active, hcaller], fun _ hr => (by cases hr), h.returned⟩
    · rename_i startedAt hcaller
      cases hs
      refine h.move (by simp [hcaller]) (by split <;> simp) ?_
      intro result hr
      split at hr
      · cases hr
        exact not_busy_result _ _
      · cases hr
    · rename_i result hcaller
      cases hs
      refine ⟨by simp, fun _ hr => (by cases hr), ?_⟩
      intro result' hr
      cases hr
      exact h.finishing result hcaller
    all_goals cases hs

end Connection

/-! ### Scans -/

section Scan

variable {s t : ScanTransaction.State}

/-- A call that stays on its way, or copies its results. -/
theorem ScanOk.move (h : ScanOk s) {caller : ScanTransaction.Caller}
    (hfinishing : ∀ e, caller = .finishing (.error e) → e ≠ .busy) :
    ScanOk { s with caller := caller } :=
  ⟨hfinishing, h.returned⟩

/-- What a step of `Wifi::scan` does to the flag: it keeps it while the call needs
it, and `finish_scan` clears it. -/
def Keeps (s t : ScanTransaction.State) : Prop :=
  s.caller ≠ .idle ∧
    ((t.active = s.active ∧ t.caller.scanning = s.caller.scanning) ∨
      (t.active = false ∧ t.caller.scanning = false))

theorem ScanOk.step (h : ScanOk s) {a : ScanTransaction.Action} (hown : ownScanStep a = true)
    (hs : ScanTransaction.step s a = some t) : ScanOk t ∧ Keeps s t := by
  cases a with
  | scan | scanResult | write | scanDone => cases hown
  | ioctlReturns result =>
    obtain ⟨hcaller, hs⟩ := Option.ite_none_right_eq_some.mp hs
    cases hs
    refine ⟨h.move ?_, by simp [hcaller], .inl ⟨rfl, ?_⟩⟩
    · intro e he
      split at he
      · cases he
        simp
      · cases he
    · rw [hcaller]
      split <;> rfl
  | clock now =>
    simp only [ScanTransaction.step, ScanTransaction.State.clock] at hs
    split at hs
    · rename_i hcaller
      cases hs
      exact ⟨h.move fun _ he => (by cases he), by simp [hcaller], .inl ⟨rfl, by rw [hcaller]; rfl⟩⟩
    · rename_i startedAt hcaller
      split at hs
      · cases hs
        refine ⟨h.move ?_, by simp [hcaller], .inl ⟨rfl, by rw [hcaller]; rfl⟩⟩
        intro e he
        cases he
        simp
      · cases hs
        exact ⟨h.move fun _ he => (by cases he), by simp [hcaller],
          .inl ⟨rfl, by rw [hcaller]; rfl⟩⟩
    all_goals cases hs
  | advance =>
    simp only [ScanTransaction.step, ScanTransaction.State.advance] at hs
    split at hs
    · rename_i startedAt hcaller
      cases hs
      refine ⟨h.move ?_, by simp [hcaller], .inl ⟨rfl, ?_⟩⟩
      · intro e he
        split at he
        · simp only [ScanTransaction.Caller.finishing.injEq, ScanTransaction.State.afterDone] at he
          split at he
          · cases he
            simp
          · cases he
        · cases he
      · rw [hcaller]
        split <;> rfl
    · rename_i e hcaller
      cases hs
      refine ⟨⟨fun _ he => (by cases he), ?_⟩, by simp [hcaller], .inr ⟨rfl, rfl⟩⟩
      intro result hr
      cases hr
      simpa [Busy] using h.finishing e hcaller
    · rename_i copyLen hcaller
      cases hs
      exact ⟨⟨fun _ he => (by cases he), h.returned⟩, by simp [hcaller], .inr ⟨rfl, rfl⟩⟩
    · rename_i copyLen output hcaller
      unfold ScanTransaction.State.copy at hs
      split at hs
      · split at hs
        · cases hs
          exact ⟨h.move fun _ he => (by cases he), by simp [hcaller],
            .inl ⟨rfl, by rw [hcaller]; rfl⟩⟩
        · cases hs
      · cases hs
        refine ⟨⟨fun _ he => (by cases he), ?_⟩, by simp [hcaller], .inl ⟨rfl, by rw [hcaller]; rfl⟩⟩
        intro result hr
        cases hr
        simp [Busy]
    all_goals cases hs

/-- A callback leaves the flag, and the call, alone. -/
theorem scanDone_frame (s : ScanTransaction.State) (scan : Nat) (raw : UInt8) :
    (s.scanDone scan raw).active = s.active ∧ (s.scanDone scan raw).caller = s.caller ∧
      (s.scanDone scan raw).returned = s.returned := by
  unfold ScanTransaction.State.scanDone
  split
  · exact ⟨rfl, rfl, rfl⟩
  · exact ⟨rfl, rfl, rfl⟩

theorem scanResult_frame (s : ScanTransaction.State) (scan : Nat) (result : ScanResult) :
    ((s.deliver scan result).reserve scan result).active = s.active ∧
      ((s.deliver scan result).reserve scan result).caller = s.caller ∧
      ((s.deliver scan result).reserve scan result).returned = s.returned := by
  unfold ScanTransaction.State.reserve ScanTransaction.State.deliver
  split <;> split <;> exact ⟨rfl, rfl, rfl⟩

end Scan

/-! ### All steps -/

section Steps

variable {profile : Profile} {s t : State}

theorem Inv.connection_step (h : Inv s) {connection : Connection.State}
    (hconnection : ConnectionOk connection) : Inv { s with connection := connection } :=
  ⟨h.scanning, h.exclusive, h.scan, h.failing, h.wpaReturned, hconnection⟩

/-- The flag and the call of `Wifi::scan` are as before. -/
theorem Inv.scan_frame (h : Inv s) {scan : ScanTransaction.State}
    (hframe : scan.active = s.scan.active ∧ scan.caller = s.scan.caller ∧
      scan.returned = s.scan.returned) : Inv { s with scan := scan } := by
  obtain ⟨hactive, hcaller, hreturned⟩ := hframe
  refine ⟨?_, ?_, ⟨?_, ?_⟩, h.failing, h.wpaReturned, h.connection⟩
  · simpa [hactive, hcaller] using h.scanning
  · simpa [hcaller] using h.exclusive
  · simpa [hcaller] using h.scan.finishing
  · simpa [hreturned] using h.scan.returned

/-- While `Wifi::scan` runs, `WpaWifi::scan` does not. -/
theorem Inv.wpaScan_idle (h : Inv s) (hcaller : s.scan.caller ≠ .idle) : s.wpaScan = .idle := by
  by_contra hwpa
  exact hcaller (h.exclusive hwpa)

theorem Inv.scan_step (h : Inv s) {scan : ScanTransaction.State} (hscan : ScanOk scan)
    (hkeeps : Keeps s.scan scan) : Inv { s with scan := scan } := by
  have hidle := h.wpaScan_idle hkeeps.1
  have hscanning := h.scanning
  simp only [hidle, WpaScan.scanning, Bool.or_false] at hscanning
  refine ⟨?_, fun hwpa => absurd hidle hwpa, hscan, h.failing, h.wpaReturned, h.connection⟩
  simp only [hidle, WpaScan.scanning, Bool.or_false]
  obtain ⟨hactive, hcaller⟩ | ⟨hactive, hcaller⟩ := hkeeps.2
  · rw [hactive, hcaller, hscanning]
  · rw [hactive, hcaller]

/-- A call of `Wifi::scan` finds the flag clear. -/
theorem Inv.startScan (h : Inv s) (hwpa : s.wpaScan = .idle) (hcaller : s.scan.caller = .idle)
    (outputLen : Nat) (timeoutMs : UInt32) :
    Inv { s with scan := s.scan.startScan outputLen timeoutMs } := by
  have hinactive : s.scan.active = false := by
    simpa [hwpa, hcaller, WpaScan.scanning, ScanTransaction.Caller.scanning] using h.scanning
  rw [ScanTransaction.State.startScan, if_neg (by simp [hinactive])]
  refine ⟨?_, fun hrunning => absurd hwpa hrunning, ⟨?_, ?_⟩, h.failing, h.wpaReturned,
    h.connection⟩
  · simp [ScanTransaction.Caller.scanning]
  · intro e he
    cases he
  · intro result hr
    cases hr

theorem Inv.startWpaScan (h : Inv s) (hwpa : s.wpaScan = .idle) (hcaller : s.scan.caller = .idle)
    (outputLen : Nat) (timeoutMs : UInt32) : Inv (s.startWpaScan outputLen timeoutMs) := by
  have hinactive : s.scan.active = false := by
    simpa [hwpa, hcaller, WpaScan.scanning, ScanTransaction.Caller.scanning] using h.scanning
  rw [State.startWpaScan, if_neg (by simp [hinactive])]
  refine ⟨?_, fun _ => hcaller, ⟨h.scan.finishing, h.scan.returned⟩, ?_, ?_, h.connection⟩
  · simp [WpaScan.scanning]
  · intro e he
    cases he
  · intro result hr
    cases hr

/-- `WpaWifi::scan` stays on its way. -/
theorem Inv.wpaMove (h : Inv s) (hrunning : s.wpaScan ≠ .idle) {wpaScan : WpaScan}
    (hscanning : wpaScan.scanning = s.wpaScan.scanning)
    (hfailing : ∀ e, wpaScan = .failing e → e ≠ .busy) : Inv { s with wpaScan := wpaScan } :=
  ⟨by simpa [hscanning] using h.scanning, fun _ => h.exclusive hrunning, h.scan, hfailing,
    h.wpaReturned, h.connection⟩

/-- `finish_scan` in `WpaWifi::scan`. -/
theorem Inv.wpaFinish (h : Inv s) (hrunning : s.wpaScan ≠ .idle) {wpaScan : WpaScan}
    (hscanning : wpaScan.scanning = false) (hfailing : ∀ e, wpaScan = .failing e → e ≠ .busy)
    {wpaReturned : Option (Except Error (List ScanResult))}
    (hreturned : ∀ result ∈ wpaReturned, ¬Busy result) :
    Inv { s.finishScan with wpaScan := wpaScan, wpaReturned := wpaReturned } := by
  have hcaller := h.exclusive hrunning
  refine ⟨?_, fun _ => hcaller, ⟨h.scan.finishing, h.scan.returned⟩, hfailing, hreturned,
    h.connection⟩
  simp [State.finishScan, hscanning, hcaller, ScanTransaction.Caller.scanning]

theorem Inv.wpaStep (h : Inv s) {a : WpaAction} (hs : s.wpaStep a = some t) : Inv t := by
  cases a with
  | vendorReturns result =>
    simp only [State.wpaStep] at hs
    split at hs
    · rename_i outputLen timeoutMs hwpa
      cases hs
      refine h.wpaMove (by simp [hwpa]) ?_ ?_
      · rw [hwpa]
        split <;> rfl
      · intro e he
        split at he
        · cases he
          simp
        · cases he
    · cases hs
  | clock now =>
    simp only [State.wpaStep, State.wpaClock] at hs
    split at hs
    · rename_i hwpa
      cases hs
      refine h.wpaMove (by simp [hwpa]) (by rw [hwpa]; rfl) ?_
      intro e he
      cases he
    · rename_i hwpa
      cases hs
      refine h.wpaMove (by simp [hwpa]) ?_ ?_
      · rw [hwpa]
        split <;> rfl
      · intro e he
        split at he
        · cases he
          simp
        · cases he
    · cases hs
  | advance =>
    simp only [State.wpaStep, State.wpaAdvance] at hs
    split at hs
    · rename_i hwpa
      cases hs
      refine h.wpaMove (by simp [hwpa]) ?_ ?_
      · rw [hwpa]
        split <;> rfl
      · intro e he
        split at he <;> cases he
    · rename_i e hwpa
      cases hs
      refine h.wpaFinish (by simp [hwpa]) rfl ?_ ?_
      · intro e' he
        cases he
      · intro result hr
        cases hr
        simpa [Busy] using h.failing e hwpa
    · rename_i outputLen hwpa
      cases hs
      refine h.wpaFinish (by simp [hwpa]) rfl ?_ h.wpaReturned
      intro e he
      cases he
    · cases hs
  | vendorResults result vendor =>
    simp only [State.wpaStep] at hs
    split at hs
    · rename_i outputLen hwpa
      cases hs
      have hcaller := h.exclusive (by simp [hwpa])
      have hscanning := h.scanning
      rw [hwpa] at hscanning
      refine ⟨hscanning, fun _ => hcaller, h.scan, ?_, ?_, h.connection⟩
      · intro e he
        cases he
      · intro result' hr
        cases hr
        unfold Busy
        split <;> simp
    · cases hs

theorem inv_step (h : Inv s) {a : Action profile} (hs : step profile s a = some t) : Inv t := by
  cases a with
  | scan outputLen timeoutMs =>
    obtain ⟨hwpa, hs⟩ := Option.ite_none_right_eq_some.mp hs
    obtain ⟨scan, hscan, rfl⟩ := Option.map_eq_some_iff.mp hs
    obtain ⟨hcaller, hscan⟩ := Option.ite_none_right_eq_some.mp hscan
    cases hscan
    exact h.startScan hwpa hcaller outputLen timeoutMs
  | wpaScan outputLen timeoutMs =>
    obtain ⟨⟨-, hwpa, hcaller⟩, hs⟩ := Option.ite_none_right_eq_some.mp hs
    cases hs
    exact h.startWpaScan hwpa hcaller outputLen timeoutMs
  | connect network timeoutMs =>
    obtain ⟨-, hs⟩ := Option.ite_none_right_eq_some.mp hs
    obtain ⟨connection, hconnection, rfl⟩ := Option.map_eq_some_iff.mp hs
    exact h.connection_step (h.connection.connect network hconnection)
  | disconnect timeoutMs =>
    obtain ⟨-, hs⟩ := Option.ite_none_right_eq_some.mp hs
    obtain ⟨connection, hconnection, rfl⟩ := Option.map_eq_some_iff.mp hs
    obtain ⟨hidle, hconnection⟩ := Option.ite_none_right_eq_some.mp hconnection
    cases hconnection
    refine h.connection_step (h.connection.start hidle _ _ (by simp) ?_)
    intro result hr
    cases hr
  | connectOpen network timeoutMs =>
    obtain ⟨connection, hconnection, rfl⟩ := Option.map_eq_some_iff.mp hs
    obtain ⟨hidle, hconnection⟩ := Option.ite_none_right_eq_some.mp hconnection
    cases hconnection
    refine h.connection_step (h.connection.start hidle _ _ (by simp) ?_)
    intro result hr
    cases hr
  | scanStep a =>
    obtain ⟨hown, hs⟩ := Option.ite_none_right_eq_some.mp hs
    obtain ⟨scan, hscan, rfl⟩ := Option.map_eq_some_iff.mp hs
    obtain ⟨hok, hkeeps⟩ := h.scan.step hown hscan
    exact h.scan_step hok hkeeps
  | wpaStep a => exact h.wpaStep hs
  | connectionStep a =>
    obtain ⟨hown, hs⟩ := Option.ite_none_right_eq_some.mp hs
    obtain ⟨connection, hconnection, rfl⟩ := Option.map_eq_some_iff.mp hs
    exact h.connection_step (h.connection.step hown hconnection)
  | scanResult scan vendor =>
    cases hs
    exact h.scan_frame (scanResult_frame _ _ _)
  | writeResult k =>
    obtain ⟨scan, hscan, rfl⟩ := Option.map_eq_some_iff.mp hs
    obtain ⟨w, -, rfl⟩ := Option.map_eq_some_iff.mp hscan
    exact h.scan_frame ⟨rfl, rfl, rfl⟩
  | scanDone scan raw =>
    cases hs
    exact h.scan_frame (scanDone_frame _ _ _)
  | wpaScanDone =>
    cases hs
    split
    · exact h.scan_frame ⟨rfl, rfl, rfl⟩
    · exact h
  | connectionEvent i e =>
    cases hs
    cases e.outcome with
    | none => exact h
    | some outcome => exact h.connection_step (h.connection.deliver i outcome)

end Steps

/-! ## §5 Main results -/

/-- No call is in progress. -/
def State.Idle (s : State) : Prop :=
  s.scan.caller = .idle ∧ s.wpaScan = .idle ∧ s.connection.caller = .idle

/-- Between calls both flags are clear, and no call has been turned away. -/
theorem handles_never_wedge (profile : Profile) {s : State}
    (h : Reachable (step profile) init s) :
    (s.Idle → s.scan.active = false ∧ s.connection.active = false) ∧
      s.scan.returned ≠ some (.error .busy) ∧ s.wpaReturned ≠ some (.error .busy) ∧
      s.connection.returned ≠ some (.error .busy) := by
  have hinv : Inv s := h.invariant inv_init fun _ _ _ hI hs => inv_step hI hs
  refine ⟨?_, ?_, ?_, ?_⟩
  · rintro ⟨hscan, hwpa, hconnection⟩
    have hscanning := hinv.scanning
    rw [hscan, hwpa] at hscanning
    exact ⟨hscanning, by simpa [hconnection] using hinv.connection.active⟩
  · intro hr
    exact hinv.scan.returned _ hr rfl
  · intro hr
    exact hinv.wpaReturned _ hr rfl
  · intro hr
    exact hinv.connection.returned _ hr rfl

/-! ### A failed WPA3 connect and a failed scan -/

def allPersonal : Profile := ⟨⟨true, true⟩, true⟩

def wpa3Result : ScanResult :=
  { ScanResult.empty with
    ssidLen := 4, security := .protected, authMode := authModeWpa3Sae, pairwise := pairwiseCcmp
    channel := 6 }

def wpa3Network : Selected allPersonal.toFeatures where
  network :=
    { ssid := wpa3Result.ssid
      ssidLen := 4
      bssid := wpa3Result.bssid
      authMode := authModeWpa3Sae
      pairwise := pairwiseCcmp
      channel := 6
      security := .wpa3 .both
      key := copyAt (Vector.replicate _ 0) 0 (List.replicate 8 0x61)
      keyLen := 8 }
  selected := ⟨wpa3Result, List.replicate 8 0x61, .wpa3 .both, by decide +kernel⟩

/-- The vendor refuses the SAE policy, and then a scan. -/
def failedCalls : List (Action allPersonal) :=
  [.connect wpa3Network 1000, .connectionStep (.saePwe 5), .connectionEvent 0 (.disconnect 1),
    .connectionStep .advance, .wpaScan 4 1000, .wpaStep (.vendorReturns 1), .wpaStep .advance]

theorem run_failedCalls :
    (run (step allPersonal) init failedCalls).map
      (fun s => (s.scan.caller, s.wpaScan, s.connection.caller)) = some (.idle, .idle, .idle) := by
  decide +kernel

theorem handles_never_wedge_failedCalls :
    ∃ s, run (step allPersonal) init failedCalls = some s ∧ s.Idle ∧
      s.scan.active = false ∧ s.connection.active = false := by
  obtain ⟨s, hrun, hs⟩ := Option.map_eq_some_iff.mp run_failedCalls
  have hidle : s.Idle := by
    simp only [Prod.mk.injEq] at hs
    exact hs
  have hflags := (handles_never_wedge allPersonal ⟨failedCalls, Steps.of_run hrun⟩).1 hidle
  exact ⟨s, hrun, hidle, hflags⟩

end HisiRiscv.Wifi.Handles
