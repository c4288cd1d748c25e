/-
HisiRiscv.Wifi.Connection — the connect calls against the vendor's events.

`WpaWifi::connect`, `WpaWifi::disconnect` and `Wifi::connect_open` share
`CONNECTION_STATE` with the callbacks `scan_event` and `wpa_event`. A call
sets `active`, prepares and issues one vendor request, and polls `done`
until it is set or the deadline passes; a callback stores the outcome of
its event while `active` is set. One step is one critical section, one
reading of the clock, one answer of the crypto code or of the vendor.
Callbacks run between any two steps of the call, also before the request
is issued.

Translation notes. There is one caller, which makes any of the three calls
in any order. The error codes of the self test and of PBKDF2, the PMK, and
the results of the vendor functions are part of the action. Request
fields that stay zero are left out. An event without payload or of the
wrong length does nothing and is no action.

History variables: `requests` lists the vendor requests in the order they
were issued, and an event names the request it is produced for; `own` is
the request of the current call; `cause` is the event last stored before
the call read `done`.

  §1 Networks and requests.
  §2 Events and outcomes.
  §3 State and steps.
  §4 What belongs to a call.
  §5 The invariant.
  §6 Main results.
-/
import HisiRiscv.Lib.Machine
import HisiRiscv.Wifi.ScanResult

namespace HisiRiscv.Wifi.Connection

open HisiRiscv.Machine
open HisiRiscv.ByteBuffer
open HisiRiscv.Supplicant (Bssid)

/-! ## §1 Networks and requests -/

def wpaKeyCapacity : Nat := 64

inductive SaePwe where
  | huntAndPeck
  | hashToElement
  | both
  deriving DecidableEq

inductive PersonalSecurity where
  | wpa2
  | wpa3 (saePwe : SaePwe)
  deriving DecidableEq

structure PersonalNetwork where
  ssid : Vector UInt8 ssidCapacity
  ssidLen : UInt8
  bssid : Bssid
  authMode : Int32
  pairwise : Int32
  channel : UInt8
  security : PersonalSecurity
  key : Vector UInt8 (wpaKeyCapacity + 1)
  keyLen : UInt8
  deriving DecidableEq

structure OpenNetwork where
  ssid : Vector UInt8 ssidCapacity
  ssidLen : UInt8
  bssid : Bssid
  frequencyMhz : UInt16
  deriving DecidableEq

structure VendorWpaAssoc where
  ssid : Vector UInt8 (ssidCapacity + 1)
  authMode : UInt8
  key : Vector UInt8 (wpaKeyCapacity + 1)
  bssid : Bssid
  pairwise : UInt8
  channel : UInt8
  deriving DecidableEq

structure VendorAssociateParams where
  bssid : Bssid
  ssid : Vector UInt8 ssidCapacity
  frequencyMhz : UInt32
  ssidLen : UInt32
  deriving DecidableEq

/-- A call of `uapi_wifi_sta_connect`, `uapi_ioctl_assoc` or `uapi_wifi_sta_disconnect`. -/
inductive Request where
  | staConnect (request : VendorWpaAssoc)
  | assoc (params : VendorAssociateParams)
  | staDisconnect
  deriving DecidableEq

/-- The BSS a request asks the vendor to associate with. -/
def Request.bssid : Request → Option Bssid
  | .staConnect request => some request.bssid
  | .assoc params => some params.bssid
  | .staDisconnect => none

def hexDigit (nibble : UInt8) : UInt8 := if nibble < 10 then 48 + nibble else 87 + nibble

def encodeHex (input : List UInt8) : List UInt8 :=
  input.flatMap fun (byte : UInt8) => [hexDigit (byte >>> 4), hexDigit (byte &&& 0x0f)]

/-- The request of `connect`, with the key already in place. -/
def wpaRequest (network : PersonalNetwork) (key : Vector UInt8 (wpaKeyCapacity + 1)) : Request :=
  .staConnect
    { ssid := copyAt (Vector.replicate _ 0) 0 (network.ssid.toList.take network.ssidLen.toNat)
      authMode := network.authMode.toUInt32.toUInt8
      key
      bssid := network.bssid
      pairwise := network.pairwise.toUInt32.toUInt8
      channel := network.channel }

/-- WPA2 sends the PMK in hexadecimal. -/
def wpa2Request (network : PersonalNetwork) (pmk : Vector UInt8 32) : Request :=
  wpaRequest network (copyAt (Vector.replicate _ 0) 0 (encodeHex pmk.toList))

/-- WPA3 sends the passphrase. -/
def wpa3Request (network : PersonalNetwork) : Request :=
  wpaRequest network
    (copyAt (Vector.replicate _ 0) 0 (network.key.toList.take network.keyLen.toNat))

def openRequest (network : OpenNetwork) : Request :=
  .assoc
    { bssid := network.bssid
      ssid := network.ssid
      frequencyMhz := network.frequencyMhz.toUInt32
      ssidLen := network.ssidLen.toUInt32 }

def saePweCode : SaePwe → Int32
  | .huntAndPeck => 1
  | .hashToElement => 2
  | .both => 3

/-! ## §2 Events and outcomes -/

inductive ConnectionOutcome where
  | pending
  | connected (info : ConnectionInfo)
  | failed (status : UInt16)
  | disconnected (reason : UInt16)
  deriving DecidableEq

/-- The link an outcome reports. -/
def ConnectionOutcome.link : ConnectionOutcome → Option ConnectionInfo
  | .connected info => some info
  | .pending | .failed _ | .disconnected _ => none

inductive Event where
  /-- `EVENT_CONNECT_RESULT` and `EVENT_DISCONNECT` of `scan_event`. -/
  | connectResult (status : UInt16) (bssid : Bssid) (frequencyMhz : UInt16)
  | disconnect (reason : UInt16)
  /-- An event of the vendor supplicant. -/
  | wpa (kind : UInt8) (info : Vector UInt8 172)
  deriving DecidableEq

/-- The outcome an event stores, if any. -/
def Event.outcome : Event → Option ConnectionOutcome
  | .connectResult status bssid frequencyMhz =>
      some (if status = 0 then .connected ⟨bssid, frequencyMhz⟩ else .failed status)
  | .disconnect reason => some (.disconnected reason)
  | .wpa kind info =>
      if kind = 2 then
        some (.connected ⟨#v[info[33], info[34], info[35], info[36], info[37], info[38]], 0⟩)
      else if kind = 3 then
        some (.disconnected (UInt16.ofNat (info[6].toNat + 256 * info[7].toNat)))
      else none

/-- The calls, with the network they are for. -/
inductive Call where
  | connect (network : PersonalNetwork)
  | connectOpen (network : OpenNetwork)
  | disconnect
  deriving DecidableEq

def Call.bssid : Call → Option Bssid
  | .connect network => some network.bssid
  | .connectOpen network => some network.bssid
  | .disconnect => none

/-- The value of a call: `connect` returns a link, `disconnect` nothing. -/
inductive Reply where
  | info (info : ConnectionInfo)
  | unit
  deriving DecidableEq

/-- What a call returns when it has read an outcome. -/
def Call.result (call : Call) (outcome : ConnectionOutcome) : Except Error Reply :=
  match outcome with
  | .pending => .error .timeout
  | .failed status => .error (.connectFailed status)
  | .connected info =>
      match call with
      | .connect network => .ok (.info { info with frequencyMhz := channelToFrequency network.channel })
      | .connectOpen _ => .ok (.info info)
      | .disconnect => .error .timeout
  | .disconnected reason =>
      match call with
      | .connect _ | .connectOpen _ => .error (.disconnected reason)
      | .disconnect => .ok .unit

/-! ## §3 State and steps -/

/-- The cargo features `wifi-wpa2-personal` and `wifi-wpa3-personal`. -/
structure Features where
  wpa2Personal : Bool
  wpa3Personal : Bool

/-- The program counter of the caller. -/
inductive Caller where
  | idle
  /-- In `ws63_security_self_test`. -/
  | selfTest
  /-- In `derive_hardware_pbkdf2`. -/
  | pbkdf2
  /-- In `wifi_sta_set_sae_pwe`. -/
  | saePwe (pwe : Int32)
  /-- Before the vendor request. -/
  | issue (request : Request)
  /-- In the vendor request. -/
  | requested
  /-- Before `started_at` is read. -/
  | started
  /-- At the head of the loop. -/
  | polling (startedAt : UInt64)
  /-- Not done, before the deadline is checked. -/
  | clock (startedAt : UInt64)
  /-- Before `finish_connection`. -/
  | finishing (result : Except Error Reply)
  deriving DecidableEq

structure State where
  active : Bool
  done : Bool
  outcome : ConnectionOutcome
  caller : Caller
  call : Call
  timeoutMs : UInt32
  /-- What the last call returned. -/
  returned : Option (Except Error Reply)
  requests : List Request
  own : Option Nat
  cause : Option (Nat × ConnectionOutcome)

def init : State where
  active := false
  done := false
  outcome := .pending
  caller := .idle
  call := .disconnect
  timeoutMs := 0
  returned := none
  requests := []
  own := none
  cause := none

inductive Action where
  | connect (network : PersonalNetwork) (timeoutMs : UInt32)
  | connectOpen (network : OpenNetwork) (timeoutMs : UInt32)
  | disconnect (timeoutMs : UInt32)
  /-- The crypto self test returns, with an error code if it fails. -/
  | selfTest (error : Option UInt32)
  | pbkdf2 (pmk : Except UInt32 (Vector UInt8 32))
  | saePwe (configured : Int32)
  | vendorReturns (result : Int32)
  /-- The caller reads `monotonic_ms`. -/
  | clock (now : UInt64)
  /-- A step of the caller that needs no answer. -/
  | advance
  /-- The critical section of a callback, for an event of request number `i`. -/
  | event (i : Nat) (e : Event)

/-- The call has not yet read `done`. -/
def Caller.listening : Caller → Bool
  | .idle | .finishing _ => false
  | .selfTest | .pbkdf2 | .saePwe _ | .issue _ | .requested | .started | .polling _ | .clock _ =>
      true

namespace State

/-- The first critical section of a call; `next` is where it goes from there. -/
def start (s : State) (call : Call) (timeoutMs : UInt32) (next : Caller) : State :=
  if s.active then { s with returned := some (.error .busy) }
  else
    { s with
      active := true
      done := false
      outcome := .pending
      caller := next
      call
      timeoutMs
      returned := none
      own := none
      cause := none }

def connect (features : Features) (s : State) (network : PersonalNetwork) (timeoutMs : UInt32) :
    State :=
  let unsupported : Except Error Reply := .error (.unsupportedSecurity network.authMode)
  match network.security with
  | .wpa2 =>
      s.start (.connect network) timeoutMs
        (if features.wpa2Personal then .selfTest else .finishing unsupported)
  | .wpa3 saePwe =>
      if features.wpa3Personal then
        s.start (.connect network) timeoutMs (.saePwe (saePweCode saePwe))
      -- without the feature this return skips `finish_connection`
      else
        let started := s.start (.connect network) timeoutMs .idle
        if s.active then started else { started with returned := some unsupported }

/-- The critical section of a callback. -/
def deliver (s : State) (i : Nat) (outcome : ConnectionOutcome) : State :=
  if s.active then
    { s with
      outcome
      done := true
      cause := if s.caller.listening then some (i, outcome) else s.cause }
  else s

/-- The answer of the crypto code or of the vendor, before the request. -/
def answer (s : State) (next : Except Error Request) : State :=
  match next with
  | .ok request => { s with caller := .issue request }
  | .error e => { s with caller := .finishing (.error e) }

/-- The error of a request the vendor refuses. -/
def refused (s : State) (result : Int32) : Error :=
  match s.call with
  | .connect _ | .connectOpen _ => .startConnect result
  | .disconnect => .startDisconnect result

def clock (s : State) (now : UInt64) : Option State :=
  match s.caller with
  | .started => some { s with caller := .polling now }
  | .clock startedAt =>
      if s.timeoutMs.toUInt64 ≤ now - startedAt then
        some { s with caller := .finishing (.error .timeout) }
      else some { s with caller := .polling startedAt }
  | .idle | .selfTest | .pbkdf2 | .saePwe _ | .issue _ | .requested | .polling _ | .finishing _ =>
      none

def advance (s : State) : Option State :=
  match s.caller with
  | .issue request =>
      some { s with
        caller := .requested
        requests := s.requests ++ [request]
        own := some s.requests.length }
  | .polling startedAt =>
      some { s with
        caller := if s.done then .finishing (s.call.result s.outcome) else .clock startedAt }
  | .finishing result => some { s with active := false, caller := .idle, returned := some result }
  | .idle | .selfTest | .pbkdf2 | .saePwe _ | .requested | .started | .clock _ => none

end State

/-- No event precedes the request it is produced for. -/
def step (features : Features) (s : State) : Action → Option State
  | .connect network timeoutMs =>
      if s.caller = .idle then some (s.connect features network timeoutMs) else none
  | .connectOpen network timeoutMs =>
      if s.caller = .idle then
        some (s.start (.connectOpen network) timeoutMs (.issue (openRequest network)))
      else none
  | .disconnect timeoutMs =>
      if s.caller = .idle then some (s.start .disconnect timeoutMs (.issue .staDisconnect))
      else none
  | .selfTest error =>
      if s.caller = .selfTest then
        match error with
        | some code => some (s.answer (.error (.crypto code)))
        | none => some { s with caller := .pbkdf2 }
      else none
  | .pbkdf2 pmk =>
      match s.caller, s.call with
      | .pbkdf2, .connect network =>
          match pmk with
          | .error code => some (s.answer (.error (.crypto code)))
          | .ok pmk => some (s.answer (.ok (wpa2Request network pmk)))
      | _, _ => none
  | .saePwe configured =>
      match s.caller, s.call with
      | .saePwe _, .connect network =>
          if configured ≠ 0 then some (s.answer (.error (.configureSecurity configured)))
          else some (s.answer (.ok (wpa3Request network)))
      | _, _ => none
  | .vendorReturns result =>
      if s.caller = .requested then
        some { s with
          caller := if result ≠ 0 then .finishing (.error (s.refused result)) else .started }
      else none
  | .clock now => s.clock now
  | .advance => s.advance
  | .event i e =>
      if i < s.requests.length then some (e.outcome.elim s (s.deliver i)) else none

/-! ## §4 What belongs to a call -/

/-- The result is due to an event of the call's own request: a link is one to
the network of the call, reported by a successful result, and a failure or
disconnect is the one that event reports. -/
def State.Belongs (s : State) : Except Error Reply → Prop
  | .ok (.info info) =>
      ∃ (i : Nat) (reported : ConnectionInfo), s.own = some i ∧
        s.cause = some (i, .connected reported) ∧ info.bssid = reported.bssid ∧
        s.call.bssid = some info.bssid
  | .error (.connectFailed status) => ∃ i, s.own = some i ∧ s.cause = some (i, .failed status)
  | .error (.disconnected reason) => ∃ i, s.own = some i ∧ s.cause = some (i, .disconnected reason)
  | _ => True

/-- The vendor associates with the BSS the request names, and with no other. -/
def Pinned (s : State) : Action → Prop
  | .event i e =>
      ∀ outcome ∈ e.outcome, ∀ info ∈ outcome.link,
        s.requests[i]?.bind Request.bssid = some info.bssid
  | _ => True

instance decidablePinned (s : State) : (a : Action) → Decidable (Pinned s a)
  | .event i e =>
      inferInstanceAs (Decidable (∀ outcome ∈ e.outcome, ∀ info ∈ outcome.link,
        s.requests[i]?.bind Request.bssid = some info.bssid))
  | .connect _ _ | .connectOpen _ _ | .disconnect _ | .selfTest _ | .pbkdf2 _ | .saePwe _
  | .vendorReturns _ | .clock _ | .advance => .isTrue trivial

/-- The outcomes a call passes on as a link, a failure or a disconnect. -/
def Call.reports (call : Call) (outcome : ConnectionOutcome) : Bool :=
  match outcome, call with
  | .failed _, _ => true
  | .connected _, .connect _ | .connected _, .connectOpen _ => true
  | .disconnected _, .connect _ | .disconnected _, .connectOpen _ => true
  | .pending, _ | .connected _, .disconnect | .disconnected _, .disconnect => false

/-- Until a call has read `done`, an event it would report is one of its own
request. -/
def OwnEvents (s : State) : Action → Prop
  | .event i e =>
      s.caller.listening = true → ∀ outcome ∈ e.outcome, s.call.reports outcome = true →
        s.own = some i
  | _ => True

instance decidableOwnEvents (s : State) : (a : Action) → Decidable (OwnEvents s a)
  | .event i e =>
      inferInstanceAs (Decidable (s.caller.listening = true →
        ∀ outcome ∈ e.outcome, s.call.reports outcome = true → s.own = some i))
  | .connect _ _ | .connectOpen _ _ | .disconnect _ | .selfTest _ | .pbkdf2 _ | .saePwe _
  | .vendorReturns _ | .clock _ | .advance => .isTrue trivial

/-! ## §5 The invariant -/

/-- The request has not been issued. -/
def Caller.preparing : Caller → Bool
  | .selfTest | .pbkdf2 | .saePwe _ | .issue _ => true
  | .idle | .requested | .started | .polling _ | .clock _ | .finishing _ => false

structure Inv (s : State) : Prop where
  preparing : s.caller.preparing = true → s.own = none
  /-- the request is for the network of the call -/
  issue : ∀ request, s.caller = .issue request → request.bssid = s.call.bssid
  own : ∀ i, s.own = some i → s.requests[i]?.bind Request.bssid = s.call.bssid
  /-- what the call will read is due to its own request -/
  stored : s.caller.listening = true → s.done = true → s.Belongs (s.call.result s.outcome)
  finishing : ∀ result, s.caller = .finishing result → s.Belongs result
  returned : ∀ result, s.returned = some result → s.caller = .idle ∧ s.Belongs result

theorem inv_init : Inv init where
  preparing := nofun
  issue := nofun
  own := nofun
  stored := nofun
  finishing := nofun
  returned := nofun

/-- An outcome that a call does not report leads to a result that says nothing. -/
theorem belongs_of_not_reports (s : State) {call : Call} {outcome : ConnectionOutcome}
    (h : call.reports outcome = false) : s.Belongs (call.result outcome) := by
  cases outcome with
  | pending => trivial
  | failed status => cases h
  | connected info =>
    cases call with
    | connect network => cases h
    | connectOpen network => cases h
    | disconnect => trivial
  | disconnected reason =>
    cases call with
    | connect network => cases h
    | connectOpen network => cases h
    | disconnect => trivial

/-- An outcome of the call's own request leads to a result that belongs to it. -/
theorem belongs_of_own {s : State} {outcome : ConnectionOutcome} {i : Nat} (hown : s.own = some i)
    (hcause : s.cause = some (i, outcome))
    (hbssid : ∀ info, outcome = .connected info → s.call.bssid = some info.bssid) :
    s.Belongs (s.call.result outcome) := by
  unfold Call.result
  cases outcome with
  | pending => trivial
  | failed status => exact ⟨i, hown, hcause⟩
  | connected info =>
    have hcall := hbssid info rfl
    cases hkind : s.call with
    | connect network => exact ⟨i, info, hown, hcause, rfl, hcall⟩
    | connectOpen network => exact ⟨i, info, hown, hcause, rfl, hcall⟩
    | disconnect => trivial
  | disconnected reason =>
    cases hkind : s.call with
    | connect network => exact ⟨i, hown, hcause⟩
    | connectOpen network => exact ⟨i, hown, hcause⟩
    | disconnect => trivial

section Steps

variable {s t : State}

/-- A call that returns without having read an outcome. -/
theorem inv_return (h : Inv s) (hidle : s.caller = .idle) {result : Except Error Reply}
    (hresult : ∀ t : State, t.Belongs result) : Inv { s with returned := some result } :=
  { preparing := h.preparing
    issue := h.issue
    own := h.own
    stored := h.stored
    finishing := fun _ hcaller => absurd (hidle.symm.trans hcaller) nofun
    returned := fun _ hr => by
      cases hr
      exact ⟨hidle, hresult _⟩ }

theorem inv_start (h : Inv s) (hidle : s.caller = .idle) {call : Call} {timeoutMs : UInt32}
    {next : Caller} (hissue : ∀ request, next = .issue request → request.bssid = call.bssid)
    (hfinish : ∀ result, next = .finishing result → ∀ t : State, t.Belongs result) :
    Inv (s.start call timeoutMs next) := by
  unfold State.start
  split
  · exact inv_return h hidle fun _ => trivial
  · exact
      { preparing := fun _ => rfl
        issue := hissue
        own := nofun
        stored := nofun
        finishing := fun result hcaller => hfinish result hcaller _
        returned := nofun }

theorem inv_connect (h : Inv s) (hidle : s.caller = .idle) (features : Features)
    (network : PersonalNetwork) (timeoutMs : UInt32) :
    Inv (s.connect features network timeoutMs) := by
  unfold State.connect
  cases network.security with
  | wpa2 =>
    apply inv_start h hidle
    · intro request hnext
      split at hnext <;> cases hnext
    · intro result hnext t
      split at hnext
      · cases hnext
      · cases hnext
        trivial
  | wpa3 saePwe =>
    dsimp only
    split
    · exact inv_start h hidle nofun nofun
    · have hstart : Inv (s.start (.connect network) timeoutMs .idle) :=
        inv_start h hidle nofun nofun
      split
      · exact hstart
      · rename_i hactive
        refine inv_return hstart ?_ fun _ => trivial
        unfold State.start
        rw [if_neg hactive]

/-- A step between the start of a call and its reading of `done`. -/
theorem inv_move (h : Inv s) (hlisten : s.caller.listening = true) {caller : Caller}
    (hprep : caller.preparing = true → s.caller.preparing = true)
    (hissue : ∀ request, caller = .issue request → request.bssid = s.call.bssid)
    (hfinish : ∀ result, caller = .finishing result → s.Belongs result) :
    Inv { s with caller } :=
  { preparing := fun hp => h.preparing (hprep hp)
    issue := hissue
    own := h.own
    stored := fun _ => h.stored hlisten
    finishing := hfinish
    returned := fun result hr => by
      have hidle := (h.returned result hr).1
      rw [hidle] at hlisten
      cases hlisten }

theorem inv_advance (h : Inv s) (hs : s.advance = some t) : Inv t := by
  cases hcaller : s.caller with
  | issue request =>
    unfold State.advance at hs
    rw [hcaller] at hs
    cases hs
    have hnone := h.preparing (by rw [hcaller]; rfl)
    have hlisten : s.caller.listening = true := by rw [hcaller]; rfl
    exact
      { preparing := nofun
        issue := nofun
        own := fun i hi => by
          cases hi
          dsimp only
          rw [List.getElem?_append_right (Nat.le_refl _), Nat.sub_self]
          exact h.issue request hcaller
        stored := fun _ hdone => by
          -- nothing that the call reports has been stored before its request
          have hstored := h.stored hlisten hdone
          dsimp only at hstored ⊢
          revert hstored
          unfold State.Belongs
          rw [hnone]
          split
          · rintro ⟨i, _, hi, -⟩
            cases hi
          · rintro ⟨i, hi, -⟩
            cases hi
          · rintro ⟨i, hi, -⟩
            cases hi
          · exact fun _ => trivial
        finishing := nofun
        returned := fun result hr => by
          have hidle := (h.returned result hr).1
          rw [hcaller] at hidle
          cases hidle }
  | polling startedAt =>
    unfold State.advance at hs
    rw [hcaller] at hs
    cases hs
    have hlisten : s.caller.listening = true := by rw [hcaller]; rfl
    split
    · rename_i hdone
      refine inv_move h hlisten nofun nofun fun result hresult => ?_
      cases hresult
      exact h.stored hlisten hdone
    · exact inv_move h hlisten nofun nofun nofun
  | finishing result =>
    unfold State.advance at hs
    rw [hcaller] at hs
    cases hs
    exact
      { preparing := nofun
        issue := nofun
        own := h.own
        stored := nofun
        finishing := nofun
        returned := fun result' hr => by
          cases hr
          exact ⟨rfl, h.finishing result hcaller⟩ }
  | idle | selfTest | pbkdf2 | saePwe _ | requested | started | clock _ =>
    unfold State.advance at hs
    rw [hcaller] at hs
    cases hs

theorem inv_clock (h : Inv s) {now : UInt64} (hs : s.clock now = some t) : Inv t := by
  unfold State.clock at hs
  split at hs
  · rename_i hcaller
    cases hs
    exact inv_move h (by rw [hcaller]; rfl) nofun nofun nofun
  · rename_i startedAt hcaller
    have hlisten : s.caller.listening = true := by rw [hcaller]; rfl
    split at hs
    · cases hs
      refine inv_move h hlisten nofun nofun fun result hresult => ?_
      cases hresult
      trivial
    · cases hs
      exact inv_move h hlisten nofun nofun nofun
  all_goals cases hs

theorem inv_answer (h : Inv s) (hlisten : s.caller.listening = true)
    (hprep : s.caller.preparing = true) {next : Except Error Request}
    (hrequest : ∀ request, next = .ok request → request.bssid = s.call.bssid)
    (herror : ∀ e, next = .error e → ∀ t : State, t.Belongs (.error e)) : Inv (s.answer next) := by
  unfold State.answer
  cases next with
  | ok request =>
    refine inv_move h hlisten (fun _ => hprep) (fun request' hr => ?_) nofun
    cases hr
    exact hrequest request rfl
  | error e =>
    refine inv_move h hlisten nofun nofun fun result hresult => ?_
    cases hresult
    exact herror e rfl _

/-- An event of the call's own request, or one that it does not report. -/
theorem inv_event (h : Inv s) {i : Nat} {e : Event} (hpin : Pinned s (.event i e))
    (hown : OwnEvents s (.event i e)) : Inv (e.outcome.elim s (s.deliver i)) := by
  cases houtcome : e.outcome with
  | none => exact h
  | some outcome =>
    simp only [Option.elim_some, State.deliver]
    split
    · refine
        { preparing := h.preparing
          issue := h.issue
          own := h.own
          stored := fun hlisten _ => ?_
          finishing := fun result hcaller => ?_
          returned := fun result hr => ?_ }
      · dsimp only at hlisten
        by_cases hreports : s.call.reports outcome = true
        · have hi := hown hlisten outcome houtcome hreports
          refine belongs_of_own (i := i) hi (if_pos hlisten) fun info hinfo => ?_
          have hlink : info ∈ outcome.link := by
            change outcome.link = some info
            rw [show outcome = .connected info from hinfo]
            rfl
          exact (h.own i hi).symm.trans (hpin outcome houtcome info hlink)
        · exact belongs_of_not_reports _ (Bool.not_eq_true _ ▸ hreports)
      · dsimp only at hcaller
        have hfinish := h.finishing result hcaller
        simp only [hcaller, Caller.listening]
        exact hfinish
      · obtain ⟨hidle, hbelongs⟩ := h.returned result hr
        simp only [hidle, Caller.listening]
        exact ⟨trivial, hbelongs⟩
    · exact h

theorem inv_step {features : Features} (h : Inv s) {a : Action} (hpin : Pinned s a)
    (hown : OwnEvents s a) (hs : step features s a = some t) : Inv t := by
  cases a with
  | connect network timeoutMs =>
    obtain ⟨hidle, hs⟩ := Option.ite_none_right_eq_some.mp hs
    cases hs
    exact inv_connect h hidle features network timeoutMs
  | connectOpen network timeoutMs =>
    obtain ⟨hidle, hs⟩ := Option.ite_none_right_eq_some.mp hs
    cases hs
    refine inv_start h hidle (fun request hr => ?_) nofun
    cases hr
    rfl
  | disconnect timeoutMs =>
    obtain ⟨hidle, hs⟩ := Option.ite_none_right_eq_some.mp hs
    cases hs
    refine inv_start h hidle (fun request hr => ?_) nofun
    cases hr
    rfl
  | selfTest error =>
    obtain ⟨hcaller, hs⟩ := Option.ite_none_right_eq_some.mp hs
    have hlisten : s.caller.listening = true := by rw [hcaller]; rfl
    have hprep : s.caller.preparing = true := by rw [hcaller]; rfl
    cases error with
    | some code =>
      cases hs
      refine inv_answer h hlisten hprep nofun fun e he _ => ?_
      cases he
      trivial
    | none =>
      cases hs
      exact inv_move h hlisten (fun _ => hprep) nofun nofun
  | pbkdf2 pmk =>
    simp only [step] at hs
    split at hs
    · rename_i network hcaller hcall
      have hlisten : s.caller.listening = true := by rw [hcaller]; rfl
      have hprep : s.caller.preparing = true := by rw [hcaller]; rfl
      cases pmk with
      | error code =>
        cases hs
        refine inv_answer h hlisten hprep nofun fun e he _ => ?_
        cases he
        trivial
      | ok pmk =>
        cases hs
        refine inv_answer h hlisten hprep (fun request hr => ?_) nofun
        cases hr
        rw [hcall]
        rfl
    · cases hs
  | saePwe configured =>
    simp only [step] at hs
    split at hs
    · rename_i network hcaller hcall
      have hlisten : s.caller.listening = true := by rw [hcaller]; rfl
      have hprep : s.caller.preparing = true := by rw [hcaller]; rfl
      split at hs
      · cases hs
        refine inv_answer h hlisten hprep nofun fun e he _ => ?_
        cases he
        trivial
      · cases hs
        refine inv_answer h hlisten hprep (fun request hr => ?_) nofun
        cases hr
        rw [hcall]
        rfl
    · cases hs
  | vendorReturns result =>
    obtain ⟨hcaller, hs⟩ := Option.ite_none_right_eq_some.mp hs
    have hlisten : s.caller.listening = true := by rw [hcaller]; rfl
    cases hs
    split
    · refine inv_move h hlisten nofun nofun fun result' hr => ?_
      cases hr
      unfold State.refused
      split <;> trivial
    · exact inv_move h hlisten nofun nofun nofun
  | clock now => exact inv_clock h hs
  | advance => exact inv_advance h hs
  | event i e =>
    obtain ⟨-, hs⟩ := Option.ite_none_right_eq_some.mp hs
    cases hs
    exact inv_event h hpin hown

end Steps

/-! ## §6 Main results -/

/-- **A connect result belongs to the call that returns it**, in every run in
which no event of an earlier request reaches a call that is waiting. -/
theorem connect_result_belongs (features : Features) {as : List Action} {s : State}
    (h : Steps (step features) (fun s a => Pinned s a ∧ OwnEvents s a) init as s)
    {result : Except Error Reply} (hret : s.returned = some result) : s.Belongs result := by
  have hinv : Inv s :=
    h.invariant inv_init fun _ _ _ hI hok hs => inv_step hI hok.1 hok.2 hs
  exact (hinv.returned result hret).2

/-- Two open networks. -/
def cafe : OpenNetwork := ⟨Vector.replicate _ 99, 4, #v[2, 0, 0, 0, 0, 1], 2412⟩

def station : OpenNetwork := ⟨Vector.replicate _ 115, 7, #v[2, 0, 0, 0, 0, 2], 2437⟩

/-- The first attempt times out; its result comes while nothing is waiting. -/
def punctualRun : List Action :=
  [.connectOpen cafe 1, .advance, .vendorReturns 0, .clock 0, .advance, .clock 1, .advance,
    .event 0 (.connectResult 0 cafe.bssid 2412),
    .connectOpen station 100, .advance, .vendorReturns 0, .clock 2,
    .event 1 (.connectResult 0 station.bssid 2437), .advance, .advance]

theorem connect_result_belongs_sample :
    ∃ (s : State) (info : ConnectionInfo), s.returned = some (.ok (.info info)) ∧
      s.Belongs (.ok (.info info)) ∧ info.bssid = station.bssid := by
  have hrun : (run (guarded (step ⟨true, true⟩) fun s a => Pinned s a ∧ OwnEvents s a) init
      punctualRun).map (fun s => s.returned) =
      some (some (.ok (.info ⟨station.bssid, 2437⟩))) := by decide +kernel
  obtain ⟨s, hs, hret⟩ := Option.map_eq_some_iff.mp hrun
  exact ⟨s, _, hret, connect_result_belongs ⟨true, true⟩ (Steps.of_run_guarded hs) hret, rfl⟩

/-- The first attempt times out; its result comes during the second. -/
def lateRun : List Action :=
  [.connectOpen cafe 1, .advance, .vendorReturns 0, .clock 0, .advance, .clock 1, .advance,
    .connectOpen station 100, .advance, .vendorReturns 0, .clock 2,
    .event 0 (.connectResult 0 cafe.bssid 2412), .advance, .advance]

/-- The second attempt returns the link of the first, to another network. -/
theorem connect_result_mistaken :
    ¬ ∀ (features : Features) (as : List Action) (s : State),
      Steps (step features) Pinned init as s →
        ∀ result, s.returned = some result → s.Belongs result := by
  intro h
  have hrun : (run (guarded (step ⟨true, true⟩) Pinned) init lateRun).map
      (fun s => (s.returned, s.call.bssid)) =
      some (some (.ok (.info ⟨cafe.bssid, 2412⟩)), some station.bssid) := by decide +kernel
  obtain ⟨s, hs, hlast⟩ := Option.map_eq_some_iff.mp hrun
  obtain ⟨hret, hcall⟩ := Prod.mk.inj hlast
  obtain ⟨i, reported, -, -, -, hbssid⟩ := h _ _ s (Steps.of_run_guarded hs) _ hret
  rw [hcall] at hbssid
  exact absurd (Option.some.inj hbssid) (by decide)

end HisiRiscv.Wifi.Connection
