/-
HisiRiscv.Hil.Capture — one measured boot, `capture_run` of
`ws63-connectivity-reset-matrix.py`.

The target, and a peer if it has a probe, are reset; then the serial ports are
read until the deadline or until some seconds after a terminal marker. A serial port
that vanishes is reopened, up to three times, and the attempt starts over with
another reset. Until the first `boot.\r\n` the target's log only grows; there it
is trimmed. The peer's log is trimmed at the end (`current_boot_log`).

Translation notes. The clock, the ports and the reopening of a port are the
environment: an event is one pass of the loop with what it read and every reading
of the clock. A pass that does not continue is not enabled, nor is a
reconnect that raises. `peerEarlier` is what was read from the peer before the run and
since its last reset. Pulses that fail, and waiting, are left out.

  §1 Terminal and timed markers.
  §2 The state and the passes.
  §3 The run.
  §4 What the boards have sent.
-/
import Mathlib.Data.Rat.Floor
import HisiRiscv.Hil.Record
import HisiRiscv.Lib.Machine

namespace HisiRiscv.Hil

open HisiRiscv.Machine

/-! ## §1 Terminal and timed markers -/

def rustTerminalMarkers : List String :=
  ["RF5C_CONNECTIVITY_SUMMARY", "RFDBG_A5B_CONNECT_PROFILE_OK", "RFDBG_A5B_CONNECT_ERR",
    "RFDBG_A5B_SCAN_ERR", "RF5B_WPA_CONNECT_ERR:", "RF5B_CONNECT_ERR:", "W2D_WPA2_CONNECT_ERR",
    "W2E_WPA3_CONNECT_ERR", "A4_NET_ERR", "RF5B_AP_NOT_FOUND", "RF3_SCAN_ERR", "RF2_INIT_ERR:",
    "RFDBG_EXCEPTION"]

def rustTimedMarkers : List String :=
  ["RFDBG_A5B_SCAN_OK", "RFDBG_A5B_CONNECT_OK", "RFDBG_A5B_CONNECT_PROFILE_OK", "RF1_IMAGE_OK",
    "RF2_INIT_OK", "RF3_SCAN_OK", "RF5B_CONNECT_BEGIN", "RF5B_WPA_CONNECT_OK",
    "W2D_WPA2_CONNECT_OK", "W2E_WPA3_CONNECT_OK", "RF5A_DHCP_OK", "RF5A_ARP_OK",
    "RF5C_PUBLIC_DNS_BEGIN", "RF5C_PUBLIC_DNS_OK", "RF5C_PUBLIC_DNS_SKIP",
    "RF5C_CONNECTIVITY_SUMMARY"]

def officialTerminalMarkers : List String := ["APP|[WIFI_STA_SAMPLE]::STA DHCP success."]

def officialTimedMarkers : List String :=
  ["APP|[WIFI_STA_SAMPLE]::wifi init succ.", "APP|[WIFI_STA_SAMPLE]::Scan start!",
    "APP|[WIFI_STA_SAMPLE]::Scan done!.", "APP|[WIFI_STA_SAMPLE]::Connect start.",
    "wifi:rx auth seq 2 alg 0 code 0", "+NOTICE:CONNECTED",
    "APP|[WIFI_STA_SAMPLE]::STA DHCP success."]

def failureMarkers : List String :=
  rustTerminalMarkers.filter fun marker =>
    marker ∉ ["RF5C_CONNECTIVITY_SUMMARY", "RFDBG_A5B_CONNECT_PROFILE_OK"]

def terminalMarkers (o : Options) : List String :=
  match o.profile, o.stage with
  | .rust, .initScan => failureMarkers ++ ["RF3_SCAN_OK", "RFDBG_A5B_SCAN_PROFILE_OK"]
  | .rust, .connect =>
    failureMarkers ++ ["RFDBG_A5B_CONNECT_PROFILE_OK", "RF5B_WPA_CONNECT_OK",
      "W2D_WPA2_CONNECT_OK", "W2E_WPA3_CONNECT_OK"]
  | .rust, .connectivity => failureMarkers ++ ["A4_DHCP_RENEW_OK"]
  | .officialLiteos, .connect => officialTerminalMarkers ++ ["+NOTICE:CONNECTED"]
  | .officialLiteos, _ => officialTerminalMarkers

def timedMarkers (o : Options) : List String :=
  match o.profile with
  | .officialLiteos => officialTimedMarkers
  | .rust => rustTimedMarkers

def bootMarker : Bytes := ascii "boot.\r\n"

/-! ## §2 The state and the passes -/

/-- What else `capture_run` is called with. -/
structure Bench where
  options : Options
  timeout : ℚ
  postTerminalSeconds : ℚ
  /-- `peer_port is not None`. -/
  peerPort : Bool
  /-- `peer_jlink_serial is not None`. -/
  peerJlink : Bool

structure Capture where
  started : ℚ
  terminalSeenAt : Option ℚ
  bootSeen : Bool
  reconnects : ℕ
  log : Bytes
  peerLog : Bytes
  markerTimes : MarkerTimes

inductive Event where
  /-- `port.read` returns `chunk` (maybe empty), the peer's port `peer`. -/
  | read (loopAt breakAt nowAt terminalAt : ℚ) (chunk peer : Bytes)
  /-- `port.read` raises, the port is open again, and the peer's port returns `settle`. -/
  | reconnect (loopAt breakAt startedAt : ℚ) (settle : List Bytes)

/-- Python's `round(seconds, 3)`. -/
def roundMs (seconds : ℚ) : ℚ :=
  let scaled := seconds * 1000
  let below := scaled.floor
  let rest := scaled - below
  let rounded := if rest < 1 / 2 ∨ (rest = 1 / 2 ∧ below % 2 = 0) then below else below + 1
  rounded / 1000

namespace Bench

variable (b : Bench)

/-- `drain_serial`. -/
def drain (waiting : Bytes) : Bytes := if b.peerPort then waiting else []

/-- What the peer's log holds after the reset of the peer, if there is one. -/
def settled (reads : List Bytes) : Bytes :=
  if b.peerJlink then (reads.map b.drain).flatten else []

/-- Both boards have been reset. -/
def restart (startedAt : ℚ) (reconnects : ℕ) (settle : List Bytes) : Capture where
  started := startedAt
  terminalSeenAt := none
  bootSeen := false
  reconnects := reconnects
  log := []
  peerLog := b.settled settle
  markerTimes := []

def postTerminalElapsed (terminalSeenAt : Option ℚ) (now : ℚ) : Bool :=
  terminalSeenAt.any fun seenAt => b.postTerminalSeconds ≤ now - seenAt

/-- The loop goes on. -/
def continues (s : Capture) (loopAt breakAt : ℚ) : Bool :=
  loopAt < s.started + b.timeout && !b.postTerminalElapsed s.terminalSeenAt breakAt

def recordMarkers (log : Bytes) (now : ℚ) (times : MarkerTimes) : MarkerTimes :=
  (timedMarkers b.options).foldl
    (fun times marker =>
      if times.all (fun entry => entry.1 ≠ ascii marker) ∧ has log marker then
        times ++ [(ascii marker, roundMs now)]
      else times)
    times

/-- The markers that a pass looks for once the boot has been seen. -/
def scan (s : Capture) (nowAt terminalAt : ℚ) : Capture :=
  { s with
    markerTimes := b.recordMarkers s.log (nowAt - s.started) s.markerTimes
    terminalSeenAt :=
      if s.terminalSeenAt.isNone ∧ (terminalMarkers b.options).any (has s.log) then some terminalAt
      else s.terminalSeenAt }

/-- A pass whose read has returned. -/
def receive (s : Capture) (nowAt terminalAt : ℚ) (chunk peer : Bytes) : Capture :=
  let s := { s with peerLog := s.peerLog ++ b.drain peer }
  if chunk.isEmpty then s
  else
    let s := { s with log := s.log ++ chunk }
    if s.bootSeen then b.scan s nowAt terminalAt
    else
      match Marker.find bootMarker s.log with
      | none => s
      | some bootStart =>
        b.scan { s with log := s.log.drop bootStart, bootSeen := true } nowAt terminalAt

def step (s : Capture) : Event → Option Capture
  | .read loopAt breakAt nowAt terminalAt chunk peer =>
    if b.continues s loopAt breakAt then some (b.receive s nowAt terminalAt chunk peer) else none
  | .reconnect loopAt breakAt startedAt settle =>
    if b.continues s loopAt breakAt && s.reconnects + 1 ≤ 3 then
      some (b.restart startedAt (s.reconnects + 1) settle)
    else none

end Bench

/-! ## §3 The run -/

/-- `current_boot_log`. -/
def currentBootLog (log : Bytes) : Bytes := Marker.trim bootMarker log

/-- Everything that happens during one call. -/
structure Environment where
  /-- read from the peer since its last reset and before the call -/
  peerEarlier : Bytes
  startedAt : ℚ
  settle : List Bytes
  events : List Event
  /-- the clock when the loop ends -/
  loopAt : ℚ
  breakAt : ℚ
  /-- read from the peer's port after the loop -/
  lastPeer : Bytes

/-- What the call returns. -/
structure Captured where
  log : Bytes
  peerLog : Bytes
  markerTimes : MarkerTimes
  deriving DecidableEq

def captureRun (b : Bench) (e : Environment) : Option Captured :=
  match run b.step (b.restart e.startedAt 0 e.settle) e.events with
  | none => none
  | some s =>
    if b.continues s e.loopAt e.breakAt then none
    else some ⟨s.log, currentBootLog (s.peerLog ++ b.drain e.lastPeer), s.markerTimes⟩

/-- The record that `main` appends for the run. -/
def Captured.record {V : Type} (captured : Captured) (p : Parsers V) (b : Bench) (run : ℕ)
    (logName peerLogName : FileName) : Record V :=
  recordFromLog p b.options run captured.log logName captured.markerTimes
    (if b.peerPort then some captured.peerLog else none)
    (if b.peerPort then some peerLogName else none)

/-! ## §4 What the boards have sent -/

namespace Bench

/-- Read from the target since its last reset. -/
def targetAfter (received : Bytes) : Event → Bytes
  | .read _ _ _ _ chunk _ => received ++ chunk
  | .reconnect .. => []

variable (b : Bench)

/-- Read from the peer since its last reset; without a probe nothing resets it. -/
def peerAfter (received : Bytes) : Event → Bytes
  | .read _ _ _ _ _ peer => received ++ b.drain peer
  | .reconnect _ _ _ settle => if b.peerJlink then b.settled settle else received

/-- Read from the peer since the attempt started over. -/
def attemptAfter (received : Bytes) : Event → Bytes
  | .read _ _ _ _ _ peer => received ++ b.drain peer
  | .reconnect _ _ _ settle => b.settled settle

end Bench

namespace Environment

variable (b : Bench) (e : Environment)

def targetReceived : Bytes := e.events.foldl Bench.targetAfter []

def peerReceived : Bytes :=
  e.events.foldl b.peerAfter (if b.peerJlink then b.settled e.settle else e.peerEarlier) ++
    b.drain e.lastPeer

def peerAttempt : Bytes :=
  e.events.foldl b.attemptAfter (b.settled e.settle) ++ b.drain e.lastPeer

end Environment

end HisiRiscv.Hil
