/-
HisiRiscv.Hil.Record — what `ws63-connectivity-reset-matrix.py` concludes from a log.

`classify` looks for markers in the whole log of a run, in a fixed order: first
the access point's mode, then the errors, then the success of the stage.
`recordFromLog` puts the result beside everything else it reads off the target's and
the peer's log.

Translation notes. A log is the bytes of a serial port. The parsers of single
diagnostic lines, and the check of the marker contract, are functions of the log
and the options; `Parsers` names them, and nothing here depends on what they
return. `marker in log` is `List.IsInfix`, `log.count` counts occurrences that do
not overlap.

  §1 Markers and options.
  §2 Parsers.
  §3 Classification.
  §4 Records.
-/
import Mathlib.Data.Rat.Defs
import HisiRiscv.Lib.Marker

namespace HisiRiscv.Hil

/-! ## §1 Markers and options -/

abbrev Bytes : Type := List UInt8

/-- A byte string literal. -/
def ascii (text : String) : Bytes := text.toList.map fun c => UInt8.ofNat c.toNat

/-- `marker in log`. -/
def has (log : Bytes) (marker : String) : Bool := decide (ascii marker <:+: log)

inductive Profile where
  | rust
  | officialLiteos
  deriving DecidableEq

inductive Stage where
  | initScan
  | connect
  | connectivity
  deriving DecidableEq

inductive ApMode where
  | pureWpa3
  | transition
  deriving DecidableEq

/-- The options that capture, classification and the contract read. Times are in seconds. -/
structure Options where
  profile : Profile
  stage : Stage
  requiredApMode : Option ApMode
  requireContract : Bool
  maxRunnerStepMs : Option ℕ
  qemuContractFixture : Bool
  requireResourceCalibration : Bool

def authRsp2TimeoutEvent : String := "file=0x00000013 line=0x0000044f"

def officialAuthRsp2TimeoutEvent : String := "wifi:auth fail[5201]"

def markerContract : String := "ws63-connectivity-markers/v3"

/-! ## §2 Parsers -/

/-- The parsers of diagnostic lines; `V` is what they return. -/
structure Parsers (V : Type) where
  validateRustContract : Bytes → Stage → Option ℕ → Bool → Bool → List String
  validateReadyOwnership : Bytes → String → List String
  parseDnsSummary : Bytes → Option V
  parseL2ProtocolDiagnostics : Bytes → Option V
  parseLocalEchoPath : Bytes → Option V
  parseSoftapEchoPath : Bytes → Option V
  parseIrq45Lifecycle : Bytes → String → Option V
  parseReadyOwnership : Bytes → Option V
  correlateEchoPaths : Option V → Option V → Option V
  parseA5bMetrics : Bytes → Bool → Option V
  /-- `metrics.get("complete") is True`. -/
  complete : V → Bool
  parseResourceCalibration : Bytes → Option V

def detectedApMode (log : Bytes) : Option ApMode :=
  if has log "W2E_AP_SECURITY mode=pure-wpa3" then some .pureWpa3
  else if has log "W2E_AP_SECURITY mode=transition" then some .transition
  else none

/-! ## §3 Classification -/

inductive Result where
  | pass
  | authRsp2Timeout
  | connectError
  | captureTimeout
  | wrongApMode
  | missingApMode
  | localDataPathFailure
  | publicDnsFailure
  | apNotFound
  | scanError
  | initError
  | exception
  | missingA5bMetrics
  | contractViolation
  deriving DecidableEq

section Classify

variable {V : Type} (p : Parsers V) (o : Options) (log : Bytes)

def contractViolations : List String :=
  p.validateRustContract log o.stage o.maxRunnerStepMs o.qemuContractFixture
    o.requireResourceCalibration

def passOrContractViolation : Result :=
  if (o.requireContract || o.requireResourceCalibration) &&
      !(contractViolations p o log).isEmpty then .contractViolation
  else .pass

def classifyOfficial : Result :=
  if o.stage = .connect && has log "+NOTICE:CONNECTED" then .pass
  else if has log "APP|[WIFI_STA_SAMPLE]::STA DHCP success." then .pass
  else if has log officialAuthRsp2TimeoutEvent then .authRsp2Timeout
  else if has log "APP|[WIFI_STA_SAMPLE]::Connect fail!." then .connectError
  else .captureTimeout

/-- The objection that the access point's mode raises, if one is required. -/
def apModeResult : Option Result :=
  match o.requiredApMode with
  | none => none
  | some required =>
    let successEvidence := has log "W2E_WPA3_CONNECT_OK" ||
      has log "RFDBG_A5B_CONNECT_PROFILE_OK" || (p.parseDnsSummary log).isSome
    match detectedApMode log with
    | some observed => if observed ≠ required then some .wrongApMode else none
    | none => if successEvidence then some .missingApMode else none

def errorResult : Option Result :=
  if has log "RF5C_LOCAL_DATA_PATH_ERR" then some .localDataPathFailure
  else if has log "RF5C_PUBLIC_DNS_ERR" then some .publicDnsFailure
  else if has log "RF5B_WPA_CONNECT_ERR:0x00001451" then some .authRsp2Timeout
  else if has log "RF5B_WPA_CONNECT_ERR:" || has log "RF5B_CONNECT_ERR:" ||
      has log "W2D_WPA2_CONNECT_ERR" || has log "W2E_WPA3_CONNECT_ERR" ||
      has log "RFDBG_A5B_CONNECT_ERR" || has log "A4_NET_ERR" then some .connectError
  else if has log "RF5B_AP_NOT_FOUND" then some .apNotFound
  else if has log "RF3_SCAN_ERR" || has log "RFDBG_A5B_SCAN_ERR" then some .scanError
  else if has log "RF2_INIT_ERR:" then some .initError
  else if has log "RFDBG_EXCEPTION" then some .exception
  else none

def missingMetrics : Bool :=
  has log "RFDBG_A5B_CONNECT_PROFILE_OK" &&
    !((p.parseA5bMetrics log (o.stage = .connect)).any p.complete)

def stageResult : Result :=
  if o.stage = .initScan && (has log "RF3_SCAN_OK" || has log "RFDBG_A5B_SCAN_PROFILE_OK") then
    passOrContractViolation p o log
  else if o.stage = .connect && has log "RF5B_WPA_CONNECT_OK" then
    passOrContractViolation p o log
  else if o.stage = .connect && (has log "W2D_WPA2_CONNECT_OK" || has log "W2E_WPA3_CONNECT_OK") then
    passOrContractViolation p o log
  else if o.stage = .connect && has log "RFDBG_A5B_CONNECT_PROFILE_OK" then
    passOrContractViolation p o log
  else if has log "RF5C_LOCAL_DATA_PATH_OK" then passOrContractViolation p o log
  else .captureTimeout

def classify : Result :=
  if o.profile = .officialLiteos then classifyOfficial o log
  else
    match apModeResult p o log with
    | some result => result
    | none =>
      match errorResult log with
      | some result => result
      | none => if missingMetrics p o log then .missingA5bMetrics else stageResult p o log

end Classify

/-! ## §4 Records -/

inductive EvidenceScope where
  | contractOnly
  | silicon
  deriving DecidableEq

structure Contract where
  schema : String
  required : Bool
  evidenceScope : EvidenceScope
  violations : List String
  deriving DecidableEq

abbrev FileName : Type := List Char

/-- Seconds after the reset, by marker. -/
abbrev MarkerTimes : Type := List (Bytes × ℚ)

structure Record (V : Type) where
  run : ℕ
  result : Result
  bytes : ℕ
  authRsp2Timeouts : ℕ
  apMode : Option ApMode
  dns : Option V
  l2Protocol : Option V
  localEchoPath : Option V
  irq45Lifecycle : Option V
  readyOwnership : Option V
  peerBytes : Option ℕ
  peerReady : Option Bool
  peerEchoPath : Option V
  peerIrq45Lifecycle : Option V
  peerReadyOwnership : Option V
  echoCorrelation : Option V
  a5bMetrics : Option V
  resourceCalibration : Option V
  contract : Contract
  markerSeconds : MarkerTimes
  log : FileName
  peerLog : Option FileName

section RecordFromLog

variable {V : Type} (p : Parsers V) (o : Options)

/-- The violations of the target's contract, then those of the peer. -/
def recordViolations (log : Bytes) (peerLog : Option Bytes) : List String :=
  let contract :=
    if (o.requireContract || o.requireResourceCalibration) && o.profile = .rust then
      contractViolations p o log
    else []
  match peerLog with
  | some peerLog =>
    if o.requireContract then
      contract ++
        (if has peerLog "RFDBG_SOFTAP_READY" then []
        else ["missing peer RFDBG_SOFTAP_READY marker"]) ++
        p.validateReadyOwnership peerLog "peer"
    else contract
  | none => contract

def recordFromLog (run : ℕ) (log : Bytes) (logName : FileName) (markerTimes : MarkerTimes)
    (peerLog : Option Bytes) (peerLogName : Option FileName) : Record V :=
  let violations := recordViolations p o log peerLog
  let result := classify p o log
  let localEchoPath := p.parseLocalEchoPath log
  let peerEchoPath := p.parseSoftapEchoPath (peerLog.getD [])
  { run := run
    result := if result = .pass && !violations.isEmpty then .contractViolation else result
    bytes := log.length
    authRsp2Timeouts := Marker.count (ascii authRsp2TimeoutEvent) log +
      Marker.count (ascii officialAuthRsp2TimeoutEvent) log
    apMode := detectedApMode log
    dns := p.parseDnsSummary log
    l2Protocol := p.parseL2ProtocolDiagnostics log
    localEchoPath := localEchoPath
    irq45Lifecycle := p.parseIrq45Lifecycle log "RFDBG_A5B_DATA_PATH "
    readyOwnership := p.parseReadyOwnership log
    peerBytes := peerLog.map List.length
    peerReady := peerLog.map fun peerLog => has peerLog "RFDBG_SOFTAP_READY"
    peerEchoPath := peerEchoPath
    peerIrq45Lifecycle := p.parseIrq45Lifecycle (peerLog.getD []) "RFDBG_SOFTAP_STATE "
    peerReadyOwnership := p.parseReadyOwnership (peerLog.getD [])
    echoCorrelation := p.correlateEchoPaths localEchoPath peerEchoPath
    a5bMetrics := p.parseA5bMetrics log (o.stage = .connect)
    resourceCalibration := p.parseResourceCalibration log
    contract :=
      { schema := markerContract
        required := o.requireContract || o.requireResourceCalibration
        evidenceScope := if o.qemuContractFixture then .contractOnly else .silicon
        violations := violations }
    markerSeconds := markerTimes
    log := logName
    peerLog := peerLogName }

end RecordFromLog

end HisiRiscv.Hil
