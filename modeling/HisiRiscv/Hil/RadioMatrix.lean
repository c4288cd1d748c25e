/-
HisiRiscv.Hil.RadioMatrix — two of the paired-board matrices:
`ws63-radio-u2-reset-matrix.py` for the protocols U2 to U4, and
`ws63-ble-gatt-reset-matrix.py`.

Both let the first board settle, reset the second, and judge the two logs together
by the markers that are missing and the failure markers that are there.

  §1 The verdict on two logs.
  §2 U2 to U4.
  §3 GATT.
-/
import HisiRiscv.Hil.PairedBoards

namespace HisiRiscv.Hil

/-! ## §1 The verdict on two logs -/

/-- The record of `classify`. -/
structure PairResult where
  pass : Bool
  firstMissing : List String
  secondMissing : List String
  failureMarkers : List String
  firstBytes : ℕ
  secondBytes : ℕ
  deriving DecidableEq

/-- What a verdict rests on: all but the lengths of the logs. -/
structure PairEvidence where
  pass : Bool
  firstMissing : List String
  secondMissing : List String
  failureMarkers : List String
  deriving DecidableEq

def PairResult.evidence (r : PairResult) : PairEvidence where
  pass := r.pass
  firstMissing := r.firstMissing
  secondMissing := r.secondMissing
  failureMarkers := r.failureMarkers

def missingMarkers (required : List String) (log : Bytes) : List String :=
  required.filter fun marker => !has log marker

def classifyPair (firstRequired secondRequired failures : List String) (first second : Bytes) :
    PairResult :=
  let firstMissing := missingMarkers firstRequired first
  let secondMissing := missingMarkers secondRequired second
  let failureMarkers := failures.filter fun marker => has first marker || has second marker
  { pass := firstMissing.isEmpty && secondMissing.isEmpty && failureMarkers.isEmpty
    firstMissing, secondMissing, failureMarkers
    firstBytes := first.length
    secondBytes := second.length }

/-! ## §2 U2 to U4 -/

namespace RadioMatrix

/-- The keys of `PROTOCOLS`. -/
inductive Protocol where
  | ble
  | sle
  | u3Ble
  | u3Sle
  | u4Ble
  | u4Sle
  deriving DecidableEq

namespace Protocol

def sourceMarker : Protocol → String
  | .ble => "RFDBG_RADIO_U2_BLE_ADV_OK"
  | .sle => "RFDBG_RADIO_U2_SLE_ANNOUNCE_OK"
  | .u3Ble => "RFDBG_RADIO_U3_BLE_GATT_OK"
  | .u3Sle => "RFDBG_RADIO_U3_SLE_SSAP_OK"
  | .u4Ble => "RFDBG_RADIO_U4_BLE_ADV_LIFECYCLE_OK"
  | .u4Sle => "RFDBG_RADIO_U4_SLE_ANNOUNCE_LIFECYCLE_OK"

def observerMarker : Protocol → String
  | .ble | .u3Ble => "RFDBG_RADIO_U2_BLE_SCAN_OK"
  | .sle | .u3Sle => "RFDBG_RADIO_U2_SLE_SEEK_OK"
  | .u4Ble => "RFDBG_RADIO_U4_BLE_SCAN_LIFECYCLE_OK"
  | .u4Sle => "RFDBG_RADIO_U4_SLE_SEEK_LIFECYCLE_OK"

/-- `failure_prefixes`. -/
def failureStarts : Protocol → List String
  | .ble => ["RFDBG_RADIO_U2_BLE_"]
  | .sle => ["RFDBG_RADIO_U2_SLE_"]
  | .u3Ble => ["RFDBG_RADIO_U3_BLE_", "RFDBG_RADIO_U2_BLE_"]
  | .u3Sle => ["RFDBG_RADIO_U3_SLE_", "RFDBG_RADIO_U2_SLE_"]
  | .u4Ble => ["RFDBG_RADIO_U4_BLE_"]
  | .u4Sle => ["RFDBG_RADIO_U4_SLE_"]

end Protocol

def commonMarker : String := "RFDBG_RADIO_U2_INIT_OK"

/-- `FAILURE_SUFFIXES`. -/
def failureEnds : List String :=
  ["INIT_ERR", "QUEUE_ERR", "CORRELATION_ERR", "COMMAND_ERR", "RUNNER_ERR", "LIFECYCLE_ERR",
    "EVENT_DROP", "STOP_ERR"]

def commonFailureMarkers : List String := ["RFDBG_MISSING_ROM_CALLBACK", "panicked at"]

def failureMarkers (protocol : Protocol) : List String :=
  commonFailureMarkers ++
    protocol.failureStarts.flatMap fun start => failureEnds.map fun ending => start ++ ending

def classify (protocol : Protocol) (source observer : Bytes) : PairResult :=
  classifyPair [commonMarker, protocol.sourceMarker] [commonMarker, protocol.observerMarker]
    (failureMarkers protocol) source observer

def script (observerMarker : String) : Script where
  complete _ observer := has observer observerMarker
  hold := 1
  relay _ := none

def captureRun (sourceSettle timeout : ℚ) (observerMarker : String) (t : Schedule)
    (source observer : Board) : Bytes × Bytes :=
  let s := (script observerMarker).settledWatch sourceSettle timeout t source observer
  (s.first.log, s.second.log)

/-- The record of a run, as `main` makes it. -/
def record (protocol : Protocol) (sourceSettle timeout : ℚ) (t : Schedule)
    (source observer : Board) : PairResult :=
  let logs := captureRun sourceSettle timeout protocol.observerMarker t source observer
  classify protocol logs.1 logs.2

end RadioMatrix

/-! ## §3 GATT -/

namespace GattMatrix

def serverMarkers : List String :=
  ["RFDBG_BLE_B3_INIT_OK", "RFDBG_BLE_B3_SERVICE_READY", "RFDBG_BLE_B3_SERVER_ADV_OK",
    "RFDBG_BLE_B3_SERVER_CONNECTED", "RFDBG_BLE_B3_NOTIFY_SENT", "RFDBG_BLE_B3_INDICATE_SENT",
    "RFDBG_BLE_B3_INDICATE_CONFIRMED", "RFDBG_BLE_B3_SERVER_DISCONNECTED"]

def clientMarkers : List String :=
  ["RFDBG_BLE_B3_INIT_OK", "RFDBG_BLE_B3_CLIENT_SCAN_READY", "RFDBG_BLE_B3_SCAN_MATCH",
    "RFDBG_BLE_B3_CLIENT_CONNECTED", "RFDBG_BLE_B3_SERVICE_FOUND",
    "RFDBG_BLE_B3_CHARACTERISTIC_FOUND", "RFDBG_BLE_B3_DESCRIPTOR_FOUND",
    "RFDBG_BLE_B3_NOTIFICATION_OK", "RFDBG_BLE_B3_INDICATION_OK",
    "RFDBG_BLE_B3_CLIENT_DISCONNECTED", "RFDBG_BLE_B3_GATT_OK"]

def failureMarkers : List String :=
  ["RFDBG_MISSING_ROM_CALLBACK", "RFDBG_BLE_B3_INIT_ERR", "RFDBG_BLE_B3_EVENT_DROP",
    "RFDBG_BLE_B3_SERVER_REGISTER_ERR", "RFDBG_BLE_B3_SERVER_ADV_ERR",
    "RFDBG_BLE_B3_SERVER_STATE_ERR", "RFDBG_BLE_B3_NOTIFY_ERR", "RFDBG_BLE_B3_INDICATE_ERR",
    "RFDBG_BLE_B3_CLIENT_REGISTER_ERR", "RFDBG_BLE_B3_CLIENT_SCAN_ERR",
    "RFDBG_BLE_B3_CONNECT_ERR", "RFDBG_BLE_B3_SERVICE_DISCOVERY_ERR",
    "RFDBG_BLE_B3_CHAR_DISCOVERY_ERR", "RFDBG_BLE_B3_DESC_DISCOVERY_ERR",
    "RFDBG_BLE_B3_CCC_NOTIFY_ERR", "RFDBG_BLE_B3_WRITE_NOTIFY_ERR",
    "RFDBG_BLE_B3_CCC_INDICATE_ERR", "RFDBG_BLE_B3_WRITE_INDICATE_ERR",
    "RFDBG_BLE_B3_DISCONNECT_ERR"]

def classify (server client : Bytes) : PairResult :=
  classifyPair serverMarkers clientMarkers failureMarkers server client

def script : Script where
  complete server client :=
    has client "RFDBG_BLE_B3_GATT_OK" && has server "RFDBG_BLE_B3_SERVER_DISCONNECTED"
  hold := 1
  relay _ := none

def captureRun (serverSettle timeout : ℚ) (t : Schedule) (server client : Board) :
    Bytes × Bytes :=
  let s := script.settledWatch serverSettle timeout t server client
  (s.first.log, s.second.log)

/-- The record of a run, as `main` makes it. -/
def record (serverSettle timeout : ℚ) (t : Schedule) (server client : Board) : PairResult :=
  let logs := captureRun serverSettle timeout t server client
  classify logs.1 logs.2

end GattMatrix

end HisiRiscv.Hil
