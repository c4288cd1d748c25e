/-
HisiRiscv.Hil.Coexistence — `capture_pair` and `classify` of
`ws63-coexistence-reset-matrix.py`.

Both boards are reset at once; each log is judged on its own by the role that the
contract gives to the board: required markers, failure markers, a count of scans, and the
counters that the firmware prints.

Translation notes. Every pattern but one is a head followed by fields that are
printed as ` name=0x` and eight hexadecimal digits; the dictionary built from its last
match has the names of the pattern. `SOFTAP_ECHO_PATTERN` has a lazy gap that no
line feed may be in.

  §1 Contracts and markers.
  §2 Lines of counters.
  §3 The checks of the counters.
  §4 The verdict on one log.
  §5 The capture.
-/
import HisiRiscv.Hil.PairedBoards
import HisiRiscv.Lib.Marker
import HisiRiscv.Lib.Scan

namespace HisiRiscv.Hil.Coexistence

/-! ## §1 Contracts and markers -/

/-- The keys of `CONTRACT_NAMES`. -/
inductive Contract where
  | sharedInit
  | bleActivity
  | wifiBleTraffic
  | wifiBleConnectedTraffic
  | wifiSleTraffic
  | wifiSleConnectedTraffic
  deriving DecidableEq

inductive Role where
  | ble
  | sle
  | softap
  deriving DecidableEq

namespace Contract

/-- It is in `TRAFFIC_CONTRACTS`. -/
def isTraffic : Contract → Bool
  | .sharedInit | .bleActivity => false
  | _ => true

/-- It is in `ACCEPTANCE_CONTRACTS`. -/
def isAcceptance : Contract → Bool
  | .wifiBleConnectedTraffic | .wifiSleConnectedTraffic => true
  | _ => false

def endpointRoles : Contract → Role × Role
  | .wifiBleTraffic => (.ble, .softap)
  | .wifiBleConnectedTraffic => (.softap, .ble)
  | .wifiSleTraffic | .wifiSleConnectedTraffic => (.softap, .sle)
  | _ => (.ble, .sle)

def trafficActivityRole : Contract → Option Role
  | .wifiBleTraffic | .wifiBleConnectedTraffic => some .ble
  | .wifiSleTraffic | .wifiSleConnectedTraffic => some .sle
  | _ => none

end Contract

def commonMarkers : List String :=
  ["RFDBG_COEX_INIT_BEGIN", "RFDBG_COEX_RF_POWER_OK", "RFDBG_COEX_RTOS_OK", "RFDBG_COEX_INIT_OK"]

def roleMarkers : Role → List String
  | .ble => ["RFDBG_BLE_B1_SHARED_PLATFORM_OK"]
  | .sle => ["RFDBG_SLE_S1_SHARED_PLATFORM_OK"]
  | .softap => ["RFDBG_SOFTAP_READY", "RFDBG_SOFTAP_NET_READY"]

def bleActivityMarkers : List String :=
  ["RFDBG_COEX_BLE_ADV_ACTIVE", "RFDBG_COEX_WIFI_BLE_ACTIVITY_OK"]

def bleTrafficMarkers : List String :=
  ["RFDBG_COEX_BLE_ADV_ACTIVE", "RFDBG_COEX_WIFI_CONNECT_OK", "RFDBG_COEX_LOCAL_ECHO",
    "RFDBG_COEX_WIFI_BLE_TRAFFIC_OK"]

def bleConnectedTrafficMarkers : List String :=
  ["RFDBG_COEX_BLE_CONNECTED", "RFDBG_COEX_WIFI_CONNECT_OK", "RFDBG_COEX_LOCAL_ECHO",
    "RFDBG_COEX_WIFI_BLE_CONNECTED_TRAFFIC_OK"]

def sleTrafficMarkers : List String :=
  ["RFDBG_COEX_SLE_ANNOUNCE_ACTIVE", "RFDBG_COEX_WIFI_CONNECT_OK", "RFDBG_COEX_LOCAL_ECHO",
    "RFDBG_COEX_WIFI_SLE_TRAFFIC_OK"]

def sleConnectedTrafficMarkers : List String :=
  ["RFDBG_COEX_SLE_CONNECTED", "RFDBG_COEX_WIFI_CONNECT_OK", "RFDBG_COEX_LOCAL_ECHO",
    "RFDBG_COEX_WIFI_SLE_CONNECTED_TRAFFIC_OK"]

def softapSleConnectedMarkers : List String :=
  ["RFDBG_COEX_SLE_SERVER_READY", "RFDBG_COEX_SLE_SERVER_CONNECTED"]

def softapBleConnectedMarkers : List String :=
  ["RFDBG_COEX_BLE_SERVER_READY", "RFDBG_COEX_BLE_SERVER_CONNECTED"]

def softapTrafficMarker : String := "RFDBG_SOFTAP_NET"

def bleScanMarker : String := "RFDBG_COEX_WIFI_SCAN_OK"

def bleActivityScanCount : ℕ := 3

def failureMarkers : List String :=
  ["panicked at", "RFDBG_MISSING_ROM_CALLBACK", "RFDBG_COEX_INIT_ERR",
    "RFDBG_COEX_WIFI_RUNNER_ERR", "RFDBG_COEX_BLE_ADV_ERR", "RFDBG_COEX_BLE_CONNECT_ERR",
    "RFDBG_COEX_BLE_EVENT_DROP", "RFDBG_COEX_BLE_SERVER_ERR", "RFDBG_COEX_BLE_SERVER_EVENT_DROP",
    "RFDBG_COEX_SLE_ANNOUNCE_ERR", "RFDBG_COEX_SLE_EVENT_DROP", "RFDBG_COEX_SLE_SERVER_ERR",
    "RFDBG_COEX_SLE_SERVER_EVENT_DROP", "RFDBG_COEX_WIFI_INITIALIZE_ERR",
    "RFDBG_COEX_WIFI_SCAN_ERR", "RFDBG_COEX_WIFI_CONNECT_ERR", "RFDBG_COEX_LOCAL_ECHO_ERR",
    "RFDBG_COEX_EVENT_ERR", "RFDBG_COEX_ACCEPTANCE_ERR", "RFDBG_SOFTAP_NET_ERR",
    "scheduler contract violation"]

def requiredMarkers (contract : Contract) (role : Role) : List String :=
  if contract.isTraffic ∧ role = .softap then
    roleMarkers role ++ [softapTrafficMarker] ++
      match contract with
      | .wifiBleConnectedTraffic => softapBleConnectedMarkers
      | .wifiSleConnectedTraffic => softapSleConnectedMarkers
      | _ => []
  else
    commonMarkers ++ roleMarkers role ++
      match contract, role with
      | .bleActivity, .ble => bleActivityMarkers
      | .wifiBleTraffic, .ble => bleTrafficMarkers
      | .wifiBleConnectedTraffic, .ble => bleConnectedTrafficMarkers
      | .wifiSleTraffic, .sle => sleTrafficMarkers
      | .wifiSleConnectedTraffic, .sle => sleConnectedTrafficMarkers
      | _, _ => []

def completionMarker (contract : Contract) (role : Role) : String :=
  match contract, role with
  | .wifiBleTraffic, .ble => "RFDBG_COEX_WIFI_BLE_TRAFFIC_OK"
  | .wifiBleConnectedTraffic, .ble => "RFDBG_COEX_WIFI_BLE_CONNECTED_TRAFFIC_OK"
  | .wifiSleTraffic, .sle => "RFDBG_COEX_WIFI_SLE_TRAFFIC_OK"
  | .wifiSleConnectedTraffic, .sle => "RFDBG_COEX_WIFI_SLE_CONNECTED_TRAFFIC_OK"
  | .wifiBleTraffic, _ | .wifiBleConnectedTraffic, _ | .wifiSleTraffic, _
  | .wifiSleConnectedTraffic, _ => softapTrafficMarker
  | .bleActivity, .ble => "RFDBG_COEX_WIFI_BLE_ACTIVITY_OK"
  | _, _ => "RFDBG_COEX_INIT_OK"

/-! ## §2 Lines of counters -/

/-- Counters by name, as a `dict`. -/
abbrev Counters : Type := List (String × ℕ)

/-- Its keys are the names of a pattern, so a name that is looked up is there. -/
def Counters.get (values : Counters) (name : String) : ℕ := (values.lookup name).getD 0

/-- The value of a digit of `[0-9a-fA-F]`. -/
def hexDigit (c : UInt8) : Option ℕ :=
  if 48 ≤ c ∧ c ≤ 57 then some (c.toNat - 48)
  else if 97 ≤ c ∧ c ≤ 102 then some (c.toNat - 87)
  else if 65 ≤ c ∧ c ≤ 70 then some (c.toNat - 55)
  else none

/-- `([0-9a-fA-F]{8})`, read with `int(value, 16)`. -/
def hex8 (l : Bytes) : Option ℕ :=
  if (l.take 8).length = 8 then
    (l.take 8).foldlM (fun value c => (hexDigit c).map fun digit => 16 * value + digit) 0
  else none

/-- A pattern of texts, each followed by eight hexadecimal digits. -/
def hexFields : List Bytes → Bytes → Option (ℕ × List ℕ)
  | [], _ => some (0, [])
  | text :: texts, l =>
    if text <+: l then do
      let value ← hex8 (l.drop text.length)
      let (length, values) ← hexFields texts (l.drop (text.length + 8))
      return (text.length + 8 + length, value :: values)
    else none

/-- A line that the firmware prints. -/
structure Line where
  head : String
  names : List String

namespace Line

def texts (line : Line) : List Bytes :=
  match line.names.map fun name => ascii " " ++ ascii name ++ ascii "=0x" with
  | [] => []
  | first :: rest => (ascii line.head ++ first) :: rest

/-- The counters of the last match, `findall(payload)[-1]`. -/
def last (line : Line) (payload : Bytes) : Option Counters :=
  (Scan.findAll (hexFields line.texts) payload).getLast?.map line.names.zip

end Line

def localEchoLine : Line where
  head := "RFDBG_COEX_LOCAL_ECHO"
  names := ["sent", "received", "attempts"]

def activityEventLine : Line where
  head := "RFDBG_COEX_EVENT_CONSERVATION"
  names :=
    ["wifi_accepted", "wifi_consumed", "wifi_pending", "wifi_dropped", "wifi_high_water",
      "protocol_accepted", "protocol_consumed", "protocol_pending", "protocol_dropped",
      "protocol_high_water"]

def serverEventLine : Line where
  head := "RFDBG_COEX_SERVER_EVENT_CONSERVATION"
  names := ["accepted", "consumed", "pending", "dropped", "high_water"]

def resourceNames : List String :=
  ["arena", "free", "peak", "failures", "min_free", "max_ready_ms", "ready_limit_ms",
    "max_irq_ms", "irq_limit_ms", "ready_owner_err", "ready_dup", "ready_wrong_bucket",
    "ready_bad_link"]

def activityResourceLine : Line where
  head := "RFDBG_COEX_RESOURCE_ACCEPTANCE"
  names := resourceNames

def serverResourceLine : Line where
  head := "RFDBG_COEX_SERVER_RESOURCE_ACCEPTANCE"
  names := resourceNames

/-- `.*?` and then a pattern. -/
def afterGap {β : Type} (m : Bytes → Option (ℕ × β)) : Bytes → Option (ℕ × β)
  | [] => m []
  | c :: l =>
    match m (c :: l) with
    | some found => some found
    | none => if c = 10 then none else (afterGap m l).map fun found => (found.1 + 1, found.2)

def softapHead : Bytes := ascii "RFDBG_SOFTAP_NET "

/-- `SOFTAP_ECHO_PATTERN`. -/
def softapEchoPattern (l : Bytes) : Option (ℕ × List ℕ) :=
  if softapHead <+: l then
    (afterGap (hexFields [ascii "echo_rx=", ascii " echo_tx="]) (l.drop softapHead.length)).map
      fun found => (softapHead.length + found.1, found.2)
  else none

/-! ## §3 The checks of the counters -/

/-- Counters that have been read, if any, and what they add to the missing evidence. -/
abbrev Checked : Type := Option Counters × List String

/-- The last line decides. -/
def checkLast (line : Line) (payload : Bytes) (absent violation : String)
    (violated : Counters → Bool) : Checked :=
  match line.last payload with
  | none => (none, [absent])
  | some values => (some values, if violated values then [violation] else [])

def localEcho (payload : Bytes) : Checked :=
  checkLast localEchoLine payload "parseable RFDBG_COEX_LOCAL_ECHO"
    "local echo requires sent=10 received=10 and 10<=attempts<=30" fun values =>
      values.get "sent" ≠ 10 || values.get "received" ≠ 10 ||
        !(10 ≤ values.get "attempts" && values.get "attempts" ≤ 30)

/-- The greatest counters of all lines. -/
def softapEcho (payload : Bytes) : Checked :=
  match Scan.findAll softapEchoPattern payload with
  | [] => (none, ["parseable RFDBG_SOFTAP_NET echo counters"])
  | found =>
    let rx := (found.map fun groups => groups.headD 0).foldl max 0
    let tx := (found.map fun groups => groups.tail.headD 0).foldl max 0
    (some [("received", rx), ("sent", tx)],
      if rx < 10 ∨ tx < 10 then ["SoftAP echo requires received>=10 and sent>=10"] else [])

def parseActivityEvents (payload : Bytes) : Checked :=
  checkLast activityEventLine payload "parseable RFDBG_COEX_EVENT_CONSERVATION"
    "activity event conservation requires zero drops and bounded ownership" fun values =>
      values.get "wifi_accepted" ≠ values.get "wifi_consumed" + values.get "wifi_pending" ||
      values.get "protocol_accepted" ≠
        values.get "protocol_consumed" + values.get "protocol_pending" ||
      values.get "wifi_dropped" ≠ 0 || values.get "protocol_dropped" ≠ 0 ||
      8 < values.get "wifi_pending" || 8 < values.get "wifi_high_water" ||
      32 < values.get "protocol_pending" || 32 < values.get "protocol_high_water"

def parseServerEvents (payload : Bytes) : Checked :=
  checkLast serverEventLine payload "parseable RFDBG_COEX_SERVER_EVENT_CONSERVATION"
    "server event conservation requires zero drops and bounded ownership" fun values =>
      values.get "accepted" ≠ values.get "consumed" + values.get "pending" ||
      values.get "dropped" ≠ 0 || 32 < values.get "pending" || 32 < values.get "high_water"

def parseResourceAcceptance (line : Line) (payload : Bytes) (owner : String) : Checked :=
  checkLast line payload ("parseable " ++ owner ++ " coexistence resource acceptance")
    (owner ++ " resource/latency acceptance exceeded its fixture contract") fun values =>
      values.get "arena" = 0 || values.get "arena" < values.get "peak" ||
      values.get "free" < values.get "min_free" || values.get "failures" ≠ 0 ||
      values.get "ready_limit_ms" < values.get "max_ready_ms" ||
      values.get "irq_limit_ms" < values.get "max_irq_ms" ||
      ["ready_owner_err", "ready_dup", "ready_wrong_bucket", "ready_bad_link"].any
        fun name => values.get name ≠ 0

/-! ## §4 The verdict on one log -/

/-- The record of `classify`. -/
structure Result where
  pass : Bool
  missing : List String
  failureMarkers : List String
  wifiScanOkCount : ℕ
  localEcho : Option Counters
  softapEcho : Option Counters
  eventConservation : Option Counters
  resourceAcceptance : Option Counters
  bytes : ℕ
  deriving DecidableEq

/-- Nothing is asked. -/
def unchecked : Checked := (none, [])

def scanCount (contract : Contract) (role : Role) (payload : Bytes) : ℕ :=
  if role = .ble ∨ contract.trafficActivityRole = some role then
    Marker.count (ascii bleScanMarker) payload
  else 0

def scanMissing (contract : Contract) (role : Role) (payload : Bytes) : List String :=
  if ((contract = .bleActivity ∧ role = .ble) ∨
      (contract.isTraffic ∧ contract.trafficActivityRole = some role)) ∧
      scanCount contract role payload ≠ bleActivityScanCount then
    [bleScanMarker ++ " x" ++ toString bleActivityScanCount ++
      " (observed " ++ toString (scanCount contract role payload) ++ ")"]
  else []

def classify (contract : Contract) (role : Role) (payload : Bytes) : Result :=
  let required := requiredMarkers contract role
  let failures := failureMarkers.filter fun marker => has payload marker
  let active : Bool := contract.trafficActivityRole = some role
  let echo := if contract.isTraffic && active then localEcho payload else unchecked
  let softap :=
    if contract.isTraffic && !active && role = .softap then softapEcho payload else unchecked
  let events :=
    if contract.isAcceptance && active then parseActivityEvents payload
    else if contract.isAcceptance && role = .softap then parseServerEvents payload
    else unchecked
  let resources :=
    if contract.isAcceptance && active then
      parseResourceAcceptance activityResourceLine payload "activity"
    else if contract.isAcceptance && role = .softap then
      parseResourceAcceptance serverResourceLine payload "server"
    else unchecked
  let missing := (required.filter fun marker => !has payload marker) ++
    scanMissing contract role payload ++ echo.2 ++ softap.2 ++ events.2 ++ resources.2
  { pass := missing.isEmpty && failures.isEmpty
    missing
    failureMarkers := failures
    wifiScanOkCount := scanCount contract role payload
    localEcho := echo.1
    softapEcho := softap.1
    eventConservation := events.1
    resourceAcceptance := resources.1
    bytes := payload.length }

/-! ## §5 The capture -/

def bothComplete (contract : Contract) (first second : Bytes) : Bool :=
  let roles := contract.endpointRoles
  if contract.isTraffic then
    (classify contract roles.1 first).pass && (classify contract roles.2 second).pass
  else
    has first (completionMarker contract roles.1) && has second (completionMarker contract roles.2)

def script (contract : Contract) : Script where
  complete := bothComplete contract
  hold := 1 / 2
  relay _ := none

/-- `capture_pair`: no board settles. -/
def capturePair (timeout : ℚ) (contract : Contract) (t : Schedule) (ble peer : Board) :
    Bytes × Bytes :=
  let s := (script contract).watch timeout t (ble.feed t.firstPulseAt) (peer.feed t.secondPulseAt)
  (s.first.log, s.second.log)

/-- The results for both boards, as `main` has them. -/
def results (contract : Contract) (timeout : ℚ) (t : Schedule) (ble peer : Board) :
    Result × Result :=
  let logs := capturePair timeout contract t ble peer
  let roles := contract.endpointRoles
  (classify contract roles.1 logs.1, classify contract roles.2 logs.2)

end HisiRiscv.Hil.Coexistence
