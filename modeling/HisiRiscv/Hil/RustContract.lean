/-
HisiRiscv.Hil.RustContract — `validate_rust_contract` of `ws63-connectivity-reset-matrix.py`,
and the parsers of diagnostic lines that it calls.

A log is judged by its markers, which must come in the order of the stages, and by
diagnostic lines of the form `NAME key=0x... key=0x...`, of which the last one with a
given head counts. A violation is a word and a detail.

Translation notes. A dictionary is the list of its assignments; `get` reads the last
one of a key. The texts of values that are not read as numbers stay texts. CPython refuses to
print an integer of more than 4300 digits; a counter of that size is not modelled to fail.

  §1 Tokens and lines.
  §2 Violations.
  §3 Resource calibration.
  §4 Ready ownership.
  §5 The metrics of the runner.
  §6 Public DNS.
  §7 Stage markers.
  §8 The contract.
-/
import HisiRiscv.Hil.Record
import HisiRiscv.Lib.PyBytes
import HisiRiscv.Lib.PyNumber

namespace HisiRiscv.Hil.RustContract

open PyText

/-! ## §1 Tokens and lines -/

section Dictionaries

variable {β : Type}

def get (fields : List (Text × β)) (key : Text) : Option β := fields.reverse.lookup key

/-- `key in fields`. -/
def carries (fields : List (Text × β)) (key : Text) : Bool := (get fields key).isSome

end Dictionaries

/-- The words of a line after its first one. -/
def tokens (line : Bytes) : List Text := (words (PyBytes.decode line)).tail

/-- `token.split("=", 1)`, if there is a `=`. -/
def keyValue (token : Text) : Option (Text × Text) :=
  if '=' ∈ token then some (token.takeWhile (· ≠ '='), (token.dropWhile (· ≠ '=')).tail) else none

/-- A value that does not begin with `0x`, or is no number, is left out. -/
def hexField (token : Text) : Option (Text × ℕ) :=
  (keyValue token).bind fun (key, value) => (PyNumber.intHex value).map (key, ·)

def parseHexFields (line : Bytes) : List (Text × ℕ) := (tokens line).filterMap hexField

def parseTextFields (line : Bytes) : List (Text × Text) := (tokens line).filterMap keyValue

def parseHexValues (line : Bytes) : List ℕ := (tokens line).filterMap PyNumber.intHex

def lastPrefixedLine (log head : Bytes) : Option Bytes :=
  (PyBytes.splitlines log).reverse.find? fun line => decide (head <+: line)

/-! ## §2 Violations -/

inductive Kind where
  | missing
  | forbidden
  | fatal
  | outOfOrder
  | invalid
  | nonzero
  | mismatch
  | budget
  | a5bMetricsIncomplete
  deriving DecidableEq

structure Violation where
  kind : Kind
  detail : Text
  deriving DecidableEq

/-- A violation, unless the condition holds. -/
def require (ok : Bool) (kind : Kind) (detail : Text) : List Violation :=
  if ok then [] else [⟨kind, detail⟩]

/-! ## §3 Resource calibration -/

def resourceHead : Bytes := ascii "RFDBG_RESOURCE "

def heapHead : Bytes := ascii "RFDBG_HEAP "

/-- The two pools of the heap line. -/
def pools : List Text := ["rtos".toList, "rf".toList]

/-- `f"{prefix}_arena"` and the like. -/
def poolKey (pool : Text) (what : String) : Text := pool ++ '_' :: what.toList

/-- `heap.get(key, 0)`. -/
def count (fields : List (Text × ℕ)) (key : Text) : ℕ := (get fields key).getD 0

def poolViolations (heap : List (Text × ℕ)) (pool : Text) : List Violation :=
  let arena := count heap (poolKey pool "arena")
  let used := count heap (poolKey pool "used")
  let free := count heap (poolKey pool "free")
  let peak := count heap (poolKey pool "peak")
  let failures := count heap (poolKey pool "failures")
  require (0 < arena) .invalid (pool ++ ".arena".toList) ++
  require (used + free = arena) .invalid (pool ++ ".used_free".toList) ++
  require (used ≤ peak ∧ peak ≤ arena) .invalid (pool ++ ".peak".toList) ++
  require (failures = 0) .nonzero (pool ++ ".failures".toList)

structure Calibration where
  /-- a number where the text is one -/
  resource : List (Text × (Text ⊕ ℕ))
  heap : List (Text × ℕ)
  violations : List Violation
  complete : Bool

/-- `if not resource_text.get(key)`. -/
def nonempty (fields : List (Text × Text)) (key : Text) : Bool := (get fields key).getD [] ≠ []

def parseResourceCalibration (log : Bytes) : Option Calibration :=
  let resourceLine := lastPrefixedLine log resourceHead
  let heapLine := lastPrefixedLine log heapHead
  if resourceLine = none ∧ heapLine = none then none
  else
    let resourceText := parseTextFields (resourceLine.getD [])
    let resource := parseHexFields (resourceLine.getD [])
    let heap := parseHexFields (heapLine.getD [])
    let resourceRuntime := count resource "runtime_arena".toList
    let resourceRf := count resource "rf_arena".toList
    let violations :=
      require resourceLine.isSome .missing "resource_contract".toList ++
      require heapLine.isSome .missing "heap_metrics".toList ++
      (if resourceLine.isSome then
        require (nonempty resourceText "schema".toList) .missing "resource.schema".toList ++
        require (nonempty resourceText "revision".toList) .missing "resource.revision".toList ++
        require (0 < resourceRuntime) .invalid "resource.runtime_arena".toList ++
        require (0 < resourceRf) .invalid "resource.rf_arena".toList
      else []) ++
      (if heapLine.isSome then pools.flatMap (poolViolations heap) else []) ++
      if resourceLine.isSome ∧ heapLine.isSome then
        require (get heap "rtos_arena".toList = some resourceRuntime) .mismatch
          "rtos.arena".toList ++
        require (get heap "rf_arena".toList = some resourceRf) .mismatch "rf.arena".toList
      else []
    some
      { resource := resourceText.map (fun field => (field.1, .inl field.2)) ++
          resource.map fun field => (field.1, .inr field.2)
        heap, violations
        complete := violations.isEmpty }

/-! ## §4 Ready ownership -/

def readyOwnershipFields : List Text :=
  ["ready_owner_err".toList, "ready_dup".toList, "ready_wrong_bucket".toList,
    "ready_bad_link".toList]

def a5bSchedHead : Bytes := ascii "RFDBG_A5B_SCHED "

def softapSchedHead : Bytes := ascii "RFDBG_SOFTAP_SCHED "

/-- The fields of one line, where the newer lines have not had them. -/
def fillSnapshot (snapshot fields : List (Text × ℕ)) : List (Text × ℕ) :=
  readyOwnershipFields.foldl (fun snapshot field =>
    match get snapshot field, get fields field with
    | none, some value => snapshot ++ [(field, value)]
    | _, _ => snapshot) snapshot

/-- The loop over the lines, the newest first. -/
def snapshotLoop (snapshot : List (Text × ℕ)) : List Bytes → List (Text × ℕ)
  | [] => snapshot
  | line :: lines =>
    let snapshot := fillSnapshot snapshot (parseHexFields line)
    if readyOwnershipFields.all (carries snapshot) then snapshot else snapshotLoop snapshot lines

def parseReadyOwnership (log : Bytes) : Option (List (Text × ℕ)) :=
  let lines := PyBytes.splitlines log
  let head := if lines.any fun line => a5bSchedHead <+: line then a5bSchedHead else softapSchedHead
  let snapshots := lines.reverse.filter fun line => head <+: line
  if snapshots = [] then none else some (snapshotLoop [] snapshots)

/-- `{role}.ready_ownership.{field}`. -/
def ownershipDetail (role field : Text) : Text := role ++ (".ready_ownership.".toList ++ field)

def validateReadyOwnership (log : Bytes) (role : Text) : List Violation :=
  match parseReadyOwnership log with
  | none => [⟨.missing, role ++ ".ready_ownership".toList⟩]
  | some snapshot =>
    readyOwnershipFields.flatMap fun field =>
      match get snapshot field with
      | none => [⟨.missing, ownershipDetail role field⟩]
      | some value =>
        require (value = 0) .nonzero
          (ownershipDetail role field ++ '=' :: (toString value).toList)

/-! ## §5 The metrics of the runner -/

/-- `A5B_METRIC_MARKERS`: a section, the head of its line, its fields. -/
def a5bMetricMarkers : List (String × String × List String) :=
  [("event_queue", "RFDBG_A5B_EVENT ", ["pending", "high_water", "dropped"]),
    ("control_queue", "RFDBG_A5B_CONTROL ", ["pending", "high_water"]),
    ("runner", "RFDBG_A5B_RUNNER run=",
      ["run", "waits", "wake", "immediate", "operations", "completed", "pending", "exhausted",
        "errors"]),
    ("wait", "RFDBG_A5B_WAIT ", ["backend", "l2", "waker", "polls", "pending", "ready", "timer"]),
    ("blocking", "RFDBG_A5B_BLOCKING ",
      ["init_calls", "init_max_ms", "scan_calls", "poll_calls", "internal_sleep",
        "supplicant_poll"])]

structure Metrics where
  sections : List (Text × List (Text × ℕ))
  timings : List (Text × ℕ)
  complete : Bool
  missing : List Text

/-- A section, or what is missing of it. -/
def metricSection (log : Bytes) (marker : String × String × List String) :
    List Text ⊕ Text × List (Text × ℕ) :=
  let (name, head, required) := marker
  match lastPrefixedLine log (ascii head) with
  | none => .inl [name.toList]
  | some line =>
    let fields := parseHexFields line
    let absent := (required.map String.toList).filter fun field => !carries fields field
    if absent ≠ [] then .inl (absent.map fun field => name.toList ++ '.' :: field)
    else .inr (name.toList, required.map fun field => (field.toList, count fields field.toList))

/-- An elapsed time, or its name when it is missing. -/
def elapsed (log : Bytes) (timing : String × String) : Text ⊕ Text × ℕ :=
  let (name, head) := timing
  match (lastPrefixedLine log (ascii head)).bind fun line =>
      get (parseHexFields line) "elapsed_ms".toList with
  | none => .inl name.toList
  | some value => .inr (name.toList, value)

def timingMarkers (requireDisconnect : Bool) : List (String × String) :=
  [("initialize_elapsed_ms", "RFDBG_A5B_INITIALIZE_OK "), ("scan_elapsed_ms", "RFDBG_A5B_SCAN_OK "),
    ("connect_elapsed_ms", "RFDBG_A5B_CONNECT_OK ")] ++
  if requireDisconnect then [("disconnect_elapsed_ms", "RFDBG_A5B_DISCONNECT_OK ")] else []

/-- The greatest of the four ioctl times, if the line has all twelve values. -/
def associationIoctlMax (log : Bytes) : Option ℕ :=
  let values :=
    ((lastPrefixedLine log (ascii "RFDBG_A5B_CONNECT_ASSOC_IOCTL ")).map parseHexValues).getD []
  if values.length = 12 then
    some (([2, 5, 8, 11].map fun index => values.getD index 0).foldl max 0)
  else none

def runnerSteps (log : Bytes) : List ℕ :=
  ((PyBytes.splitlines log).filter fun line => ascii "RFDBG_A5B_RUNNER_ELAPSED_MS " <+: line)
    |>.filterMap fun line => get (parseHexFields line) "value".toList

def parseA5bMetrics (log : Bytes) (requireDisconnect : Bool) : Option Metrics :=
  if !(PyBytes.splitlines log).any fun line =>
      a5bMetricMarkers.any fun marker => ascii marker.2.1 <+: line then none
  else
    let sections := a5bMetricMarkers.map (metricSection log)
    let times := (timingMarkers requireDisconnect).map (elapsed log)
    let ioctl := associationIoctlMax log
    let steps := runnerSteps log
    let missing :=
      (sections.filterMap Sum.getLeft?).flatten ++ times.filterMap Sum.getLeft? ++
      (if ioctl = none then ["association_ioctl".toList] else []) ++
      if steps = [] then ["runner_step_elapsed".toList] else []
    some
      { sections := sections.filterMap Sum.getRight?
        timings := times.filterMap Sum.getRight? ++
          (ioctl.map fun value => ("association_ioctl_max_ms".toList, value)).toList ++
          if steps = [] then []
          else [("runner_step_max_ms".toList, steps.foldl max 0),
            ("runner_step_count".toList, steps.length)]
        complete := missing.isEmpty
        missing }

/-- A field of complete metrics. -/
def Metrics.field (metrics : Metrics) (name field : String) : ℕ :=
  count ((get metrics.sections name.toList).getD []) field.toList

def commaSeparated (parts : List Text) : Text := [','].intercalate parts

def validateA5bMetrics (log : Bytes) (maxRunnerStepMs : Option ℤ) (requireDisconnect : Bool) :
    List Violation :=
  if !has log "RFDBG_A5B_CONNECT_PROFILE_OK" then
    require maxRunnerStepMs.isNone .missing "a5b_connect_profile".toList
  else
    match parseA5bMetrics log requireDisconnect with
    | none => [⟨.a5bMetricsIncomplete, []⟩]
    | some metrics =>
      if !metrics.complete then [⟨.a5bMetricsIncomplete, commaSeparated metrics.missing⟩]
      else
        let step := count metrics.timings "runner_step_max_ms".toList
        require (metrics.field "event_queue" "dropped" = 0) .nonzero "event_queue.dropped".toList ++
        require (metrics.field "runner" "errors" = 0) .nonzero "runner.errors".toList ++
        (["scan_calls", "poll_calls", "internal_sleep", "supplicant_poll"].flatMap fun field =>
          require (metrics.field "blocking" field = 0) .nonzero ("blocking." ++ field).toList) ++
        match maxRunnerStepMs with
        | none => []
        | some limit =>
          require (step ≤ limit) .budget
            ("runner_step_max_ms=" ++ toString step ++ ">" ++ toString limit).toList

/-! ## §6 Public DNS -/

def publicDnsTargets : List Text := ["223.5.5.5".toList, "180.76.76.76".toList]

/-- `target` and `reason` are texts, the other fields numbers. -/
def dnsField (token : Text) : Option (Text × (Text ⊕ ℕ)) :=
  (keyValue token).bind fun (key, value) =>
    if key = "target".toList ∨ key = "reason".toList then some (key, .inl value)
    else (PyNumber.intHex value).map fun number => (key, .inr number)

def parseDnsSummary (log : Bytes) : Option (List (Text × (Text ⊕ ℕ))) :=
  let ok := ascii "RF5C_PUBLIC_DNS_OK "
  let skip := ascii "RF5C_PUBLIC_DNS_SKIP "
  ((PyBytes.splitlines log).reverse.find? fun line =>
      ok <+: line ∨ ascii "RF5C_PUBLIC_DNS_ERR " <+: line ∨ skip <+: line).map fun line =>
    let status := if skip <+: line then "skipped" else if ok <+: line then "ok" else "error"
    ("status".toList, .inl status.toList) :: (tokens line).filterMap dnsField

/-- `int(dns.get(key, 0))`; the counters are numbers. -/
def dnsCount (dns : List (Text × (Text ⊕ ℕ))) (key : String) : ℕ :=
  ((get dns key.toList).bind Sum.getRight?).getD 0

def validateDns (dns : List (Text × (Text ⊕ ℕ))) : List Violation :=
  if get dns "status".toList = some (.inl "skipped".toList) then
    require (get dns "reason".toList = some (.inl "no-default-route".toList)) .invalid
      "public_dns.skip_reason".toList
  else
    require (publicDnsTargets.any fun target => get dns "target".toList = some (.inl target))
      .invalid "public_dns.target".toList ++
    require (get dns "status".toList = some (.inl "ok".toList)) .invalid
      "public_dns.status".toList ++
    require (0 < dnsCount dns "attempts") .invalid "public_dns.attempts".toList ++
    require (0 < dnsCount dns "responses") .invalid "public_dns.responses".toList ++
    require (dnsCount dns "tx_error" = 0) .nonzero "public_dns.tx_error".toList

/-! ## §7 Stage markers -/

/-- `RUST_STAGE_MARKERS.get(stage)`: the groups with their alternatives. -/
def stageMarkers : Stage → Option (List (String × List String))
  | .initScan => some
      [("image", ["RF1_IMAGE_OK"]), ("initialize", ["RF2_INIT_OK"]),
        ("initialized_event", ["A4_RADIO_EVENT kind=initialized"]), ("scan", ["RF3_SCAN_OK"]),
        ("scan_event", ["A4_RADIO_EVENT kind=scan-completed"])]
  | .connect => none
  | .connectivity => some
      [("image", ["RF1_IMAGE_OK"]), ("initialize", ["RF2_INIT_OK"]),
        ("initialized_event", ["A4_RADIO_EVENT kind=initialized"]), ("scan", ["RF3_SCAN_OK"]),
        ("scan_event", ["A4_RADIO_EVENT kind=scan-completed"]),
        ("connect", ["RF5B_WPA_CONNECT_OK", "W2D_WPA2_CONNECT_OK", "W2E_WPA3_CONNECT_OK"]),
        ("connected_event", ["A4_RADIO_EVENT kind=connected"]), ("dhcp", ["RF5A_DHCP_OK"]),
        ("neighbor", ["RF5A_ARP_OK"]), ("local_data_path", ["RF5C_LOCAL_DATA_PATH_OK"]),
        ("summary", ["RF5C_CONNECTIVITY_SUMMARY"]), ("steady", ["A4_NET_RUNNER_STEADY"]),
        ("dhcp_renew", ["A4_DHCP_RENEW_OK"])]

/-- `log.find(marker, after)`. -/
def findFrom (log marker : Bytes) (after : ℕ) : Option ℕ :=
  (Marker.find marker (log.drop after)).map (after + ·)

def markerGroupPosition (log : Bytes) (markers : List String) (after : ℕ) : Option ℕ :=
  (markers.filterMap fun marker => findFrom log (ascii marker) after).min?

/-- The loop over the groups of a stage. -/
def stageLoop (log : Bytes) (cursor : ℕ) : List (String × List String) → List Violation
  | [] => []
  | (name, markers) :: groups =>
    match markerGroupPosition log markers cursor with
    | none => ⟨.missing, name.toList⟩ :: stageLoop log cursor groups
    | some position =>
      if position < cursor then ⟨.outOfOrder, name.toList⟩ :: stageLoop log cursor groups
      else stageLoop log (position + 1) groups

/-! ## §8 The contract -/

def rustFatalMarkers : List String :=
  ["A4_NET_ERR", "RF2_INIT_ERR:", "RF3_SCAN_ERR", "RF5B_AP_NOT_FOUND", "RF5B_CONNECT_ERR:",
    "RF5B_WPA_CONNECT_ERR:", "W2D_WPA2_CONNECT_ERR", "W2E_WPA3_CONNECT_ERR", "RFDBG_A5B_SCAN_ERR",
    "RFDBG_A5B_CONNECT_ERR", "RFDBG_A5B_RUNNER_ERR", "RFDBG_A5B_WAIT_ERR", "RF5C_PUBLIC_DNS_ERR",
    "RFDBG_EXCEPTION", "panicked at", "scheduler contract violation", "BUDGET_VIOLATION"]

def qemuContractFixtureMarker : String := "RFDBG_CONNECTIVITY_CONTRACT_FIXTURE"

def summaryViolations (summary : List (Text × ℕ)) (publicDnsSkipped : Bool) : List Violation :=
  let value := fun key : String => count summary key.toList
  (["arp_request", "arp_reply", "dns_attempts", "dns_responses", "dns_invalid", "dns_tx_error",
      "rx_queue_drop"].flatMap fun field =>
    require (carries summary field.toList) .missing ("summary." ++ field).toList) ++
  require (0 < value "arp_request") .invalid "summary.arp_request".toList ++
  require (0 < value "arp_reply") .invalid "summary.arp_reply".toList ++
  (if publicDnsSkipped then
    require (value "dns_attempts" = 0) .nonzero "summary.dns_attempts".toList ++
    require (value "dns_responses" = 0) .nonzero "summary.dns_responses".toList
  else
    require (0 < value "dns_attempts") .invalid "summary.dns_attempts".toList ++
    require (0 < value "dns_responses") .invalid "summary.dns_responses".toList) ++
  require (value "dns_tx_error" = 0) .nonzero "summary.dns_tx_error".toList ++
  require (value "rx_queue_drop" = 0) .nonzero "summary.rx_queue_drop".toList

def connectivityViolations (log : Bytes) : List Violation :=
  require (has log "RF5C_PUBLIC_DNS_OK" || has log "RF5C_PUBLIC_DNS_SKIP") .missing
    "public_dns".toList ++
  require (!has log "W2E_WPA3_CONNECT_OK" || has log "W2E_WPA3_CONNECT_OK pmf=required") .invalid
    "wpa3.pmf".toList ++
  (match lastPrefixedLine log (ascii "RF5C_CONNECTIVITY_SUMMARY ") with
  | none => []
  | some line =>
    summaryViolations (parseHexFields line)
      (has log "RF5C_PUBLIC_DNS_SKIP reason=no-default-route")) ++
  (match parseDnsSummary log with
  | none => []
  | some dns => validateDns dns) ++
  match lastPrefixedLine log (ascii "A4_DHCP_RENEW_OK ") with
  | none => []
  | some line =>
    let renew := parseHexFields line
    require (0 < count renew "client".toList) .invalid "dhcp_renew.client".toList ++
    require (0 < count renew "server".toList) .invalid "dhcp_renew.server".toList

/-- The groups of a stage in their order, and the count of the scan. -/
def stageViolations (log : Bytes) (groups : List (String × List String)) : List Violation :=
  stageLoop log 0 groups ++
  match lastPrefixedLine log (ascii "RF3_SCAN_OK ") with
  | none => []
  | some line =>
    require (0 < count (parseHexFields line) "count".toList) .invalid "scan.count".toList

def fatalViolations (log : Bytes) : List Violation :=
  (rustFatalMarkers.filter (has log)).map fun marker => ⟨.fatal, marker.toList⟩

def fixtureViolations (log : Bytes) (qemuContractFixture : Bool) : List Violation :=
  let marked := has log qemuContractFixtureMarker
  require (!qemuContractFixture || marked) .missing "qemu_contract_fixture".toList ++
  require (qemuContractFixture || !marked) .forbidden "qemu_contract_fixture".toList

def connectViolations (log : Bytes) : List Violation :=
  require (has log "RFDBG_A5B_CONNECT_PROFILE_OK" ||
      ["RF5B_WPA_CONNECT_OK", "W2D_WPA2_CONNECT_OK", "W2E_WPA3_CONNECT_OK"].any (has log))
    .missing "connect".toList

def calibrationViolations (log : Bytes) : List Violation :=
  match parseResourceCalibration log with
  | none => [⟨.missing, "resource_calibration".toList⟩]
  | some calibration => calibration.violations

def validateRustContract (log : Bytes) (stage : Stage) (maxRunnerStepMs : Option ℤ)
    (qemuContractFixture requireResourceCalibration : Bool) : List Violation :=
  fixtureViolations log qemuContractFixture ++
  fatalViolations log ++
  ((stageMarkers stage).elim [] (stageViolations log)) ++
  (if stage = .connect ∨ stage = .connectivity then
    validateReadyOwnership log "sta".toList ++
      validateA5bMetrics log maxRunnerStepMs (stage = .connect)
  else []) ++
  (if stage = .connect then connectViolations log else []) ++
  (if stage = .connectivity then connectivityViolations log else []) ++
  if requireResourceCalibration then calibrationViolations log else []

end HisiRiscv.Hil.RustContract
