/-
HisiRiscv.Hil.Persistence — `classify` and `validate_persistence` of
`ws63-ble-bond-reset-matrix.py`: what a series of resets proves about a stored bond.

`classify` judges the two logs of one reset. `validate_persistence` looks at all of
them: a bond that one boot has stored must be there at the next one, or be gone after its
removal. One reset can not show that, and where the first boot finds no bond the
code says so; where it restores one, and where bonds are removed, it asks for no
second reset (`persistence_proven_iff`).

Translation notes. A record has the fields of `classify` and the number of the run. The
names of the log files, which `main` adds, are left out.

  §1 The markers of a role.
  §2 The verdict on one reset.
  §3 The verdict on a series.
  §4 What a verdict says.
  §5 Main result.
-/
import Mathlib.Data.List.Chain
import HisiRiscv.Hil.BondMatrix
import HisiRiscv.Hil.RadioMatrix

namespace HisiRiscv.Hil.BondMatrix

/-! ## §1 The markers of a role -/

def peripheralMarkers : List String :=
  ["RFDBG_RADIO_U5_BLE_PERIPHERAL_READY", "RFDBG_RADIO_U5_BLE_PERIPHERAL_CONNECTED",
    "RFDBG_RADIO_U5_BLE_PERIPHERAL_PASSKEY_DISPLAY=[REDACTED]",
    "RFDBG_RADIO_U5_BLE_PERIPHERAL_PAIRED", "RFDBG_RADIO_U5_BLE_PERIPHERAL_AUTH_OK",
    "RFDBG_RADIO_U5_BLE_PERIPHERAL_BOND_OBSERVED", "RFDBG_RADIO_U5_BLE_PERIPHERAL_BOND_OK"]

def peripheralRestoredMarkers : List String :=
  ["RFDBG_RADIO_U5_BLE_PERIPHERAL_READY", "RFDBG_RADIO_U5_BLE_PERIPHERAL_CONNECTED",
    "RFDBG_RADIO_U5_BLE_PERIPHERAL_PAIRED", "RFDBG_RADIO_U5_BLE_PERIPHERAL_RESTORED_ACTIVE",
    "RFDBG_RADIO_U5_BLE_PERIPHERAL_BOND_OK"]

def centralMarkers : List String :=
  ["RFDBG_RADIO_U5_BLE_SCAN_MATCH", "RFDBG_RADIO_U5_BLE_CENTRAL_CONNECTED",
    "RFDBG_RADIO_U5_BLE_CENTRAL_PASSKEY_INPUT", "RFDBG_RADIO_U5_BLE_CENTRAL_PASSKEY_ACCEPTED",
    "RFDBG_RADIO_U5_BLE_PAIR_ACCEPTED", "RFDBG_RADIO_U5_BLE_CENTRAL_PAIRED",
    "RFDBG_RADIO_U5_BLE_CENTRAL_AUTH_OK", "RFDBG_RADIO_U5_BLE_CENTRAL_BOND_OBSERVED",
    "RFDBG_RADIO_U5_BLE_CENTRAL_BOND_OK"]

def centralRestoredMarkers : List String :=
  ["RFDBG_RADIO_U5_BLE_SCAN_MATCH", "RFDBG_RADIO_U5_BLE_CENTRAL_CONNECTED",
    "RFDBG_RADIO_U5_BLE_CENTRAL_PAIRED", "RFDBG_RADIO_U5_BLE_CENTRAL_RESTORED_ACTIVE",
    "RFDBG_RADIO_U5_BLE_CENTRAL_BOND_OK"]

def peripheralRemovalMarkers : List String :=
  peripheralRestoredMarkers ++
    ["RFDBG_RADIO_U5_BLE_PERIPHERAL_BOND_REMOVED", "RFDBG_RADIO_U5_BLE_PERIPHERAL_BOND_REMOVE_OK"]

def centralRemovalMarkers : List String :=
  centralRestoredMarkers ++
    ["RFDBG_RADIO_U5_BLE_CENTRAL_BOND_REMOVED", "RFDBG_RADIO_U5_BLE_CENTRAL_BOND_REMOVE_OK"]

def peripheralRejectMarkers : List String :=
  ["RFDBG_RADIO_U5_BLE_PERIPHERAL_READY", "RFDBG_RADIO_U5_BLE_PERIPHERAL_CONNECTED",
    "RFDBG_RADIO_U5_BLE_PERIPHERAL_NEGATIVE_DISCONNECTED",
    "RFDBG_RADIO_U5_BLE_PERIPHERAL_REJECT_OK"]

def centralRejectMarkers : List String :=
  ["RFDBG_RADIO_U5_BLE_SCAN_MATCH", "RFDBG_RADIO_U5_BLE_CENTRAL_CONNECTED",
    "RFDBG_RADIO_U5_BLE_CENTRAL_PASSKEY_INPUT", "RFDBG_RADIO_U5_BLE_CENTRAL_REJECT_ACCEPTED",
    "RFDBG_RADIO_U5_BLE_CENTRAL_NEGATIVE_DISCONNECTED", "RFDBG_RADIO_U5_BLE_CENTRAL_REJECT_OK"]

def peripheralStaleMarkers : List String :=
  ["RFDBG_RADIO_U5_BLE_PERIPHERAL_READY", "RFDBG_RADIO_U5_BLE_PERIPHERAL_CONNECTED",
    "RFDBG_RADIO_U5_BLE_PERIPHERAL_NEGATIVE_DISCONNECTED",
    "RFDBG_RADIO_U5_BLE_PERIPHERAL_STALE_OK"]

def centralStaleMarkers : List String :=
  ["RFDBG_RADIO_U5_BLE_SCAN_MATCH", "RFDBG_RADIO_U5_BLE_CENTRAL_CONNECTED",
    "RFDBG_RADIO_U5_BLE_CENTRAL_PASSKEY_INPUT", "RFDBG_RADIO_U5_BLE_CENTRAL_STALE_REJECTED",
    "RFDBG_RADIO_U5_BLE_CENTRAL_NEGATIVE_DISCONNECTED", "RFDBG_RADIO_U5_BLE_CENTRAL_STALE_OK"]

def peripheralEmpty : String := "RFDBG_RADIO_U5_BLE_PERIPHERAL_BOND_EMPTY"
def peripheralRestored : String := "RFDBG_RADIO_U5_BLE_PERIPHERAL_BOND_RESTORED"
def centralEmpty : String := "RFDBG_RADIO_U5_BLE_CENTRAL_BOND_EMPTY"
def centralRestored : String := "RFDBG_RADIO_U5_BLE_CENTRAL_BOND_RESTORED"

def peripheralStartupMarkers : List String := [peripheralEmpty, peripheralRestored]

def centralStartupMarkers : List String := [centralEmpty, centralRestored]

def failureMarkers : List String :=
  ["RFDBG_RADIO_U5_BLE_EVENT_DROP", "RFDBG_RADIO_U5_BLE_BOND_CONSERVATION_ERR",
    "RFDBG_RADIO_U5_BLE_PERIPHERAL_ERR", "RFDBG_RADIO_U5_BLE_CENTRAL_ERR",
    "RFDBG_RADIO_U5_BLE_COMMAND_ERR", "RFDBG_RADIO_U5_BLE_SCAN_LIFECYCLE_ERR",
    "RFDBG_RADIO_U5_BLE_SCAN_STOP_ERR", "RFDBG_RADIO_U5_BLE_PERIPHERAL_BOND_RESTORE_ERR",
    "RFDBG_RADIO_U5_BLE_CENTRAL_BOND_RESTORE_ERR", "RFDBG_RADIO_U5_BLE_RESTORED_STATE_ERR",
    "RFDBG_RADIO_U5_BLE_STATE_QUEUE_ERR", "RFDBG_RADIO_U5_BLE_PASSKEY_QUEUE_ERR",
    "RFDBG_RADIO_U5_BLE_PASSKEY_RESPONSE_ERR", "RFDBG_RADIO_U5_BLE_NEGATIVE_REQUIRES_EMPTY",
    "RFDBG_RADIO_U5_BLE_NEGATIVE_PAIRED_ERR", "RFDBG_RADIO_U5_BLE_NEGATIVE_AUTH_ERR",
    "RFDBG_RADIO_U5_BLE_NEGATIVE_BOND_ERR", "RFDBG_RADIO_U5_BLE_STALE_DISCONNECT_ERR",
    "RFDBG_RADIO_U5_BLE_NEGATIVE_CONSERVATION_ERR", "RFDBG_NV_WRITE_ERR", "panicked at"]

def bootMarker : Bytes := ascii "boot."

def u5MarkerPrefix : Bytes := ascii "RFDBG_RADIO_U5_BLE_"

def markerContract (mode : PairingMode) (peripheral restored expectRemoval : Bool) : List String :=
  match mode with
  | .reject => if peripheral then peripheralRejectMarkers else centralRejectMarkers
  | .stale => if peripheral then peripheralStaleMarkers else centralStaleMarkers
  | .passkey =>
    if peripheral then
      if restored && expectRemoval then peripheralRemovalMarkers
      else if restored then peripheralRestoredMarkers
      else peripheralMarkers
    else if restored && expectRemoval then centralRemovalMarkers
    else if restored then centralRestoredMarkers
    else centralMarkers

/-! ## §2 The verdict on one reset -/

/-- The dictionary that `classify` returns. -/
structure Verdict where
  pass : Bool
  peripheralMissing : List String
  centralMissing : List String
  failureMarkers : List String
  peripheralStartup : List String
  centralStartup : List String
  roleMismatch : Bool
  restoreMismatch : Bool
  negativeRequiresEmpty : Bool
  generationFailures : List String
  restoredContract : Bool
  peripheralBytes : ℕ
  centralBytes : ℕ
  deriving DecidableEq

def generationErrors (role : String) (data : Bytes) : List String :=
  let bootCount := Marker.count bootMarker data
  (if bootCount ≠ 1 then
      [role ++ " boot marker count was " ++ toString bootCount ++ ", expected 1"]
    else []) ++
  match Marker.find u5MarkerPrefix data, Marker.find bootMarker data with
  | none, _ => []
  | some protocolAt, some bootAt =>
    if protocolAt < bootAt then [role ++ " contained a U5 marker before its boot marker"] else []
  | some _, none => [role ++ " contained a U5 marker before its boot marker"]

def classify (peripheral central : Bytes) (mode : PairingMode)
    (expectRemoval requireSingleGeneration : Bool) : Verdict :=
  let generationFailures :=
    if requireSingleGeneration then
      generationErrors "peripheral" peripheral ++ generationErrors "central" central
    else []
  let peripheralIsRestored := has peripheral peripheralRestored
  let centralIsRestored := has central centralRestored
  let peripheralMissing :=
    missingMarkers (markerContract mode true peripheralIsRestored expectRemoval) peripheral
  let centralMissing :=
    missingMarkers (markerContract mode false centralIsRestored expectRemoval) central
  let failures := failureMarkers.filter fun marker => has peripheral marker || has central marker
  let peripheralStartup := peripheralStartupMarkers.filter (has peripheral)
  let centralStartup := centralStartupMarkers.filter (has central)
  let roleMismatch :=
    centralStartupMarkers.any (has peripheral) || peripheralStartupMarkers.any (has central)
  let startupValid := peripheralStartup.length == 1 && centralStartup.length == 1
  let restoreMismatch := peripheralIsRestored != centralIsRestored
  let negativeRequiresEmpty :=
    mode != .passkey && (peripheralIsRestored || centralIsRestored)
  { pass := peripheralMissing.isEmpty && centralMissing.isEmpty && failures.isEmpty &&
      !roleMismatch && startupValid && !restoreMismatch && !negativeRequiresEmpty &&
      generationFailures.isEmpty
    peripheralMissing, centralMissing
    failureMarkers := failures
    peripheralStartup, centralStartup, roleMismatch, restoreMismatch, negativeRequiresEmpty
    generationFailures
    restoredContract := peripheralIsRestored && centralIsRestored
    peripheralBytes := peripheral.length
    centralBytes := central.length }

/-! ## §3 The verdict on a series -/

/-- A verdict with the number of its run. -/
structure ResetRecord extends Verdict where
  run : ℕ
  deriving DecidableEq

structure Persistence where
  proven : Bool
  errors : List String
  deriving DecidableEq

def PairingMode.name : PairingMode → String
  | .passkey => "passkey"
  | .reject => "reject"
  | .stale => "stale"

/-- `run {record['run']} ...`. -/
def runError (record : ResetRecord) (what : String) : String :=
  "run " ++ toString record.run ++ what

/-- An error for each record of a kind. -/
def errorsWhere (records : List ResetRecord) (bad : ResetRecord → Bool) (what : String) :
    List String :=
  (records.filter bad).map fun record => runError record what

def negativeErrors (mode : PairingMode) (records : List ResetRecord) : List String :=
  (if records.length < 2 then ["a negative pairing mode needs a subsequent reset"] else []) ++
    errorsWhere records (fun record => record.restoredContract)
      (" restored a bond in " ++ mode.name ++ " mode")

def removalErrors (records : List ResetRecord) : List String :=
  ((records.zip records.tail).filter fun (previous, current) =>
      current.restoredContract != !previous.restoredContract).map fun (previous, current) =>
    let expected := if previous.restoredContract then "empty" else "restored"
    runError current (" was not " ++ expected ++ " after run " ++ toString previous.run)

def freshErrors (records : List ResetRecord) : List String :=
  (if records.length < 2 then ["a fresh pairing needs a subsequent reset to prove restore"]
    else []) ++
    errorsWhere records.tail (fun record => !record.restoredContract)
      " returned to an empty bond after fresh pairing"

def restoredErrors (records : List ResetRecord) : List String :=
  errorsWhere records.tail (fun record => !record.restoredContract)
    " lost a bond restored by the preceding reset"

def persistenceErrors (mode : PairingMode) (expectRemoval : Bool) (records : List ResetRecord) :
    List String :=
  match records with
  | [] => ["no reset records"]
  | first :: _ =>
    errorsWhere records (fun record => !record.pass) " did not satisfy the per-run contract" ++
      if mode ≠ .passkey then negativeErrors mode records
      else if expectRemoval then removalErrors records
      else if !first.restoredContract then freshErrors records
      else restoredErrors records

def validatePersistence (records : List ResetRecord) (mode : PairingMode) (expectRemoval : Bool) :
    Persistence :=
  let errors := persistenceErrors mode expectRemoval records
  { proven := errors.isEmpty, errors }

/-! ## §4 What a verdict says -/

section Verdict

variable {peripheral central : Bytes} {mode : PairingMode} {expectRemoval single : Bool}

theorem startup_eq {log : Bytes} {empty restored : String}
    (h : ([empty, restored].filter (has log)).length = 1) :
    [empty, restored].filter (has log) = if has log restored then [restored] else [empty] := by
  cases hempty : has log empty <;> cases hrestored : has log restored <;>
    simp [hempty, hrestored] at h ⊢

/-- Both boards have found the bond, or none. -/
def Verdict.FoundAlike (verdict : Verdict) : Prop :=
  verdict.peripheralStartup =
      [if verdict.restoredContract then peripheralRestored else peripheralEmpty] ∧
    verdict.centralStartup = [if verdict.restoredContract then centralRestored else centralEmpty]

theorem foundAlike_of_pass (h : (classify peripheral central mode expectRemoval single).pass = true) :
    (classify peripheral central mode expectRemoval single).FoundAlike := by
  simp only [classify, Bool.and_eq_true, beq_iff_eq, Bool.not_eq_true', bne_eq_false_iff_eq] at h
  obtain ⟨⟨⟨⟨-, hperipheral, hcentral⟩, hsame⟩, -⟩, -⟩ := h
  constructor
  · refine (startup_eq hperipheral).trans ?_
    simp only [classify, ← hsame, Bool.and_self]
    split <;> rfl
  · refine (startup_eq hcentral).trans ?_
    simp only [classify, hsame, Bool.and_self]
    split <;> rfl

/-- In a negative mode no reset that finds a bond passes. -/
theorem not_restoredContract_of_pass (hmode : mode ≠ .passkey)
    (h : (classify peripheral central mode expectRemoval single).pass = true) :
    (classify peripheral central mode expectRemoval single).restoredContract = false := by
  simp only [classify, Bool.and_eq_true, Bool.not_eq_true'] at h
  obtain ⟨⟨-, hnegative⟩, -⟩ := h
  have hne : (mode != .passkey) = true := bne_iff_ne.mpr hmode
  rw [hne, Bool.true_and, Bool.or_eq_false_iff] at hnegative
  simp only [classify, hnegative.1, Bool.false_and]

end Verdict

/-! ## §5 Main result -/

/-- A bond is stored and found at every later reset. -/
def Restores (records : List ResetRecord) : Prop :=
  (∃ first later, records = first :: later ∧ first.restoredContract = false ∧ later ≠ [] ∧
      ∀ record ∈ later, record.restoredContract = true) ∨
    2 ≤ records.length ∧ ∀ record ∈ records, record.restoredContract = true

/-- Each reset finds what the one before has left: no bond after a removal, one after a pairing. -/
def Alternates (records : List ResetRecord) : Prop :=
  2 ≤ records.length ∧
    records.IsChain fun previous current => current.restoredContract ≠ previous.restoredContract

/-- No reset finds a bond. -/
def StaysEmpty (records : List ResetRecord) : Prop :=
  2 ≤ records.length ∧ ∀ record ∈ records, record.restoredContract = false

/-- The records show that the bond of this mode is kept, or never made. -/
def Evident (records : List ResetRecord) (mode : PairingMode) (expectRemoval : Bool) : Prop :=
  (∀ record ∈ records, record.pass = true) ∧
    match mode, expectRemoval with
    | .passkey, false => Restores records
    | .passkey, true => Alternates records
    | .reject, _ | .stale, _ => StaysEmpty records

section Series

variable {records later : List ResetRecord} {first : ResetRecord} {mode : PairingMode}
  {expectRemoval : Bool} {bad : ResetRecord → Bool} {what : String}

theorem errorsWhere_eq_nil :
    errorsWhere records bad what = [] ↔ ∀ record ∈ records, bad record = false := by
  rw [errorsWhere, List.map_eq_nil_iff, List.filter_eq_nil_iff]
  simp only [Bool.not_eq_true]

theorem tooFew_eq_nil {error : String} :
    (if records.length < 2 then [error] else []) = [] ↔ 2 ≤ records.length := by
  rw [ite_eq_right_iff, ← Nat.not_lt]
  exact forall_congr' fun _ => iff_of_false (List.cons_ne_nil _ _) not_false

theorem negativeErrors_eq_nil : negativeErrors mode records = [] ↔ StaysEmpty records := by
  rw [negativeErrors, List.append_eq_nil_iff, tooFew_eq_nil, errorsWhere_eq_nil, StaysEmpty]

theorem removalErrors_eq_nil : removalErrors records = [] ↔
    records.IsChain fun previous current => current.restoredContract ≠ previous.restoredContract := by
  rw [removalErrors, List.map_eq_nil_iff, List.filter_eq_nil_iff]
  induction records with
  | nil => simp
  | cons first later ih =>
    cases later with
    | nil => simp
    | cons second later =>
      rw [List.tail_cons] at ih
      rw [List.tail_cons, List.zip_cons_cons, List.forall_mem_cons, ih, List.isChain_cons_cons]
      refine and_congr_left fun _ => ?_
      simp only [bne_iff_ne, ne_eq, Decidable.not_not]
      cases first.restoredContract <;> cases second.restoredContract <;> decide

theorem freshErrors_eq_nil : freshErrors (first :: later) = [] ↔
    later ≠ [] ∧ ∀ record ∈ later, record.restoredContract = true := by
  have hlater : 2 ≤ (first :: later).length ↔ later ≠ [] := by
    rw [List.length_cons, ← List.length_pos_iff]
    omega
  rw [freshErrors, List.append_eq_nil_iff, tooFew_eq_nil, hlater, errorsWhere_eq_nil, List.tail_cons]
  simp only [Bool.not_eq_false']

theorem restoredErrors_eq_nil : restoredErrors (first :: later) = [] ↔
    ∀ record ∈ later, record.restoredContract = true := by
  rw [restoredErrors, errorsWhere_eq_nil, List.tail_cons]
  simp only [Bool.not_eq_false']

theorem proven_cons : (validatePersistence (first :: later) mode expectRemoval).proven = true ↔
    (∀ record ∈ first :: later, record.pass = true) ∧
      (if mode ≠ .passkey then negativeErrors mode (first :: later)
        else if expectRemoval then removalErrors (first :: later)
        else if !first.restoredContract then freshErrors (first :: later)
        else restoredErrors (first :: later)) = [] := by
  rw [validatePersistence, List.isEmpty_iff, persistenceErrors, List.append_eq_nil_iff,
    errorsWhere_eq_nil]
  simp only [Bool.not_eq_false']

theorem pass_of_proven (h : (validatePersistence records mode expectRemoval).proven = true) :
    ∀ record ∈ records, record.pass = true := by
  cases records with
  | nil => simp
  | cons first later => exact (proven_cons.mp h).1

/-- One reset proves a bond that it restores, or removes. -/
theorem proven_single {record : ResetRecord} :
    (validatePersistence [record] mode expectRemoval).proven = true ↔
      record.pass = true ∧ mode = .passkey ∧ (expectRemoval = true ∨ record.restoredContract = true) := by
  rw [proven_cons, List.forall_mem_singleton]
  refine and_congr_right fun _ => ?_
  split
  · rename_i hmode
    refine iff_of_false (fun hnil => ?_) fun h => hmode h.1
    exact absurd (negativeErrors_eq_nil.mp hnil).1 (Nat.not_succ_le_self 1)
  · rename_i hmode
    rw [Ne, Decidable.not_not] at hmode
    split
    · rename_i hremoval
      exact iff_of_true rfl ⟨hmode, .inl hremoval⟩
    · rename_i hremoval
      split
      · rename_i hfresh
        rw [Bool.not_eq_true'] at hfresh
        refine iff_of_false (fun hnil => (freshErrors_eq_nil.mp hnil).1 rfl) ?_
        rw [hfresh]
        exact fun h => h.2.elim hremoval (by decide)
      · rename_i hrestored
        rw [Bool.not_eq_true', Bool.not_eq_false] at hrestored
        exact iff_of_true (restoredErrors_eq_nil.mpr (by simp)) ⟨hmode, .inr hrestored⟩

theorem Evident.two_le (h : Evident records mode expectRemoval) : 2 ≤ records.length := by
  obtain ⟨-, h⟩ := h
  cases mode with
  | passkey =>
    cases expectRemoval with
    | false =>
      obtain ⟨first, later, rfl, -, hne, -⟩ | h := h
      · exact Nat.succ_le_succ (List.length_pos_iff.mpr hne)
      · exact h.1
    | true => exact h.1
  | reject => exact h.1
  | stale => exact h.1

/-- A bond is kept by the resets after the first, whatever the first has found. -/
theorem restores_cons : Restores (first :: later) ↔
    later ≠ [] ∧ ∀ record ∈ later, record.restoredContract = true := by
  constructor
  · rintro (⟨first', later', heq, -, hne, hlater⟩ | ⟨hlen, hall⟩)
    · obtain ⟨rfl, rfl⟩ := List.cons.inj heq
      exact ⟨hne, hlater⟩
    · exact ⟨List.length_pos_iff.mp (Nat.le_of_succ_le_succ hlen), fun record hmem =>
        hall record (List.mem_cons_of_mem _ hmem)⟩
  · rintro ⟨hne, hlater⟩
    cases hfirst : first.restoredContract with
    | false => exact .inl ⟨first, later, rfl, hfirst, hne, hlater⟩
    | true =>
      exact .inr ⟨Nat.succ_le_succ (List.length_pos_iff.mpr hne), List.forall_mem_cons.mpr
        ⟨hfirst, hlater⟩⟩

theorem proven_iff_evident (hlen : 2 ≤ records.length) :
    (validatePersistence records mode expectRemoval).proven = true ↔
      Evident records mode expectRemoval := by
  cases records with
  | nil => exact absurd hlen (by decide)
  | cons first later =>
    have hne : later ≠ [] := List.length_pos_iff.mp (Nat.le_of_succ_le_succ hlen)
    rw [proven_cons]
    refine and_congr_right fun _ => ?_
    cases mode with
    | reject => exact negativeErrors_eq_nil
    | stale => exact negativeErrors_eq_nil
    | passkey =>
      rw [if_neg (by decide)]
      cases expectRemoval with
      | true => exact removalErrors_eq_nil.trans (and_iff_right hlen).symm
      | false =>
        rw [if_neg (by decide)]
        dsimp only
        rw [restores_cons]
        split
        · exact freshErrors_eq_nil
        · exact restoredErrors_eq_nil.trans (and_iff_right hne).symm

end Series

/-- **A single reset is taken for proof.** The series is proven exactly when it is evident,
unless it has one record only, of a reset that passed with a bond restored, or one to remove. In a
proven series of logs both boards have found the same at each reset: the bond, or none, and none in a
negative mode. -/
theorem persistence_proven_iff (records : List ResetRecord) (mode : PairingMode)
    (expectRemoval : Bool) :
    (((validatePersistence records mode expectRemoval).proven = true ↔
        Evident records mode expectRemoval) ↔
      ¬ ∃ record, records = [record] ∧ record.pass = true ∧ mode = .passkey ∧
        (expectRemoval = true ∨ record.restoredContract = true)) ∧
    ∀ single, (∀ record ∈ records, ∃ peripheral central,
        record.toVerdict = classify peripheral central mode expectRemoval single) →
      (validatePersistence records mode expectRemoval).proven = true →
        ∀ record ∈ records, record.FoundAlike ∧ (mode ≠ .passkey → record.restoredContract = false) := by
  refine ⟨?_, fun single hlogs hproven record hrecord => ?_⟩
  rotate_left
  · have hpass := pass_of_proven hproven record hrecord
    obtain ⟨peripheral, central, hverdict⟩ := hlogs record hrecord
    rw [hverdict] at hpass ⊢
    exact ⟨foundAlike_of_pass hpass, fun hmode => not_restoredContract_of_pass hmode hpass⟩
  cases records with
  | nil =>
    refine iff_of_true (iff_of_false nofun fun h => ?_) (by rintro ⟨record, heq, -⟩; cases heq)
    exact absurd h.two_le (by decide)
  | cons first later =>
    cases later with
    | nil =>
      have hnot : ¬ Evident [first] mode expectRemoval := fun h =>
        absurd h.two_le (Nat.not_succ_le_self 1)
      rw [iff_false_right hnot, proven_single, not_iff_not]
      constructor
      · exact fun h => ⟨first, rfl, h⟩
      · rintro ⟨record, heq, h⟩
        cases heq
        exact h
    | cons second later =>
      refine iff_of_true (proven_iff_evident (by simp)) ?_
      rintro ⟨record, heq, -⟩
      cases heq

/-- A reset that restores a bond and passes. -/
def restoredReset : ResetRecord where
  pass := true
  peripheralMissing := []
  centralMissing := []
  failureMarkers := []
  peripheralStartup := [peripheralRestored]
  centralStartup := [centralRestored]
  roleMismatch := false
  restoreMismatch := false
  negativeRequiresEmpty := false
  generationFailures := []
  restoredContract := true
  peripheralBytes := 300
  centralBytes := 300
  run := 1

theorem not_persistence_proven : ¬ ∀ (records : List ResetRecord) (mode : PairingMode)
    (expectRemoval : Bool), (validatePersistence records mode expectRemoval).proven = true ↔
      Evident records mode expectRemoval := by
  intro h
  have hevident := (h [restoredReset] .passkey false).mp (by decide)
  exact absurd hevident.two_le (by decide)

end HisiRiscv.Hil.BondMatrix
