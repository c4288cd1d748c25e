/-
HisiRiscv.Hil.BondMatrix — `capture_run` of `ws63-ble-bond-reset-matrix.py`: one run of
the pairing of two boards, with the passkeys taken out of the logs.

The peripheral displays a passkey on its UART; the first one that the log holds in
full is written to the central. When the loop has ended, `redact_passkeys` replaces
every marker that six digits follow.

Translation notes. `PASSKEY_PATTERN` is a matcher for `Scan`. `held_nrst` keeps the
central in reset while the peripheral settles: what the central's old firmware sent before that
is waiting in its port. The flush of the central's port is left out.

  §1 The passkey.
  §2 The capture.
-/
import HisiRiscv.Hil.PairedBoards
import HisiRiscv.Lib.Scan

namespace HisiRiscv.Hil.BondMatrix

/-! ## §1 The passkey -/

def displayMarker : Bytes := ascii "RFDBG_RADIO_U5_BLE_PERIPHERAL_PASSKEY_DISPLAY="

def redactedMark : Bytes := ascii "[REDACTED]"

/-- `PASSKEY_REDACTED`. -/
def passkeyRedacted : Bytes := displayMarker ++ redactedMark

def isDigit (c : UInt8) : Bool := 48 ≤ c && c ≤ 57

def passkeyLength : ℕ := 6

/-- `PASSKEY_PATTERN`: the length of a match, and its group. -/
def passkeyPattern (l : Bytes) : Option (ℕ × Bytes) :=
  let digits := (l.drop displayMarker.length).take passkeyLength
  if displayMarker <+: l ∧ digits.length = passkeyLength ∧ digits.all isDigit then
    some (displayMarker.length + passkeyLength, digits)
  else none

def redactPasskeys (data : Bytes) : Bytes :=
  Scan.substituteAll (fun _ => passkeyRedacted) (Scan.scan passkeyPattern data)

/-- `PASSKEY_PATTERN.search`, its group. -/
def searchPasskey (data : Bytes) : Option Bytes := (Scan.findAll passkeyPattern data).head?

/-! ## §2 The capture -/

inductive PairingMode where
  | passkey
  | reject
  | stale
  deriving DecidableEq

def bondComplete (peripheral central : Bytes) : Bool :=
  has peripheral "RFDBG_RADIO_U5_BLE_PERIPHERAL_BOND_OK" &&
    has central "RFDBG_RADIO_U5_BLE_CENTRAL_BOND_OK"

def restored (peripheral central : Bytes) : Bool :=
  has peripheral "RFDBG_RADIO_U5_BLE_PERIPHERAL_BOND_RESTORED" &&
    has central "RFDBG_RADIO_U5_BLE_CENTRAL_BOND_RESTORED"

def removalComplete (peripheral central : Bytes) : Bool :=
  has peripheral "RFDBG_RADIO_U5_BLE_PERIPHERAL_BOND_REMOVE_OK" &&
    has central "RFDBG_RADIO_U5_BLE_CENTRAL_BOND_REMOVE_OK"

def complete (mode : PairingMode) (expectRemoval : Bool) (peripheral central : Bytes) : Bool :=
  match mode with
  | .passkey =>
    if expectRemoval && restored peripheral central then removalComplete peripheral central
    else bondComplete peripheral central
  | .reject =>
    has peripheral "RFDBG_RADIO_U5_BLE_PERIPHERAL_REJECT_OK" &&
      has central "RFDBG_RADIO_U5_BLE_CENTRAL_REJECT_OK"
  | .stale =>
    has peripheral "RFDBG_RADIO_U5_BLE_PERIPHERAL_STALE_OK" &&
      has central "RFDBG_RADIO_U5_BLE_CENTRAL_STALE_OK"

def relay (mode : PairingMode) (peripheral : Bytes) : Option Bytes :=
  match mode with
  | .passkey => (searchPasskey peripheral).map fun digits => ascii "U5PASS=" ++ digits ++ [10]
  | _ => none

def script (mode : PairingMode) (expectRemoval : Bool) : Script where
  complete := complete mode expectRemoval
  hold := 1
  relay := relay mode

/-- What `capture_run` is called with, and what happens meanwhile. -/
structure Run where
  settle : ℚ
  timeout : ℚ
  pairingMode : PairingMode
  expectRemoval : Bool
  schedule : Schedule
  peripheral : Board
  central : Board

namespace Run

variable (r : Run)

def watched : Watch :=
  (script r.pairingMode r.expectRemoval).settledWatch r.settle r.timeout r.schedule
    r.peripheral r.central

/-- The peripheral's log before it is redacted. -/
def captured : Bytes := r.watched.first.log

def captureRun : Bytes × Bytes :=
  (redactPasskeys r.watched.first.log, redactPasskeys r.watched.second.log)

end Run

end HisiRiscv.Hil.BondMatrix
