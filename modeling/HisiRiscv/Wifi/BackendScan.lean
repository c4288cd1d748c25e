/-
HisiRiscv.Wifi.BackendScan — `Ws63WifiBackend::scan` and the two scans it is built on.

With the upstream supplicant `Wifi::scan` collects the events of the vendor
(`ScanTransaction`), without it `WpaWifi::scan` reads the array that the vendor's
supplicant keeps. Either way the backend copies the results that have an SSID it can
represent into the output of the caller.

Translation notes. `Ssid::try_from_bytes` is a function of the `hisi_rf` crate, which is not
part of the repository: it is the parameter `trySsid`. `wpa3` says whether one of the
WPA3 features is on. The errors that the calls hand through are left out here, and so is
the capture for hostap's cache, which does not touch the results.

  §1 `WpaWifi::scan`.
  §2 The copy of the backend.
  §3 A scan in which the vendor reports a list.
  §4 What a caller relies on.
-/
import HisiRiscv.Wifi.Backend
import HisiRiscv.Wifi.ScanTransaction

namespace HisiRiscv.Wifi.BackendScan

open HisiRiscv.Machine
open HisiRiscv.Supplicant (Bssid maxScanResults)

/-! ## §1 `WpaWifi::scan` -/

/-- The results of a scan that succeeds: the vendor has filled `vendor` and set `count`. -/
def wpaScan (vendor : Vector VendorWpaApInfo maxScanResults) (count : UInt32) (outputLen : ℕ) :
    List ScanResult :=
  (vendor.toList.take (min (min count.toNat outputLen) maxScanResults)).map ScanResult.ofApInfo

/-! ## §2 The copy of the backend -/

/-- `hisi_rf::ScanResult`. -/
structure RfScanResult (S : Type) where
  ssid : S
  bssid : Bssid
  frequencyMhz : UInt16
  rssiDbm : Int16
  security : Security
  channel : UInt8
  deriving DecidableEq

structure ScanOutcome where
  count : ℕ
  truncated : Bool
  deriving DecidableEq

section Copy

variable {S : Type} (trySsid : List UInt8 → Option S) (wpa3 : Bool)

/-- What the backend makes of a result, if it can represent the SSID. -/
def convert (scan : ScanResult) : Option (RfScanResult S) :=
  (trySsid scan.ssidBytes).map fun ssid =>
    { ssid
      bssid := scan.bssid
      frequencyMhz := scan.frequencyMhz
      rssiDbm := scan.rssiDbm
      security := security wpa3 scan
      channel := scan.channel }

/-- The loop, with so much room left in the output. -/
def copyLoop : ℕ → List ScanResult → List (RfScanResult S)
  | _, [] => []
  | room, scan :: scans =>
    match convert trySsid wpa3 scan with
    | none => copyLoop room scans
    | some result => if room = 0 then [] else result :: copyLoop (room - 1) scans

/-- What `Ws63WifiBackend::scan` returns and what it has written, given the
results in `self.scans`. -/
def scan (scans : List ScanResult) (outputLen : ℕ) : ScanOutcome × List (RfScanResult S) :=
  let written := copyLoop trySsid wpa3 outputLen scans
  (⟨written.length, written.length < scans.length⟩, written)

end Copy

/-! ## §3 A scan in which the vendor reports a list -/

open ScanTransaction

/-- The callbacks of scan number `scan`, one after the other; those that find no slot free
have nothing to write. -/
def reportActions (scan : ℕ) (reports : List VendorScanResult) : List Action :=
  ((reports.take maxScanResults).flatMap fun vendor => [.scanResult scan vendor, .write 0]) ++
    (reports.drop maxScanResults).map (.scanResult scan)

/-- A call of `Wifi::scan` that the vendor accepts, in which it reports these access
points and then the end of the scan. -/
def scanActions (scan outputLen : ℕ) (timeoutMs : UInt32) (now : UInt64)
    (reports : List VendorScanResult) : List Action :=
  [.scan outputLen timeoutMs, .ioctlReturns 0, .clock now] ++ reportActions scan reports ++
    .scanDone scan 0 :: List.replicate (min (min reports.length maxScanResults) outputLen + 3) .advance

/-- The results of such a scan. -/
def wifiScan (reports : List VendorScanResult) (outputLen : ℕ) : List ScanResult :=
  ((reports.take maxScanResults).map .ofVendor).take outputLen

/-- No scan is running and no callback is underway. -/
structure Quiet (s : State) : Prop where
  caller : s.caller = .idle
  active : s.active = false
  writers : s.writers = []

/-- `Wifi::scan` returns `scans` when the vendor reports this list. -/
structure Scanned (reports : List VendorScanResult) (outputLen : ℕ) (scans : List ScanResult) :
    Prop where
  /-- there is a run that returns them -/
  returns : ∀ s, Quiet s → ∀ timeoutMs now,
    ∃ t, Steps step Always s (scanActions (s.scan + 1) outputLen timeoutMs now reports) t ∧
      t.returned = some (.ok scans)
  /-- and so does every orderly one with all reports before the end of the scan, however the
  callbacks and the waiter take turns -/
  returned : ∀ as s output, Steps step Orderly init as s → s.outputLen = outputLen →
    s.delivered = reports.map .ofVendor → s.reserved = min reports.length maxScanResults →
      s.returned = some (.ok output) → output = scans

/-! ## §4 What a caller relies on -/

/-- `out` is what a caller of the backend expects of a scan with these results. -/
structure Faithful {S : Type} (trySsid : List UInt8 → Option S) (wpa3 : Bool)
    (scans : List ScanResult) (outputLen : ℕ) (out : ScanOutcome × List (RfScanResult S)) : Prop where
  written : out.2 = (scans.filterMap (convert trySsid wpa3)).take outputLen
  count : out.1.count = out.2.length
  /-- a result that could be represented has found no room -/
  truncated : out.1.truncated = true ↔ outputLen < (scans.filterMap (convert trySsid wpa3)).length

/-- The frequency of channel 1 to 14. -/
def InBand (frequency : Int32) : Prop :=
  (∃ n : ℕ, 1 ≤ n ∧ n ≤ 13 ∧ frequency.toInt = 2407 + 5 * n) ∨ frequency.toInt = 2484

/-- The scan behind the backend, one for each way to build it. -/
inductive Source where
  | wifi (reports : List VendorScanResult)
  | wpaWifi (vendor : Vector VendorWpaApInfo maxScanResults) (count : UInt32)

def Source.results : Source → ℕ → List ScanResult
  | .wifi reports, outputLen => wifiScan reports outputLen
  | .wpaWifi vendor count, outputLen => wpaScan vendor count outputLen

/-- The results of a scan, and what the backend makes of them, name one channel. -/
structure Consistent {S : Type} (trySsid : List UInt8 → Option S) (wpa3 : Bool)
    (scans : List ScanResult) : Prop where
  scanned : ∀ scan ∈ scans, scan.frequencyMhz = channelToFrequency scan.channel
  written : ∀ outputLen, ∀ result ∈ (scan trySsid wpa3 scans outputLen).2,
    result.frequencyMhz = channelToFrequency result.channel

end HisiRiscv.Wifi.BackendScan
