/-
HisiRiscv.Wifi.ScanResult — what `wifi.rs` makes of a vendor scan event.

`VendorScanResult` is the event payload, `ScanResult` the value the
callback stores for the waiter, `ScanResult.ofVendor` the conversion in
the body of `scan_event`; `ScanResult.ofApInfo` is the conversion of an entry
of the array that the vendor's supplicant keeps. The information elements are walked by
`firstElement`; `ssid_from_ies` and `personal_security_from_ies` are the
same walk for ids 0 and 48.

Translation notes. `VendorScanResult.variable` is a pointer to `ie_len +
beacon_ie_len` readable bytes, or null: here the bytes themselves, with
the length as a field, or `none`. `usize` has 32 bits on the target.
`ConnectionInfo` and `Error` stand here because both halves of the
adapter return them; of `Error` only the variants `scan` and the connect
calls return are kept.

  §1 Statuses and errors.
  §2 Information elements.
  §3 Results.
-/
import HisiRiscv.Supplicant.Queues

namespace HisiRiscv.Wifi

open HisiRiscv.Supplicant (Bssid)

/-! ## §1 Statuses and errors -/

def ssidCapacity : Nat := 32
def maxIeLength : Nat := 2304
def authModeWpa2Psk : Int32 := 2
def authModeWpa3Sae : Int32 := 7
def authModeWpa2Wpa3Transition : Int32 := 8

inductive ScanStatus where
  | success
  | failed
  | refused
  | timeout
  | unknown (raw : UInt32)
  deriving DecidableEq

def ScanStatus.fromRaw (raw : UInt32) : ScanStatus :=
  if raw = 0 then .success
  else if raw = 1 then .failed
  else if raw = 2 then .refused
  else if raw = 3 then .timeout
  else .unknown raw

/-- The errors `scan`, `connect`, `connect_open` and `disconnect` return. -/
inductive Error where
  | busy
  | unsupportedSecurity (authMode : Int32)
  | crypto (code : UInt32)
  | startScan (result : Int32)
  | scanFailed (status : ScanStatus)
  | configureSecurity (result : Int32)
  | startConnect (result : Int32)
  | startDisconnect (result : Int32)
  | connectFailed (status : UInt16)
  | disconnected (reason : UInt16)
  | timeout
  deriving DecidableEq

structure ConnectionInfo where
  bssid : Bssid
  frequencyMhz : UInt16
  deriving DecidableEq

/-! ## §2 Information elements -/

/-- The body of the first element with the given id, unless a malformed
element comes before it. -/
def firstElement (id : UInt8) : Nat → List UInt8 → Option (List UInt8)
  | 0, _ => none
  | fuel + 1, tag :: len :: rest =>
      if rest.length < len.toNat then none
      else if tag = id then some (rest.take len.toNat)
      else firstElement id fuel (rest.drop len.toNat)
  | _ + 1, _ => none

/-- Every element takes at least two bytes, so the number of bytes is fuel enough. -/
theorem firstElement_fuel (id : UInt8) {fuel fuel' : Nat} {ies : List UInt8}
    (h : ies.length ≤ fuel) (h' : ies.length ≤ fuel') :
    firstElement id fuel ies = firstElement id fuel' ies := by
  induction fuel generalizing fuel' ies with
  | zero =>
    have hnil : ies = [] := List.length_eq_zero_iff.mp (by omega)
    subst hnil
    cases fuel' <;> rfl
  | succ fuel ih =>
    match ies with
    | [] => cases fuel' <;> rfl
    | [_] => cases fuel' <;> rfl
    | tag :: len :: rest =>
      cases fuel' with
      | zero => simp at h'
      | succ fuel' =>
        simp only [List.length_cons] at h h'
        simp only [firstElement]
        have hlen : (rest.drop len.toNat).length ≤ rest.length := by
          rw [List.length_drop]
          exact Nat.sub_le ..
        rw [ih (by omega : (rest.drop len.toNat).length ≤ fuel) (by omega : _ ≤ fuel')]

def ssidFromIes (ies : List UInt8) : List UInt8 :=
  match firstElement 0 ies.length ies with
  | some body => body.take ssidCapacity
  | none => []

theorem length_ssidFromIes_le (ies : List UInt8) : (ssidFromIes ies).length ≤ ssidCapacity := by
  unfold ssidFromIes
  split
  · exact List.length_take_le ..
  · exact Nat.zero_le _

def u16FromLe (bytes : List UInt8) (offset : Nat) : Nat :=
  bytes[offset]!.toNat + 256 * bytes[offset + 1]!.toNat

/-- `as_chunks::<4>().0`. -/
def suites : List UInt8 → List (Vector UInt8 4)
  | a :: b :: c :: d :: rest => #v[a, b, c, d] :: suites rest
  | _ => []

/-- A suite selector of the RSN OUI. -/
def rsnSuite (kind : UInt8) : Vector UInt8 4 := #v[0x00, 0x0f, 0xac, kind]

/-- Authentication mode and pairwise cipher of an RSN element. -/
def rsnSecurity (body : List UInt8) : Int32 × Int32 :=
  if body.length < 8 ∨ u16FromLe body 0 ≠ 1 then (0, 0)
  else
    let pairwiseEnd := 8 + 4 * u16FromLe body 6
    if body.length < pairwiseEnd + 2 then (0, 0)
    else
      let ccmp := (suites ((body.take pairwiseEnd).drop 8)).contains (rsnSuite 4)
      let akmEnd := pairwiseEnd + 2 + 4 * u16FromLe body pairwiseEnd
      if body.length < akmEnd then (0, 0)
      else
        let akms := suites ((body.take akmEnd).drop (pairwiseEnd + 2))
        let psk := akms.contains (rsnSuite 2)
        let sae := akms.contains (rsnSuite 8)
        let authMode :=
          if psk && sae then authModeWpa2Wpa3Transition
          else if psk then authModeWpa2Psk
          else if sae then authModeWpa3Sae
          else 0
        (authMode, if ccmp then 1 else 0)

def personalSecurityFromIes (ies : List UInt8) : Int32 × Int32 :=
  match firstElement 48 ies.length ies with
  | some body => rsnSecurity body
  | none => (0, 0)

/-! ## §3 Results -/

inductive ScanSecurity where
  | «open»
  | «protected»
  deriving DecidableEq

structure ScanResult where
  ssid : Vector UInt8 ssidCapacity
  ssidLen : UInt8
  bssid : Bssid
  frequencyMhz : UInt16
  rssiDbm : Int16
  security : ScanSecurity
  authMode : Int32
  pairwise : Int32
  channel : UInt8
  deriving DecidableEq

namespace ScanResult

/-- `ScanResult::EMPTY`. -/
def empty : ScanResult where
  ssid := Vector.replicate _ 0
  ssidLen := 0
  bssid := Vector.replicate _ 0
  frequencyMhz := 0
  rssiDbm := 0
  security := .open
  authMode := 0
  pairwise := 0
  channel := 0

/-- `ScanResult::ssid`. -/
def ssidBytes (r : ScanResult) : List UInt8 := r.ssid.toList.take r.ssidLen.toNat

def supportsWpa2Personal (r : ScanResult) : Bool :=
  r.security = .protected &&
    (r.authMode = authModeWpa2Psk || r.authMode = authModeWpa2Wpa3Transition) && r.pairwise = 1

def supportsWpa3Personal (r : ScanResult) : Bool :=
  r.security = .protected &&
    (r.authMode = authModeWpa3Sae || r.authMode = authModeWpa2Wpa3Transition) && r.pairwise = 1

def supportsWpa2Wpa3Transition (r : ScanResult) : Bool :=
  r.security = .protected && r.authMode = authModeWpa2Wpa3Transition && r.pairwise = 1

end ScanResult

/-- The payload of `EVENT_SCAN_RESULT`. -/
structure VendorScanResult where
  flags : Int32
  bssid : Bssid
  capabilities : Int16
  frequency : Int32
  beaconInterval : Int16
  quality : Int32
  beaconIeLen : UInt32
  level : Int32
  age : UInt32
  ieLen : UInt32
  /-- The bytes behind `variable`, `none` when it is null. -/
  elements : Option (List UInt8)
  /-- the vendor owns exactly the bytes it reports -/
  readable : ∀ ies ∈ elements, ies.length = ieLen.toNat + beaconIeLen.toNat

/-- `(ie_len as usize).checked_add(beacon_ie_len as usize)`. -/
def VendorScanResult.totalLen (vendor : VendorScanResult) : Option Nat :=
  let total := vendor.ieLen.toNat + vendor.beaconIeLen.toNat
  if total < 2 ^ 32 then some total else none

/-- The elements the conversion reads. -/
def VendorScanResult.bounded (vendor : VendorScanResult) : Option (List UInt8) :=
  match vendor.totalLen, vendor.elements with
  | some total, some ies => if total ≤ maxIeLength then some ies else none
  | _, _ => none

def clampToU16 (x : Int32) : UInt16 := UInt16.ofNat (max 0 (min x.toInt 65535)).toNat

/-- The RSSI in dBm of a level in hundredths of a dBm. -/
def rssiFromLevel (level : Int32) : Int16 :=
  Int16.ofInt (max (-32768) (min (level.toInt.tdiv 100) 32767))

def ScanResult.ofVendor (vendor : VendorScanResult) : ScanResult :=
  let result : ScanResult :=
    { ScanResult.empty with
      bssid := vendor.bssid
      frequencyMhz := clampToU16 vendor.frequency
      rssiDbm := rssiFromLevel vendor.level
      security := if vendor.capabilities &&& 0x0010 = 0 then .open else .protected }
  match vendor.bounded with
  | none => result
  | some ies =>
      let ssid := ssidFromIes (ies.take vendor.ieLen.toNat)
      let (authMode, pairwise) := personalSecurityFromIes ies
      { result with
        ssid := ByteBuffer.copyAt result.ssid 0 ssid
        ssidLen := UInt8.ofNat ssid.length
        authMode
        pairwise }

/-- `channel_to_frequency`; `wifi.rs` and `hisi_rf_backend.rs` have it alike. -/
def channelToFrequency (channel : UInt8) : UInt16 :=
  if channel = 14 then 2484
  else if 1 ≤ channel ∧ channel ≤ 13 then 2407 + channel.toUInt16 * 5
  else 0

/-- The fields of `VendorWpaApInfo` that are read. -/
structure VendorWpaApInfo where
  ssid : Vector UInt8 (ssidCapacity + 1)
  bssid : Bssid
  authMode : UInt8
  channel : UInt32
  rssi : Int32
  pairwise : UInt8

/-- The bytes in front of the first zero, at most `SSID_CAPACITY` of them. -/
def VendorWpaApInfo.ssidLen (src : VendorWpaApInfo) : Nat :=
  (src.ssid.toList.findIdx? (· = 0)).getD ssidCapacity

def clampToU8 (x : UInt32) : UInt8 := UInt8.ofNat (min x.toNat 255)

def ScanResult.ofApInfo (src : VendorWpaApInfo) : ScanResult :=
  let channel := clampToU8 src.channel
  { ScanResult.empty with
    ssid := ByteBuffer.copyAt ScanResult.empty.ssid 0 (src.ssid.toList.take src.ssidLen)
    ssidLen := UInt8.ofNat src.ssidLen
    bssid := src.bssid
    frequencyMhz := channelToFrequency channel
    rssiDbm := rssiFromLevel src.rssi
    security := if src.authMode = 0 then .open else .protected
    authMode := src.authMode.toUInt32.toInt32
    pairwise := src.pairwise.toUInt32.toInt32
    channel }

/-- `hisi_rf::Security`. -/
inductive Security where
  | «open»
  | wpa2Wpa3PersonalTransition
  | wpa3Personal
  | wpa2Personal
  | otherProtected
  deriving DecidableEq

/-- What the backends report for a result; `wpa3` says whether a WPA3 feature is on. -/
def security (wpa3 : Bool) (scan : ScanResult) : Security :=
  match scan.security with
  | .open => .open
  | .protected =>
      if wpa3 && scan.supportsWpa2Wpa3Transition then .wpa2Wpa3PersonalTransition
      else if wpa3 && scan.supportsWpa3Personal then .wpa3Personal
      else if scan.supportsWpa2Personal then .wpa2Personal
      else .otherProtected

namespace ScanResult

@[simp] theorem ofVendor_bssid (vendor : VendorScanResult) :
    (ofVendor vendor).bssid = vendor.bssid := by
  unfold ofVendor
  cases vendor.bounded <;> rfl

@[simp] theorem ofVendor_frequencyMhz (vendor : VendorScanResult) :
    (ofVendor vendor).frequencyMhz = clampToU16 vendor.frequency := by
  unfold ofVendor
  cases vendor.bounded <;> rfl

/-- The stored SSID is the one in the elements, whatever its length. -/
theorem ssidBytes_ofVendor {vendor : VendorScanResult} {ies : List UInt8}
    (h : vendor.bounded = some ies) :
    (ofVendor vendor).ssidBytes = ssidFromIes (ies.take vendor.ieLen.toNat) := by
  have hle := length_ssidFromIes_le (ies.take vendor.ieLen.toNat)
  have hlen : (UInt8.ofNat (ssidFromIes (ies.take vendor.ieLen.toNat)).length).toNat =
      (ssidFromIes (ies.take vendor.ieLen.toNat)).length := by
    rw [UInt8.toNat_ofNat', Nat.mod_eq_of_lt]
    unfold ssidCapacity at hle
    omega
  simp only [ofVendor, h, ssidBytes, hlen]
  exact Supplicant.take_copyAt_zero _ _ hle

/-- Without elements there is no SSID. -/
theorem ssidBytes_ofVendor_none {vendor : VendorScanResult} (h : vendor.bounded = none) :
    (ofVendor vendor).ssidBytes = [] := by
  simp [ofVendor, h, ssidBytes, empty]

theorem security_ofVendor {vendor : VendorScanResult} {ies : List UInt8}
    (h : vendor.bounded = some ies) :
    ((ofVendor vendor).authMode, (ofVendor vendor).pairwise) = personalSecurityFromIes ies := by
  simp [ofVendor, h]

end ScanResult

end HisiRiscv.Wifi
