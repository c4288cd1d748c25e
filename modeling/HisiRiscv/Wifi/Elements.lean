/-
HisiRiscv.Wifi.Elements — the walks over information elements, access by access.

`ssid_from_ies` and `personal_security_from_ies` go through the elements with an offset,
`association_comeback_interval` with a slice that gets shorter. What they should find is stated over
the elements that `Tlv.parse` reads.

Translation notes. An index or a range outside of its slice is a panic, here `none`; so is a loop
that has used up its fuel. A slice has fewer than 2^31 bytes, so that no sum of an offset and a
length overflows; `checked_add` of two never fails.

  §1 Slices.
  §2 The walks.
  §3 What they should find.
-/
import HisiRiscv.Lib.Tlv
import HisiRiscv.Wifi.ScanResult

namespace HisiRiscv.Wifi.Elements

open HisiRiscv.Tlv

/-! ## §1 Slices -/

/-- `&bytes[start..stop]`. -/
def slice (bytes : List UInt8) (start stop : ℕ) : Option (List UInt8) :=
  if start ≤ stop ∧ stop ≤ bytes.length then some ((bytes.take stop).drop start) else none

/-- `u16::from_le_bytes([bytes[index], bytes[index + 1]])`. -/
def u16At (bytes : List UInt8) (index : ℕ) : Option ℕ := do
  let low ← bytes[index]?
  let high ← bytes[index + 1]?
  return low.toNat + 256 * high.toNat

def u32FromLe (a b c d : UInt8) : UInt32 :=
  a.toUInt32 ||| (b.toUInt32 <<< 8) ||| (c.toUInt32 <<< 16) ||| (d.toUInt32 <<< 24)

def saturatingAdd (a b : ℕ) : ℕ := min (a + b) 0xffffffff

def saturatingMul (a b : ℕ) : ℕ := min (a * b) 0xffffffff

/-! ## §2 The walks -/

/-- The body of the RSN element. -/
def rsnBody (body : List UInt8) : Option (Int32 × Int32) :=
  if body.length < 8 then some (0, 0)
  else do
    let version ← u16At body 0
    if version ≠ 1 then some (0, 0)
    else do
      let pairwiseCount ← u16At body 6
      let pairwiseEnd := saturatingAdd 8 (saturatingMul pairwiseCount 4)
      if pairwiseEnd + 2 > body.length then some (0, 0)
      else do
        let pairwise ← slice body 8 pairwiseEnd
        let ccmp := (suites pairwise).contains (rsnSuite 4)
        let akmCount ← u16At body pairwiseEnd
        let akmEnd := saturatingAdd (pairwiseEnd + 2) (saturatingMul akmCount 4)
        if akmEnd > body.length then some (0, 0)
        else do
          let akms ← slice body (pairwiseEnd + 2) akmEnd
          let psk := (suites akms).contains (rsnSuite 2)
          let sae := (suites akms).contains (rsnSuite 8)
          let authMode :=
            if psk && sae then authModeWpa2Wpa3Transition
            else if psk then authModeWpa2Psk
            else if sae then authModeWpa3Sae
            else 0
          some (authMode, if ccmp then 1 else 0)

/-- The loop of both: it goes from element to element until it finds the wanted one, and hands
over where the body begins and ends. -/
def walk {α : Type} (ies : List UInt8) (wanted : UInt8) (absent : α) (found : ℕ → ℕ → Option α) :
    ℕ → ℕ → Option α
  | 0, _ => none
  | fuel + 1, offset =>
    if offset + 2 ≤ ies.length then do
      let id ← ies[offset]?
      let len ← ies[offset + 1]?
      let stop := offset + 2 + len.toNat
      if stop > ies.length then some absent
      else if id = wanted then found (offset + 2) stop
      else walk ies wanted absent found fuel stop
    else some absent

def ssidFromIes (ies : List UInt8) : Option (List UInt8) :=
  walk ies 0 [] (fun start stop => slice ies start (min stop (start + ssidCapacity)))
    (ies.length + 1) 0

def personalSecurityFromIes (ies : List UInt8) : Option (Int32 × Int32) :=
  walk ies 48 (0, 0) (fun start stop => slice ies start stop >>= rsnBody) (ies.length + 1) 0

/-- `WLAN_EID_TIMEOUT_INTERVAL`. -/
def wlanEidTimeoutInterval : UInt8 := 56

/-- `WLAN_TIMEOUT_ASSOC_COMEBACK`. -/
def wlanTimeoutAssocComeback : UInt8 := 3

/-- The third byte of an element that is a timeout interval of the right length. -/
def comebackKind (ies : List UInt8) (id len : UInt8) : Option Bool :=
  if id = wlanEidTimeoutInterval ∧ len = 5 then do
    let kind ← ies[2]?
    return kind = wlanTimeoutAssocComeback
  else some false

def comebackLoop : ℕ → List UInt8 → Option (Option UInt32)
  | 0, _ => none
  | fuel + 1, ies =>
    if 2 ≤ ies.length then do
      let len ← ies[1]?
      let total := len.toNat + 2
      if total > ies.length then some none
      else do
        let id ← ies[0]?
        if ← comebackKind ies id len then do
          let a ← ies[3]?
          let b ← ies[4]?
          let c ← ies[5]?
          let d ← ies[6]?
          some (some (u32FromLe a b c d))
        else do
          let rest ← slice ies total ies.length
          comebackLoop fuel rest
    else some none

def associationComebackInterval (ies : List UInt8) : Option (Option UInt32) :=
  comebackLoop (ies.length + 1) ies

/-! ## §3 What they should find -/

/-- What `value` says of the body of the first element with that id. -/
def firstBody {α : Type} (id : UInt8) (absent : α) (value : List UInt8 → α) (es : List Element) : α :=
  match es.find? (·.id = id) with
  | some e => value e.body
  | none => absent

def ssidOf (es : List Element) : List UInt8 := firstBody 0 [] (·.take ssidCapacity) es

/-- The authentication mode and the pairwise cipher of the first RSN element. -/
def securityOf (es : List Element) : Int32 × Int32 := firstBody 48 (0, 0) rsnSecurity es

/-- The interval, if the element is a comeback time. -/
def comebackOf (e : Element) : Option UInt32 :=
  match e.body with
  | [kind, a, b, c, d] =>
    if e.id = wlanEidTimeoutInterval ∧ kind = wlanTimeoutAssocComeback then some (u32FromLe a b c d)
    else none
  | _ => none

/-- The two parts of a scan result, each with its own elements. -/
def splitSecurity (probe beacon : List UInt8) : Int32 × Int32 :=
  firstBody 48 (securityOf (complete beacon)) rsnSecurity (complete probe)

/-- One of the complete elements is an RSN element. -/
def HasRsn (ies : List UInt8) : Prop := ∃ e ∈ complete ies, e.id = 48

/-- What the beginning of an element at the end of the probe response makes of the beacon is
classified as the beacon is: nothing, if it is longer than the beacon; an RSN element with a body from
both; or it is dropped with the bytes it takes. -/
def Harmless (tail beacon : List UInt8) : Prop :=
  match next (tail ++ beacon) with
  | none => securityOf (complete beacon) = (0, 0)
  | some (e, rest) =>
    (if e.id = 48 then rsnSecurity e.body else securityOf (complete rest)) =
      securityOf (complete beacon)

/-- The walks return, and they find the elements. -/
structure Walks (ies : List UInt8) : Prop where
  ssid : ssidFromIes ies = some (ssidOf (complete ies))
  security : personalSecurityFromIes ies = some (securityOf (complete ies))
  comeback : associationComebackInterval ies = some ((complete ies).findSome? comebackOf)

end HisiRiscv.Wifi.Elements
