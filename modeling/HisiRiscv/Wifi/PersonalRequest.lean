/-
HisiRiscv.Wifi.PersonalRequest — the vendor is asked for the network that was chosen.

`WpaWifi::connect` puts its request together from a `PersonalNetwork` and
what PBKDF2 answers. In every run of the handles each request that has been issued is for a scan
result and a passphrase that `from_scan_with_security` accepted: it names this access point
and this security, which the build has and the access point advertises, and the key
is the PMK of the passphrase and the SSID, or the passphrase (`requests_as_chosen`).

History: the run itself, in which the answers of PBKDF2 are found again.

  §1 Reading the key.
  §2 What was chosen.
  §3 What a request says.
  §4 The invariant.
  §5 Main result.
-/
import HisiRiscv.Wifi.Handles
import HisiRiscv.Wifi.PersonalSecurity

namespace HisiRiscv.Wifi.PersonalRequest

open HisiRiscv.Machine
open HisiRiscv.Tlv (complete)
open HisiRiscv.ByteBuffer (copyAt toList_copyAt)
open HisiRiscv.Wifi.Connection (Features PersonalNetwork PersonalSecurity Request VendorWpaAssoc encodeHex
  hexDigit openRequest saePweCode wpa2Request wpa3Request wpaKeyCapacity wpaRequest)
open HisiRiscv.Wifi.Handles
open HisiRiscv.Wifi.PersonalSecurity (Rsn exists_rsn_of_security)

/-! ## §1 Reading the key -/

def hexValue (digit : UInt8) : Option UInt8 :=
  if 48 ≤ digit ∧ digit ≤ 57 then some (digit - 48)
  else if 97 ≤ digit ∧ digit ≤ 102 then some (digit - 87)
  else none

/-- The bytes that a string of hexadecimal digits stands for. -/
def decodeHex : List UInt8 → Option (List UInt8)
  | [] => some []
  | [_] => none
  | a :: b :: digits => do
    let high ← hexValue a
    let low ← hexValue b
    return (16 * high + low) :: (← decodeHex digits)

theorem hexValue_hexDigit {nibble : UInt8} (h : nibble < 16) : hexValue (hexDigit nibble) = some nibble := by
  unfold hexValue hexDigit
  by_cases hten : nibble < 10
  · rw [if_pos hten, if_pos (by grind), UInt8.add_comm, UInt8.add_sub_cancel]
  · rw [if_neg hten, if_neg (by grind), if_pos (by grind), UInt8.add_comm, UInt8.add_sub_cancel]

theorem toNat_high (byte : UInt8) : (byte >>> (4 : UInt8)).toNat = byte.toNat / 16 := by
  rw [UInt8.toNat_shiftRight]
  exact Nat.shiftRight_eq_div_pow byte.toNat 4

theorem toNat_low (byte : UInt8) : (byte &&& (0x0f : UInt8)).toNat = byte.toNat % 16 := by
  rw [UInt8.toNat_and]
  exact Nat.and_two_pow_sub_one_eq_mod byte.toNat 4

theorem decodeHex_encodeHex (bytes : List UInt8) : decodeHex (encodeHex bytes) = some bytes := by
  induction bytes with
  | nil => rfl
  | cons byte bytes ih =>
    have hlt := byte.toNat_lt
    have hhigh : byte >>> (4 : UInt8) < 16 := by
      rw [UInt8.lt_iff_toNat_lt, toNat_high]
      exact Nat.div_lt_of_lt_mul hlt
    have hlow : byte &&& (0x0f : UInt8) < 16 := by
      rw [UInt8.lt_iff_toNat_lt, toNat_low]
      exact Nat.mod_lt _ (by decide)
    have hbyte : 16 * (byte >>> (4 : UInt8)) + (byte &&& (0x0f : UInt8)) = byte := by
      apply UInt8.toNat_inj.mp
      simp only [UInt8.toNat_add, UInt8.toNat_mul, toNat_high, toNat_low, UInt8.reduceToNat]
      omega
    rw [encodeHex, List.flatMap_cons, ← encodeHex]
    simp only [List.cons_append, List.nil_append, decodeHex, hexValue_hexDigit hhigh, hexValue_hexDigit hlow, ih,
      Option.bind_eq_bind, Option.bind_some, hbyte]
    rfl

theorem length_encodeHex (bytes : List UInt8) : (encodeHex bytes).length = 2 * bytes.length := by
  rw [encodeHex, List.length_flatMap]
  simp
  omega

/-! ## §2 What was chosen -/

/-- The access point that the vendor has reported names the security in its first RSN element. -/
def Advertised (vendor : VendorScanResult) (security : PersonalSecurity) : Prop :=
  ∃ ies ∈ vendor.bounded, ∃ e, (complete ies).find? (·.id = 48) = some e ∧ ∃ rsn : Rsn, e.body = rsn.encode ∧
    rsn.ccmp = true ∧
    match security with
    | .wpa2 => rsn.psk = true
    | .wpa3 _ => rsn.sae = true

/-- The build has the security, and the result offers it. -/
structure Chosen (features : Features) (result : ScanResult) (passphrase : List UInt8)
    (security : PersonalSecurity) : Prop where
  enabled :
    match security with
    | .wpa2 => features.wpa2Personal = true
    | .wpa3 _ => features.wpa3Personal = true
  isProtected : result.security = .protected
  supported : supported features result security = true
  valid : validPassphrase passphrase = true
  advertised : ∀ vendor, result = .ofVendor vendor → Advertised vendor security

/-- The network of a call comes from a selection. -/
def IsSelected (features : Features) (network : PersonalNetwork) : Prop :=
  ∃ result passphrase security, fromScanWithSecurity features result passphrase security = .ok network

/-! ## §3 What a request says -/

section Says

variable (profile : Profile)

/-- Crypto code or vendor has given the answer `a` to a call that `asked` for it. -/
def Answered (as : List (Action profile)) (a : Connection.Action) (asked : Connection.State → Prop) : Prop :=
  ∃ (before after : List (Action profile)) (t : State),
    as = before ++ .connectionStep a :: after ∧ Steps (step profile) Always init before t ∧ asked t.connection

def AsksPbkdf2 (passphrase ssid : List UInt8) (s : Connection.State) : Prop :=
  s.caller = .pbkdf2 ∧ ∃ network, s.call = .connect network ∧
    network.key.toList.take network.keyLen.toNat = passphrase ∧
    network.ssid.toList.take network.ssidLen.toNat = ssid

/-- A text and the zeros behind it. -/
def Padded {n : ℕ} (field : Vector UInt8 n) (text : List UInt8) : Prop :=
  text.length < n ∧ field.toList = text ++ List.replicate (n - text.length) 0

structure Carries (as : List (Action profile)) (request : VendorWpaAssoc) (result : ScanResult)
    (passphrase : List UInt8) (security : PersonalSecurity) : Prop where
  ssid : Padded request.ssid result.ssidBytes
  bssid : request.bssid = result.bssid
  channel : request.channel = result.channel
  pairwise : request.pairwise = 1
  secured :
    match security with
    | .wpa2 =>
        request.authMode = 2 ∧ ∃ pmk digits,
          Answered profile as (.pbkdf2 (.ok pmk)) (AsksPbkdf2 passphrase result.ssidBytes) ∧
            Padded request.key digits ∧ digits.length = wpaKeyCapacity ∧ decodeHex digits = some pmk.toList
    | .wpa3 saePwe =>
        request.authMode = 7 ∧ Padded request.key passphrase ∧
          Answered profile as (.saePwe 0) (·.caller = .saePwe (saePweCode saePwe))

/-- What holds of every request of `uapi_wifi_sta_connect`. -/
def Good (as : List (Action profile)) : Request → Prop
  | .staConnect request =>
      ∃ result passphrase security, Chosen profile.toFeatures result passphrase security ∧
        Carries profile as request result passphrase security
  | .assoc _ | .staDisconnect => True

end Says

/-! ### One network -/

section Network

theorem padded_copyAt {n : ℕ} {text : List UInt8} (h : text.length < n) :
    Padded (copyAt (Vector.replicate n 0) 0 text) text := by
  refine ⟨h, ?_⟩
  rw [toList_copyAt _ _ _ (by omega), Vector.toList_replicate, List.drop_replicate, Nat.zero_add]
  rfl

/-- The suites that an authentication mode stands for. -/
theorem suites_of_security {rsn : Rsn} {authMode pairwise : Int32} (h : rsn.security = (authMode, pairwise)) :
    (pairwise = 1 → rsn.ccmp = true) ∧
      ((authMode = authModeWpa2Psk ∨ authMode = authModeWpa2Wpa3Transition) → rsn.psk = true) ∧
      ((authMode = authModeWpa3Sae ∨ authMode = authModeWpa2Wpa3Transition) → rsn.sae = true) := by
  obtain ⟨rfl, rfl⟩ := Prod.mk.inj h.symm
  unfold Rsn.authMode
  cases rsn.ccmp <;> cases rsn.psk <;> cases rsn.sae <;> decide

variable {features : Features} {result : ScanResult} {passphrase : List UInt8} {security : PersonalSecurity}
  {network : PersonalNetwork}

/-- A supported result of the vendor has an RSN element that names the security. -/
theorem advertised_of_supported {vendor : VendorScanResult}
    (h : supported features (ScanResult.ofVendor vendor) security = true) : Advertised vendor security := by
  cases hbounded : vendor.bounded with
  | none =>
    have hmode : (ScanResult.ofVendor vendor).authMode = 0 := by simp [ScanResult.ofVendor, hbounded, ScanResult.empty]
    cases security <;> simp [supported, hmode, authModeWpa2Psk, authModeWpa3Sae, authModeWpa2Wpa3Transition] at h
  | some ies =>
    have hpair := ScanResult.security_ofVendor hbounded
    rw [Elements.personalSecurityFromIes_list, Elements.securityOf, Elements.firstBody] at hpair
    have hmode : (ScanResult.ofVendor vendor).authMode ≠ 0 := by
      intro hzero
      cases security <;>
        simp [supported, hzero, authModeWpa2Psk, authModeWpa3Sae, authModeWpa2Wpa3Transition] at h
    cases hfind : (complete ies).find? (·.id = 48) with
    | none =>
      rw [hfind] at hpair
      exact absurd (Prod.mk.inj hpair).1 hmode
    | some e =>
      rw [hfind] at hpair
      simp only at hpair
      obtain ⟨rsn, hrsn⟩ := exists_rsn_of_security fun hzero => hmode (Prod.mk.inj (hpair.trans hzero)).1
      rw [hrsn, Rsn.security_encode] at hpair
      obtain ⟨hccmp, hpsk, hsae⟩ := suites_of_security hpair.symm
      refine ⟨ies, hbounded, e, hfind, rsn, hrsn, ?_⟩
      cases security with
      | wpa2 =>
        simp only [supported, Bool.and_eq_true, Bool.or_eq_true, decide_eq_true_eq] at h
        exact ⟨hccmp h.2, hpsk h.1⟩
      | wpa3 saePwe =>
        simp only [supported, Bool.and_eq_true, Bool.or_eq_true, decide_eq_true_eq] at h
        exact ⟨hccmp h.2, hsae h.1.2⟩

/-- A network that is made of a result and a passphrase. -/
structure Made (network : PersonalNetwork) (result : ScanResult) (passphrase : List UInt8)
    (chosen : PersonalSecurity) : Prop where
  authMode :
    network.authMode =
      match chosen with
      | .wpa2 => authModeWpa2Psk
      | .wpa3 _ => authModeWpa3Sae
  security : network.security = chosen
  ssid : network.ssid.toList.take network.ssidLen.toNat = result.ssidBytes
  bssid : network.bssid = result.bssid
  channel : network.channel = result.channel
  pairwise : network.pairwise = pairwiseCcmp
  key : network.key.toList.take network.keyLen.toNat = passphrase
  fits : passphrase.length < wpaKeyCapacity

theorem chosen_of_selected (h : fromScanWithSecurity features result passphrase security = .ok network)
    (henabled : network.security = .wpa2 → features.wpa2Personal = true) :
    Chosen features result passphrase security ∧ Made network result passphrase security := by
  obtain ⟨hsecurity, -, hsupported, hkeyLen, hlen⟩ := fromScanWithSecurity_ok h
  have hpairwise : result.pairwise = pairwiseCcmp := by
    cases security <;> simp only [supported, Bool.and_eq_true, decide_eq_true_eq] at hsupported <;> exact hsupported.2
  unfold fromScanWithSecurity at h
  split at h
  · cases h
  split at h
  · cases h
  rename_i hprotected
  split at h
  · cases h
  split at h
  · cases h
  rename_i hvalid
  have hkey : (copyAt (Vector.replicate (wpaKeyCapacity + 1) 0) 0 passphrase).toList.take passphrase.length = passphrase :=
    Supplicant.take_copyAt_zero _ _ (Nat.le_succ_of_le (Nat.le_succ_of_le hlen))
  cases h
  refine ⟨⟨?_, by simpa using hprotected, hsupported, by simpa using hvalid, ?_⟩,
    ⟨rfl, rfl, rfl, rfl, rfl, hpairwise, ?_, Nat.lt_succ_of_le hlen⟩⟩
  · cases security with
    | wpa2 => exact henabled rfl
    | wpa3 saePwe =>
      simp only [supported, Bool.and_eq_true] at hsupported
      exact hsupported.1.1
  · rintro vendor rfl
    exact advertised_of_supported hsupported
  · rw [hkeyLen]
    exact hkey

variable {profile : Profile} {as : List (Action profile)} {key : Vector UInt8 (wpaKeyCapacity + 1)}

theorem length_ssidBytes_lt (result : ScanResult) : result.ssidBytes.length < ssidCapacity + 1 := by
  rw [ScanResult.ssidBytes, List.length_take, Vector.length_toList]
  omega

/-- The request of a network, with the mode and the key still to be looked at. -/
theorem good_of_made (hchosen : Chosen profile.toFeatures result passphrase security)
    (hmade : Made network result passphrase security)
    (hsecured :
      match security with
      | .wpa2 => ∃ pmk digits,
          Answered profile as (.pbkdf2 (.ok pmk)) (AsksPbkdf2 passphrase result.ssidBytes) ∧
            Padded key digits ∧ digits.length = wpaKeyCapacity ∧ decodeHex digits = some pmk.toList
      | .wpa3 saePwe =>
          Padded key passphrase ∧ Answered profile as (.saePwe 0) (·.caller = .saePwe (saePweCode saePwe))) :
    Good profile as (wpaRequest network key) := by
  refine ⟨result, passphrase, security, hchosen, ?_, hmade.bssid, hmade.channel, ?_, ?_⟩
  · rw [hmade.ssid]
    exact padded_copyAt (length_ssidBytes_lt result)
  · rw [hmade.pairwise]
    rfl
  · rw [hmade.authMode]
    cases security with
    | wpa2 => exact ⟨rfl, hsecured⟩
    | wpa3 saePwe => exact ⟨rfl, hsecured⟩

theorem good_wpa2 (hselected : IsSelected profile.toFeatures network) (henabled : profile.wpa2Personal = true)
    (hsecurity : network.security = .wpa2) (pmk : Vector UInt8 32)
    (hanswered : Answered profile as (.pbkdf2 (.ok pmk)) (AsksPbkdf2 (network.key.toList.take network.keyLen.toNat)
      (network.ssid.toList.take network.ssidLen.toNat))) :
    Good profile as (wpa2Request network pmk) := by
  obtain ⟨result, passphrase, security, hselection⟩ := hselected
  obtain ⟨hchosen, hmade⟩ := chosen_of_selected hselection fun _ => henabled
  obtain rfl : security = .wpa2 := hmade.security.symm.trans hsecurity
  rw [hmade.key, hmade.ssid] at hanswered
  have hlen : (encodeHex pmk.toList).length = wpaKeyCapacity := by
    rw [length_encodeHex, Vector.length_toList]
    rfl
  refine good_of_made hchosen hmade ⟨pmk, encodeHex pmk.toList, hanswered, padded_copyAt ?_, hlen, decodeHex_encodeHex _⟩
  rw [hlen]
  exact Nat.lt_succ_self _

theorem good_wpa3 (hselected : IsSelected profile.toFeatures network) {saePwe : Connection.SaePwe}
    (hsecurity : network.security = .wpa3 saePwe)
    (hanswered : Answered profile as (.saePwe 0) (·.caller = .saePwe (saePweCode saePwe))) :
    Good profile as (wpa3Request network) := by
  obtain ⟨result, passphrase, security, hselection⟩ := hselected
  obtain ⟨hchosen, hmade⟩ := chosen_of_selected hselection fun h => nomatch hsecurity.symm.trans h
  obtain rfl : security = .wpa3 saePwe := hmade.security.symm.trans hsecurity
  refine good_of_made hchosen hmade ⟨?_, hanswered⟩
  rw [hmade.key]
  exact padded_copyAt (Nat.lt_succ_of_lt hmade.fits)

/-- A longer run has given all the answers. -/
theorem Good.mono {request : Request} (h : Good profile as request) (a : Action profile) :
    Good profile (as ++ [a]) request := by
  have hlonger : ∀ {answer asked}, Answered profile as answer asked → Answered profile (as ++ [a]) answer asked := by
    rintro answer asked ⟨before, after, t, rfl, hrun⟩
    exact ⟨before, after ++ [a], t, by simp, hrun⟩
  cases request with
  | staConnect request =>
    obtain ⟨result, passphrase, security, hchosen, hcarries⟩ := h
    refine ⟨result, passphrase, security, hchosen, { hcarries with secured := ?_ }⟩
    cases security with
    | wpa2 =>
      obtain ⟨hmode, pmk, digits, hanswered, hkey⟩ := hcarries.secured
      exact ⟨hmode, pmk, digits, hlonger hanswered, hkey⟩
    | wpa3 saePwe =>
      obtain ⟨hmode, hkey, hanswered⟩ := hcarries.secured
      exact ⟨hmode, hkey, hlonger hanswered⟩
  | assoc _ => trivial
  | staDisconnect => trivial

end Network

/-! ## §4 The invariant -/

structure Inv (features : Features) (good : Request → Prop) (s : Connection.State) : Prop where
  selected : ∀ network, s.call = .connect network → IsSelected features network
  wpa2 : s.caller = .selfTest ∨ s.caller = .pbkdf2 →
    features.wpa2Personal = true ∧ ∀ network, s.call = .connect network → network.security = .wpa2
  wpa3 : ∀ pwe, s.caller = .saePwe pwe →
    ∀ network, s.call = .connect network → ∃ saePwe, network.security = .wpa3 saePwe ∧ pwe = saePweCode saePwe
  issue : ∀ request, s.caller = .issue request → good request
  issued : ∀ request ∈ s.requests, good request

section Step

variable {features : Features} {good : Request → Prop} {s t : Connection.State}

theorem Inv.mono (h : Inv features good s) {good' : Request → Prop} (hgood : ∀ request, good request → good' request) :
    Inv features good' s :=
  { h with
    issue := fun request hr => hgood _ (h.issue request hr)
    issued := fun request hr => hgood _ (h.issued request hr) }

theorem Inv.frame (h : Inv features good s) (hcall : t.call = s.call) (hcaller : t.caller = s.caller)
    (hrequests : t.requests = s.requests) : Inv features good t where
  selected := hcall ▸ h.selected
  wpa2 := by rw [hcall, hcaller]; exact h.wpa2
  wpa3 := by rw [hcall, hcaller]; exact h.wpa3
  issue := hcaller ▸ h.issue
  issued := hrequests ▸ h.issued

/-- A step of a call that is past its preparations. -/
theorem Inv.move (h : Inv features good s) (caller : Connection.Caller) (hpreparing : caller.preparing = false)
    (hcall : t.call = s.call) (hcaller : t.caller = caller) (hrequests : t.requests = s.requests) :
    Inv features good t where
  selected := hcall ▸ h.selected
  wpa2 hr := by rcases hr with hr | hr <;> rw [hcaller.symm.trans hr] at hpreparing <;> cases hpreparing
  wpa3 pwe hr := by rw [hcaller.symm.trans hr] at hpreparing; cases hpreparing
  issue request hr := by rw [hcaller.symm.trans hr] at hpreparing; cases hpreparing
  issued := hrequests ▸ h.issued

/-- The preparations are over. -/
theorem Inv.issuing (h : Inv features good s) {request : Request} (hcall : t.call = s.call)
    (hcaller : t.caller = .issue request) (hrequests : t.requests = s.requests) (hgood : good request) :
    Inv features good t where
  selected := hcall ▸ h.selected
  wpa2 hr := by rw [hcaller] at hr; rcases hr with hr | hr <;> cases hr
  wpa3 pwe hr := by rw [hcaller] at hr; cases hr
  issue other hr := by rw [hcaller] at hr; cases hr; exact hgood
  issued := hrequests ▸ h.issued

/-- A callback stores an outcome at most. -/
theorem Inv.deliver (h : Inv features good s) (i : ℕ) (outcome : Connection.ConnectionOutcome) :
    Inv features good (s.deliver i outcome) := by
  unfold Connection.State.deliver
  split
  · exact h.frame rfl rfl rfl
  · exact h

theorem Inv.start (h : Inv features good s) (hidle : s.caller = .idle) {call : Connection.Call} (timeoutMs : UInt32)
    {next : Connection.Caller} (hselected : ∀ network, call = .connect network → IsSelected features network)
    (h2 : next = .selfTest ∨ next = .pbkdf2 →
      features.wpa2Personal = true ∧ ∀ network, call = .connect network → network.security = .wpa2)
    (h3 : ∀ pwe, next = .saePwe pwe → ∀ network, call = .connect network →
      ∃ saePwe, network.security = .wpa3 saePwe ∧ pwe = saePweCode saePwe)
    (hissue : ∀ request, next = .issue request → good request) : Inv features good (s.start call timeoutMs next) := by
  unfold Connection.State.start
  split
  · exact h.move .idle rfl rfl hidle rfl
  · exact ⟨hselected, h2, h3, hissue, h.issued⟩

theorem Inv.connect (h : Inv features good s) (hidle : s.caller = .idle) {network : PersonalNetwork}
    (timeoutMs : UInt32) (hselected : IsSelected features network) :
    Inv features good (s.connect features network timeoutMs) := by
  have hcall : ∀ other, Connection.Call.connect network = .connect other → IsSelected features other := by
    rintro _ ⟨rfl⟩
    exact hselected
  unfold Connection.State.connect
  cases hsecurity : network.security with
  | wpa2 =>
    refine h.start hidle timeoutMs hcall (fun hnext => ?_) (fun pwe hnext => ?_) (fun request hnext => ?_)
    · refine ⟨?_, ?_⟩
      · by_contra hdisabled
        rw [if_neg hdisabled] at hnext
        rcases hnext with hnext | hnext <;> cases hnext
      · rintro _ ⟨rfl⟩
        exact hsecurity
    · split at hnext <;> cases hnext
    · split at hnext <;> cases hnext
  | wpa3 saePwe =>
    simp only
    split
    · refine h.start hidle timeoutMs hcall (fun hnext => ?_) (fun pwe hnext => ?_) (fun request hnext => ?_)
      · rcases hnext with hnext | hnext <;> cases hnext
      · rintro _ ⟨rfl⟩
        exact ⟨saePwe, hsecurity, by cases hnext; rfl⟩
      · cases hnext
    · have hstarted : Inv features good (s.start (.connect network) timeoutMs .idle) :=
        h.start hidle timeoutMs hcall (by simp) (by simp) (by simp)
      have hcaller : (s.start (.connect network) timeoutMs .idle).caller = .idle := by
        unfold Connection.State.start
        split
        · exact hidle
        · rfl
      split
      · exact hstarted
      · exact hstarted.move _ rfl rfl hcaller rfl

/-- The two answers that end the preparations are what `good` has to be known for. -/
theorem Inv.step (h : Inv features good s) {a : Connection.Action} (hs : Connection.step features s a = some t)
    (hother : good .staDisconnect ∧ ∀ network, good (openRequest network))
    (hconnect : ∀ network timeoutMs, a = .connect network timeoutMs → IsSelected features network)
    (hpbkdf2 : ∀ pmk network, a = .pbkdf2 (.ok pmk) → s.caller = .pbkdf2 → s.call = .connect network →
      IsSelected features network → features.wpa2Personal = true → network.security = .wpa2 →
        good (wpa2Request network pmk))
    (hsaePwe : ∀ network saePwe, a = .saePwe 0 → s.caller = .saePwe (saePweCode saePwe) →
      s.call = .connect network → IsSelected features network → network.security = .wpa3 saePwe →
        good (wpa3Request network)) : Inv features good t := by
  cases a with
  | connect network timeoutMs =>
    obtain ⟨hidle, rfl⟩ := Option.ite_none_right_eq_some.mp hs |>.imp_right Option.some.inj
    exact h.connect hidle timeoutMs (hconnect network timeoutMs rfl)
  | connectOpen network timeoutMs =>
    obtain ⟨hidle, rfl⟩ := Option.ite_none_right_eq_some.mp hs |>.imp_right Option.some.inj
    refine h.start hidle timeoutMs (fun _ hr => nomatch hr) (by simp) (by simp) ?_
    rintro _ ⟨rfl⟩
    exact hother.2 network
  | disconnect timeoutMs =>
    obtain ⟨hidle, rfl⟩ := Option.ite_none_right_eq_some.mp hs |>.imp_right Option.some.inj
    refine h.start hidle timeoutMs (fun _ hr => nomatch hr) (by simp) (by simp) ?_
    rintro _ ⟨rfl⟩
    exact hother.1
  | selfTest error =>
    obtain ⟨hcaller, hs⟩ := Option.ite_none_right_eq_some.mp hs
    cases error with
    | some code =>
      cases hs
      exact h.move (.finishing (.error (.crypto code))) rfl rfl rfl rfl
    | none =>
      cases hs
      exact ⟨h.selected, fun _ => h.wpa2 (.inl hcaller), fun _ hr => (nomatch hr), fun _ hr => (nomatch hr),
        h.issued⟩
  | pbkdf2 pmk =>
    simp only [Connection.step] at hs
    split at hs
    · rename_i hcaller hcall
      obtain ⟨henabled, hsecurity⟩ := h.wpa2 (.inr hcaller)
      cases pmk with
      | error code =>
        cases hs
        exact h.move (.finishing (.error (.crypto code))) rfl rfl rfl rfl
      | ok pmk =>
        cases hs
        refine h.issuing rfl rfl rfl ?_
        exact hpbkdf2 _ _ rfl hcaller hcall (h.selected _ hcall) henabled (hsecurity _ hcall)
    · cases hs
  | saePwe configured =>
    simp only [Connection.step] at hs
    split at hs
    · rename_i hcaller hcall
      obtain ⟨saePwe, hsecurity, rfl⟩ := h.wpa3 _ hcaller _ hcall
      by_cases hconfigured : configured = 0
      · subst hconfigured
        cases hs
        refine h.issuing rfl rfl rfl ?_
        exact hsaePwe _ saePwe rfl hcaller hcall (h.selected _ hcall) hsecurity
      · rw [if_pos hconfigured] at hs
        cases hs
        exact h.move (.finishing (.error (.configureSecurity configured))) rfl rfl rfl rfl
    · cases hs
  | vendorReturns result =>
    obtain ⟨-, rfl⟩ := Option.ite_none_right_eq_some.mp hs |>.imp_right Option.some.inj
    refine h.move _ ?_ rfl rfl rfl
    split <;> rfl
  | clock now =>
    simp only [Connection.step, Connection.State.clock] at hs
    split at hs
    · cases hs
      exact h.move (.polling now) rfl rfl rfl rfl
    · split at hs <;> cases hs
      · exact h.move (.finishing (.error .timeout)) rfl rfl rfl rfl
      · exact h.move (.polling _) rfl rfl rfl rfl
    all_goals cases hs
  | advance =>
    simp only [Connection.step, Connection.State.advance] at hs
    split at hs
    · rename_i request hcaller
      cases hs
      refine { h.move (t := { s with caller := .requested }) .requested rfl rfl rfl rfl with
        issued := fun other hother => ?_ }
      rcases List.mem_append.mp hother with hother | hother
      · exact h.issued _ hother
      · exact List.mem_singleton.mp hother ▸ h.issue _ hcaller
    · cases hs
      refine h.move _ ?_ rfl rfl rfl
      split <;> rfl
    · cases hs
      exact h.move .idle rfl rfl rfl rfl
    all_goals cases hs
  | event i e =>
    obtain ⟨-, rfl⟩ := Option.ite_none_right_eq_some.mp hs |>.imp_right Option.some.inj
    cases e.outcome with
    | none => exact h
    | some outcome => exact h.deliver i outcome

end Step

/-! ## §5 Main result -/

section Run

variable {profile : Profile} {as : List (Action profile)} {s t : State}

theorem inv_init : Inv profile.toFeatures (Good profile []) init.connection where
  selected _ h := nomatch h
  wpa2 h := by rcases h with h | h <;> cases h
  wpa3 _ h := nomatch h
  issue _ h := nomatch h
  issued _ h := nomatch h

theorem wpaStep_connection {a : WpaAction} (hs : s.wpaStep a = some t) : t.connection = s.connection := by
  cases a with
  | vendorReturns result =>
    simp only [State.wpaStep] at hs
    split at hs <;> cases hs
    rfl
  | clock now =>
    simp only [State.wpaStep, State.wpaClock] at hs
    split at hs <;> cases hs <;> rfl
  | advance =>
    simp only [State.wpaStep, State.wpaAdvance] at hs
    split at hs <;> cases hs <;> rfl
  | vendorResults result vendor =>
    simp only [State.wpaStep] at hs
    split at hs <;> cases hs
    rfl

theorem inv_step (hrun : Steps (step profile) Always init as s)
    (h : Inv profile.toFeatures (Good profile as) s.connection) {a : Action profile}
    (hs : step profile s a = some t) : Inv profile.toFeatures (Good profile (as ++ [a])) t.connection := by
  have hother : Good profile (as ++ [a]) .staDisconnect ∧ ∀ network, Good profile (as ++ [a]) (openRequest network) :=
    ⟨trivial, fun _ => trivial⟩
  replace h := h.mono fun _ hr => hr.mono a
  cases a with
  | connect network timeoutMs =>
    obtain ⟨-, hs⟩ := Option.ite_none_right_eq_some.mp hs
    obtain ⟨connection, hconnection, rfl⟩ := Option.map_eq_some_iff.mp hs
    refine h.step hconnection hother ?_ (fun _ _ hr => nomatch hr) (fun _ _ hr => nomatch hr)
    rintro _ _ ⟨rfl⟩
    exact network.selected
  | disconnect timeoutMs =>
    obtain ⟨-, hs⟩ := Option.ite_none_right_eq_some.mp hs
    obtain ⟨connection, hconnection, rfl⟩ := Option.map_eq_some_iff.mp hs
    exact h.step hconnection hother (fun _ _ hr => nomatch hr) (fun _ _ hr => nomatch hr) fun _ _ hr => nomatch hr
  | connectOpen network timeoutMs =>
    obtain ⟨connection, hconnection, rfl⟩ := Option.map_eq_some_iff.mp hs
    exact h.step hconnection hother (fun _ _ hr => nomatch hr) (fun _ _ hr => nomatch hr) fun _ _ hr => nomatch hr
  | connectionStep a =>
    obtain ⟨hown, hs⟩ := Option.ite_none_right_eq_some.mp hs
    obtain ⟨connection, hconnection, rfl⟩ := Option.map_eq_some_iff.mp hs
    refine h.step hconnection hother ?_ ?_ ?_
    · rintro network timeoutMs rfl
      cases hown
    · rintro pmk network rfl hcaller hcall hselected henabled hsecurity
      exact good_wpa2 hselected henabled hsecurity pmk ⟨as, [], s, rfl, hrun, hcaller, network, hcall, rfl, rfl⟩
    · rintro network saePwe rfl hcaller hcall hselected hsecurity
      exact good_wpa3 hselected hsecurity ⟨as, [], s, rfl, hrun, hcaller⟩
  | connectionEvent i e =>
    cases hs
    cases e.outcome with
    | none => exact h
    | some outcome => exact h.deliver i outcome
  | wpaStep a => exact wpaStep_connection hs ▸ h
  | scan outputLen timeoutMs =>
    obtain ⟨-, hs⟩ := Option.ite_none_right_eq_some.mp hs
    obtain ⟨scan, -, rfl⟩ := Option.map_eq_some_iff.mp hs
    exact h
  | wpaScan outputLen timeoutMs =>
    obtain ⟨-, hs⟩ := Option.ite_none_right_eq_some.mp hs
    cases hs
    unfold State.startWpaScan
    split <;> exact h
  | scanStep a =>
    obtain ⟨-, hs⟩ := Option.ite_none_right_eq_some.mp hs
    obtain ⟨scan, -, rfl⟩ := Option.map_eq_some_iff.mp hs
    exact h
  | scanResult scan vendor =>
    cases hs
    exact h
  | writeResult k =>
    obtain ⟨scan, -, rfl⟩ := Option.map_eq_some_iff.mp hs
    exact h
  | scanDone scan raw =>
    cases hs
    exact h
  | wpaScanDone =>
    cases hs
    split <;> exact h

theorem inv_run (h : Steps (step profile) Always init as s) :
    Inv profile.toFeatures (Good profile as) s.connection := by
  induction h with
  | nil => exact inv_init
  | snoc hrun _ hs ih => exact inv_step hrun ih hs

end Run

/-- Every request asks for what was chosen, in no weaker mode and with no other key. -/
theorem requests_as_chosen (profile : Profile) {as : List (Action profile)} {s : State}
    (h : Steps (step profile) Always init as s) {request : VendorWpaAssoc}
    (hissued : .staConnect request ∈ s.connection.requests) :
    ∃ result passphrase security, Chosen profile.toFeatures result passphrase security ∧
      Carries profile as request result passphrase security :=
  (inv_run h).issued _ hissued

/-! ### A WPA2 connect -/

/-- An access point with CCMP and a pre-shared key. -/
def personalAp : VendorScanResult where
  flags := 0
  bssid := #v[2, 0, 0, 0, 0, 5]
  capabilities := 0x0010
  frequency := 2437
  beaconInterval := 100
  quality := 0
  beaconIeLen := 0
  level := -4000
  age := 0
  ieLen := 26
  elements := some [0, 2, 0x61, 0x62, 48, 20, 1, 0, 0x00, 0x0f, 0xac, 4, 1, 0, 0x00, 0x0f, 0xac, 4, 1, 0,
    0x00, 0x0f, 0xac, 2, 0, 0]
  readable := by decide

def personalNetwork : Selected allPersonal.toFeatures where
  network :=
    { ssid := copyAt (Vector.replicate _ 0) 0 [0x61, 0x62]
      ssidLen := 2
      bssid := personalAp.bssid
      authMode := authModeWpa2Psk
      pairwise := pairwiseCcmp
      channel := 0
      security := .wpa2
      key := copyAt (Vector.replicate _ 0) 0 (List.replicate 8 0x61)
      keyLen := 8 }
  selected := ⟨.ofVendor personalAp, List.replicate 8 0x61, .wpa2, by decide +kernel⟩

def pmk : Vector UInt8 32 := Vector.replicate 32 0xab

def personalCalls : List (Action allPersonal) :=
  [.connect personalNetwork 1000, .connectionStep (.selfTest none), .connectionStep (.pbkdf2 (.ok pmk)),
    .connectionStep .advance]

theorem run_personalCalls :
    (run (step allPersonal) init personalCalls).map (·.connection.requests) =
      some [wpa2Request personalNetwork.network pmk] := by
  decide +kernel

theorem requests_as_chosen_personalCalls :
    ∃ s request, run (step allPersonal) init personalCalls = some s ∧ s.connection.requests = [.staConnect request] ∧
      ∃ result passphrase security, Chosen allPersonal.toFeatures result passphrase security ∧
        Carries allPersonal personalCalls request result passphrase security := by
  obtain ⟨s, hrun, hs⟩ := Option.map_eq_some_iff.mp run_personalCalls
  exact ⟨s, _, hrun, hs, requests_as_chosen allPersonal (Steps.of_run hrun) (hs ▸ List.mem_singleton_self _)⟩

end HisiRiscv.Wifi.PersonalRequest
