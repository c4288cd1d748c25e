/-
HisiRiscv.Supplicant.Keys — the key callbacks of `upstream_supplicant.rs`: what
`install_key` puts into the driver, and whether `remove_key` takes it out again.

Both translate a `Key` with `key_request`, but `remove_key` has no material, and the
selector of a WEP key depends on the length of the material. `remove_undoes_install_iff`
says that WEP keys are the ones that cannot be removed.

Translation notes. The codes of the ciphers, the key flags, `ABI_VERSION` and
`KEY_SEQUENCE_LEN` are constants of the `ws63_radio_sys` crate, which is not part of the
repository; they are the fields of `KeySys`. A pointer is an `Option` of what
stands there. The ioctls that a call issues are a log, with what each of them returns.

  §1 The request.
  §2 The callbacks.
  §3 What the driver holds.
  §4 Main result.
-/
import HisiRiscv.Supplicant.Queues

namespace HisiRiscv.Supplicant.Keys

/-! ## §1 The request -/

/-- The `cipher` constants, all different. -/
structure CipherCodes where
  none : UInt8
  wep : UInt8
  tkip : UInt8
  ccmp : UInt8
  bipCmac128 : UInt8
  gcmp : UInt8
  gcmp256 : UInt8
  ccmp256 : UInt8
  bipGmac128 : UInt8
  bipGmac256 : UInt8
  bipCmac256 : UInt8
  distinct : [none, wep, tkip, ccmp, bipCmac128, gcmp, gcmp256, ccmp256, bipGmac128, bipGmac256,
    bipCmac256].Nodup

/-- The `key_flag` constants. -/
structure KeyFlags where
  byDefault : UInt32
  rx : UInt32
  tx : UInt32
  group : UInt32
  pairwise : UInt32
  modify : UInt32
  pmk : UInt32

structure KeySys where
  abiVersion : UInt32
  keySequenceLen : ℕ
  cipher : CipherCodes
  flag : KeyFlags

structure Key (sys : KeySys) where
  abiVersion : UInt32
  cipher : UInt8
  keyIndex : UInt8
  flags : UInt32
  peer : Bssid
  peerPresent : UInt8
  sequenceLen : UInt8
  sequence : Vector UInt8 sys.keySequenceLen

def keyTypeGroup : Int32 := 0
def keyTypePairwise : Int32 := 1
def keyDefaultInvalid : UInt8 := 0
def keyDefaultUnicast : UInt8 := 1
def keyDefaultMulticast : UInt8 := 2

structure KeyExtension where
  keyType : Int32
  keyIndex : UInt32
  keyLen : ℕ
  sequenceLen : UInt32
  cipher : UInt32
  address : Option Bssid
  material : Option (List UInt8)
  sequence : Option (List UInt8)
  defaultData : Bool
  defaultManagement : Bool
  defaultTypes : UInt8
  deriving DecidableEq

namespace KeySys

variable (sys : KeySys)

def validKeyMaterial (cipher : UInt8) (len : ℕ) : Bool :=
  if cipher = sys.cipher.wep then len = 5 || len = 13
  else if cipher ∈ [sys.cipher.tkip, sys.cipher.gcmp256, sys.cipher.ccmp256,
      sys.cipher.bipGmac256, sys.cipher.bipCmac256] then len = 32
  else if cipher ∈ [sys.cipher.ccmp, sys.cipher.bipCmac128, sys.cipher.gcmp,
      sys.cipher.bipGmac128] then len = 16
  else false

/-- The selector in `cipher_suite`. -/
def selector (cipher : UInt8) (materialLen : ℕ) : Option UInt32 :=
  if cipher = sys.cipher.none then some 0
  else if cipher = sys.cipher.wep ∧ materialLen = 5 then some 1
  else if cipher = sys.cipher.wep ∧ materialLen = 13 then some 5
  else if cipher = sys.cipher.tkip then some 2
  else if cipher = sys.cipher.ccmp then some 4
  else if cipher = sys.cipher.bipCmac128 then some 6
  else if cipher = sys.cipher.gcmp then some 8
  else if cipher = sys.cipher.gcmp256 then some 9
  else if cipher = sys.cipher.ccmp256 then some 10
  else if cipher = sys.cipher.bipGmac128 then some 11
  else if cipher = sys.cipher.bipGmac256 then some 12
  else if cipher = sys.cipher.bipCmac256 then some 13
  else none

def cipherSuite (cipher : UInt8) (materialLen : ℕ) : Option UInt32 :=
  (sys.selector cipher materialLen).map fun selector =>
    if selector = 0 then 0 else 0x000fac00 ||| selector

def allowedFlags : UInt32 :=
  sys.flag.byDefault ||| sys.flag.rx ||| sys.flag.tx ||| sys.flag.group ||| sys.flag.pairwise

end KeySys

variable {sys : KeySys}

namespace Key

variable (key : Key sys)

def isPairwise : Bool := key.flags &&& sys.flag.pairwise ≠ 0

def isGroup : Bool := key.flags &&& sys.flag.group ≠ 0

def broadcast : Bool := key.peer = Vector.replicate 6 0xff

/-- The checks of `key_request`. -/
def wellFormed : Bool :=
  key.abiVersion = sys.abiVersion &&
  key.sequenceLen.toNat ≤ sys.keySequenceLen &&
  key.flags &&& ~~~sys.allowedFlags = 0 &&
  key.flags &&& (sys.flag.modify ||| sys.flag.pmk) = 0 &&
  key.flags &&& (sys.flag.rx ||| sys.flag.tx) ≠ 0 &&
  key.isPairwise ≠ key.isGroup &&
  key.peerPresent ≤ 1 &&
  !(key.isPairwise && (key.peerPresent ≠ 1 || key.broadcast)) &&
  !(key.isGroup && key.peerPresent = 1 && !key.broadcast)

/-- It protects management frames. -/
def management : Bool :=
  key.cipher ∈ [sys.cipher.bipCmac128, sys.cipher.bipGmac128, sys.cipher.bipGmac256,
    sys.cipher.bipCmac256]

end Key

def keyRequest (key : Key sys) (material : Option (List UInt8)) (materialLen : ℕ) :
    Option KeyExtension :=
  if key.wellFormed then do
    let cipher ← sys.cipherSuite key.cipher materialLen
    return {
      keyType := if key.isPairwise then keyTypePairwise else keyTypeGroup
      keyIndex := key.keyIndex.toUInt32
      keyLen := materialLen
      sequenceLen := key.sequenceLen.toUInt32
      cipher
      address := if key.isPairwise then some key.peer else none
      material
      sequence := if key.sequenceLen ≠ 0 then some key.sequence.toList else none
      defaultData := !key.management
      defaultManagement := key.management
      defaultTypes :=
        if key.isPairwise then keyDefaultUnicast
        else if key.peerPresent = 1 then keyDefaultMulticast
        else keyDefaultInvalid }
  else none

/-! ## §2 The callbacks -/

inductive KeyIoctl where
  | newKey
  | delKey
  | setKey
  deriving DecidableEq

/-- An ioctl and what it returned. -/
structure Issued where
  command : KeyIoctl
  request : KeyExtension
  status : Int32
  deriving DecidableEq

/-- What a callback returns, and the ioctls that it issued. -/
structure Outcome where
  result : Int32
  log : List Issued
  deriving DecidableEq

/-- `return -1` before any ioctl. -/
def refused : Outcome := ⟨-1, []⟩

/-- `driver` says whether the pointer is the driver context; `status` is what an ioctl returns. -/
def installKey (driver : Bool) (key : Option (Key sys)) (material : Option (List UInt8))
    (status : KeyIoctl → Int32) : Outcome :=
  match driver, key, material with
  | true, some key, some bytes =>
    if !sys.validKeyMaterial key.cipher bytes.length then refused
    else
      match keyRequest key (some bytes) bytes.length with
      | none => refused
      | some request =>
        let installed : Issued := ⟨.newKey, request, status .newKey⟩
        if status .newKey ≠ 0 ∨ key.flags &&& sys.flag.tx = 0 then ⟨status .newKey, [installed]⟩
        else
          let selected : Issued := ⟨.setKey, request, status .setKey⟩
          if status .setKey ≠ 0 then
            ⟨status .setKey, [installed, selected, ⟨.delKey, request, status .delKey⟩]⟩
          else ⟨status .setKey, [installed, selected]⟩
  | _, _, _ => refused

def removeKey (driver : Bool) (key : Option (Key sys)) (status : KeyIoctl → Int32) : Outcome :=
  match driver, key with
  | true, some key =>
    match keyRequest key none 0 with
    | none => refused
    | some request => ⟨status .delKey, [⟨.delKey, request, status .delKey⟩]⟩
  | _, _ => refused

/-! ## §3 What the driver holds -/

/-- The requests for the same key. -/
structure KeyExtension.SameKey (r r' : KeyExtension) : Prop where
  keyType : r.keyType = r'.keyType
  keyIndex : r.keyIndex = r'.keyIndex
  cipher : r.cipher = r'.cipher
  address : r.address = r'.address
  defaultData : r.defaultData = r'.defaultData
  defaultManagement : r.defaultManagement = r'.defaultManagement
  defaultTypes : r.defaultTypes = r'.defaultTypes

instance (r r' : KeyExtension) : Decidable (r.SameKey r') :=
  decidable_of_iff (r.keyType = r'.keyType ∧ r.keyIndex = r'.keyIndex ∧ r.cipher = r'.cipher ∧
      r.address = r'.address ∧ r.defaultData = r'.defaultData ∧
      r.defaultManagement = r'.defaultManagement ∧ r.defaultTypes = r'.defaultTypes)
    ⟨fun ⟨h₁, h₂, h₃, h₄, h₅, h₆, h₇⟩ => ⟨h₁, h₂, h₃, h₄, h₅, h₆, h₇⟩,
      fun ⟨h₁, h₂, h₃, h₄, h₅, h₆, h₇⟩ => ⟨h₁, h₂, h₃, h₄, h₅, h₆, h₇⟩⟩

/-- The keys that the driver holds after an ioctl. -/
def afterIoctl (held : List KeyExtension) (issued : Issued) : List KeyExtension :=
  match issued.command with
  | .newKey => if issued.status = 0 then issued.request :: held else held
  | .delKey =>
    if issued.status = 0 then held.filter fun r => ¬ r.SameKey issued.request else held
  | .setKey => held

/-- The keys that the driver holds from a call. -/
def Outcome.held (outcome : Outcome) : List KeyExtension := outcome.log.foldl afterIoctl []

/-- `IOCTL_NEW_KEY` has returned 0 for this request. -/
def Outcome.Installed (outcome : Outcome) (request : KeyExtension) : Prop :=
  ⟨.newKey, request, 0⟩ ∈ outcome.log

/-- Some `IOCTL_DEL_KEY` asks for this key to be deleted. -/
def Outcome.Deletes (outcome : Outcome) (request : KeyExtension) : Prop :=
  ∃ issued ∈ outcome.log, issued.command = .delKey ∧ request.SameKey issued.request

/-! ## §4 Main result -/

section Selector

variable {cipher : UInt8}

/-- Only the selector of a WEP key depends on the length of the material. -/
theorem cipherSuite_eq_zero (h : cipher ≠ sys.cipher.wep) (materialLen : ℕ) :
    sys.cipherSuite cipher materialLen = sys.cipherSuite cipher 0 := by
  simp [KeySys.cipherSuite, KeySys.selector, h]

/-- Without material a WEP key has no selector. -/
theorem cipherSuite_wep : sys.cipherSuite sys.cipher.wep 0 = none := by
  obtain ⟨hnone, hrest⟩ := List.nodup_cons.mp sys.cipher.distinct
  have hwep := (List.nodup_cons.mp hrest).1
  have hne : sys.cipher.wep ≠ sys.cipher.none := fun h => hnone (h ▸ List.mem_cons_self)
  simp only [List.mem_cons, not_or] at hwep
  obtain ⟨h₁, h₂, h₃, h₄, h₅, h₆, h₇, h₈, h₉, -⟩ := hwep
  simp [KeySys.cipherSuite, KeySys.selector, hne, h₁, h₂, h₃, h₄, h₅, h₆, h₇, h₈, h₉]

end Selector

variable {driver : Bool} {key : Key sys} {material : Option (List UInt8)}
  {status status' : KeyIoctl → Int32} {request : KeyExtension}

theorem keyRequest_sameKey (hcipher : key.cipher ≠ sys.cipher.wep) {materialLen : ℕ}
    (h : keyRequest key material materialLen = some request) :
    ∃ removal, keyRequest key none 0 = some removal ∧ request.SameKey removal := by
  unfold keyRequest at h ⊢
  split
  · rename_i hwell
    rw [if_pos hwell] at h
    obtain ⟨cipher, hsuite, hrequest⟩ := Option.bind_eq_some_iff.mp h
    rw [cipherSuite_eq_zero hcipher] at hsuite
    rw [hsuite]
    refine ⟨_, rfl, ?_⟩
    cases hrequest
    exact ⟨rfl, rfl, rfl, rfl, rfl, rfl, rfl⟩
  · rename_i hill
    rw [if_neg hill] at h
    cases h

theorem keyRequest_wep (hcipher : key.cipher = sys.cipher.wep) :
    keyRequest key none 0 = none := by
  unfold keyRequest
  rw [hcipher, cipherSuite_wep]
  split <;> rfl

/-- What `install_key` does: nothing, or one to three ioctls with one request. -/
theorem installKey_cases (driver : Bool) (key : Key sys) (material : Option (List UInt8))
    (status : KeyIoctl → Int32) :
    installKey driver (some key) material status = refused ∨
      ∃ bytes request, driver = true ∧ material = some bytes ∧
        keyRequest key (some bytes) bytes.length = some request ∧
        (installKey driver (some key) material status =
            ⟨status .newKey, [⟨.newKey, request, status .newKey⟩]⟩ ∨
          status .newKey = 0 ∧ status .setKey ≠ 0 ∧
            installKey driver (some key) material status =
              ⟨status .setKey, [⟨.newKey, request, status .newKey⟩,
                ⟨.setKey, request, status .setKey⟩, ⟨.delKey, request, status .delKey⟩]⟩ ∨
          status .newKey = 0 ∧ status .setKey = 0 ∧
            installKey driver (some key) material status =
              ⟨status .setKey, [⟨.newKey, request, status .newKey⟩,
                ⟨.setKey, request, status .setKey⟩]⟩) := by
  cases driver with
  | false => exact .inl rfl
  | true =>
    cases material with
    | none => exact .inl rfl
    | some bytes =>
      dsimp only [installKey]
      split
      · exact .inl rfl
      · cases hrequest : keyRequest key (some bytes) bytes.length with
        | none => exact .inl rfl
        | some request =>
          refine .inr ⟨bytes, request, rfl, rfl, hrequest, ?_⟩
          dsimp only
          split
          · exact .inl rfl
          · rename_i hgo
            obtain ⟨hnew, -⟩ := not_or.mp hgo
            split
            · rename_i hset
              exact .inr (.inl ⟨not_not.mp hnew, hset, rfl⟩)
            · rename_i hset
              exact .inr (.inr ⟨not_not.mp hnew, not_not.mp hset, rfl⟩)

/-- A call that installs a key has translated it. -/
theorem request_of_installed
    (h : (installKey driver (some key) material status).Installed request) :
    driver = true ∧
      ∃ bytes, material = some bytes ∧ keyRequest key (some bytes) bytes.length = some request := by
  obtain hrefused | ⟨bytes, request', hdriver, hmaterial, hrequest, hlog⟩ :=
    installKey_cases driver key material status
  · rw [hrefused] at h
    cases h
  · have heq : request' = request := by
      obtain hlog | ⟨-, -, hlog⟩ | ⟨-, -, hlog⟩ := hlog
      · rw [hlog] at h
        simp [Outcome.Installed] at h
        exact h.1.symm
      · rw [hlog] at h
        simp [Outcome.Installed] at h
        exact h.1.symm
      · rw [hlog] at h
        simp [Outcome.Installed] at h
        exact h.1.symm
    rw [← heq]
    exact ⟨hdriver, bytes, hmaterial, hrequest⟩

theorem KeyExtension.SameKey.refl (request : KeyExtension) : request.SameKey request :=
  ⟨rfl, rfl, rfl, rfl, rfl, rfl, rfl⟩

/-- If deleting works, a call that fails leaves no key in the driver. -/
theorem held_eq_nil (hdel : status .delKey = 0)
    (hfail : (installKey driver (some key) material status).result ≠ 0) :
    (installKey driver (some key) material status).held = [] := by
  obtain hrefused | ⟨bytes, request, -, -, -, hlog⟩ := installKey_cases driver key material status
  · rw [hrefused]
    rfl
  · obtain hlog | ⟨hnew, -, hlog⟩ | ⟨-, hset, hlog⟩ := hlog
    · rw [hlog] at hfail ⊢
      simpa [Outcome.held, afterIoctl] using hfail
    · rw [hlog]
      simp [Outcome.held, afterIoctl, hnew, hdel, KeyExtension.SameKey.refl]
    · rw [hlog] at hfail
      exact absurd hset hfail

/-- Every key that the call installs, a removal of the same key asks to be deleted. -/
def Removable (driver : Bool) (key : Key sys) (material : Option (List UInt8))
    (status status' : KeyIoctl → Int32) : Prop :=
  ∀ request, (installKey driver (some key) material status).Installed request →
    (removeKey driver (some key) status').Deletes request

/-- A call that fails leaves no key, if `IOCTL_DEL_KEY` returns 0. -/
def RolledBack (driver : Bool) (key : Key sys) (material : Option (List UInt8))
    (status : KeyIoctl → Int32) : Prop :=
  status .delKey = 0 → (installKey driver (some key) material status).result ≠ 0 →
    (installKey driver (some key) material status).held = []

theorem deletes_of_installed (hcipher : key.cipher ≠ sys.cipher.wep)
    (h : (installKey driver (some key) material status).Installed request) :
    (removeKey driver (some key) status').Deletes request := by
  obtain ⟨rfl, bytes, -, hrequest⟩ := request_of_installed h
  obtain ⟨removal, hremoval, hsame⟩ := keyRequest_sameKey hcipher hrequest
  delta removeKey
  simp only [hremoval]
  exact ⟨_, List.mem_cons_self, rfl, hsame⟩

/-- A WEP key is never asked to be deleted. -/
theorem not_deletes_wep (hcipher : key.cipher = sys.cipher.wep) :
    ¬ (removeKey driver (some key) status').Deletes request := by
  have hrefused : removeKey driver (some key) status' = refused := by
    cases driver with
    | false => rfl
    | true =>
      delta removeKey
      simp only [keyRequest_wep hcipher]
  rw [hrefused]
  rintro ⟨issued, hissued, -⟩
  cases hissued

/-- **Which keys can be removed.** For every key, material and answers of the driver: what
`install_key` installs can be removed, and its rollback is complete, exactly when what it
installs is no WEP key. -/
theorem remove_undoes_install_iff (driver : Bool) (key : Key sys) (material : Option (List UInt8))
    (status status' : KeyIoctl → Int32) :
    Removable driver key material status status' ∧ RolledBack driver key material status ↔
      ((∃ request, (installKey driver (some key) material status).Installed request) →
        key.cipher ≠ sys.cipher.wep) := by
  constructor
  · rintro ⟨hremovable, -⟩ ⟨request, hinstalled⟩ hwep
    exact not_deletes_wep hwep (hremovable request hinstalled)
  · intro h
    constructor
    · exact fun request hinstalled => deletes_of_installed (h ⟨request, hinstalled⟩) hinstalled
    · exact held_eq_nil

/-- Codes in the order in which `cipher_suite` lists them. -/
def listedCodes : CipherCodes where
  none := 0
  wep := 1
  tkip := 2
  ccmp := 3
  bipCmac128 := 4
  gcmp := 5
  gcmp256 := 6
  ccmp256 := 7
  bipGmac128 := 8
  bipGmac256 := 9
  bipCmac256 := 10
  distinct := by decide

def listedSys : KeySys where
  abiVersion := 1
  keySequenceLen := 16
  cipher := listedCodes
  flag := ⟨1, 2, 4, 8, 16, 32, 64⟩

/-- A group key of cipher WEP. -/
def wepKey : Key listedSys where
  abiVersion := 1
  cipher := 1
  keyIndex := 1
  flags := 14
  peer := Vector.replicate 6 0xff
  peerPresent := 0
  sequenceLen := 0
  sequence := Vector.replicate 16 0

/-- It is installed, and `remove_key` returns an error without an ioctl. -/
theorem not_remove_undoes_install :
    ¬ ∀ (sys : KeySys) (driver : Bool) (key : Key sys) (material : Option (List UInt8))
      (status status' : KeyIoctl → Int32),
      Removable driver key material status status' ∧ RolledBack driver key material status := by
  intro h
  have hremovable := (h listedSys true wepKey (some [1, 2, 3, 4, 5]) (fun _ => 0) fun _ => 0).1
  obtain ⟨issued, hissued, -⟩ := hremovable
    ⟨0, 1, 5, 0, 0x000fac01, none, some [1, 2, 3, 4, 5], none, true, false, 0⟩
    (show _ ∈ _ by decide)
  cases hissued

end HisiRiscv.Supplicant.Keys
