/-
HisiRiscv.Wifi.DeviceAddress — the interface addresses of `uapi.rs`.

`get_dev_addr` adds 0, 2 or 3 to the base address of the device, for the station, the access
point and the mesh or P2P interfaces, and clears the multicast bit of the sum. The base comes
from the key-value store, from the efuse or from random bytes, and is kept.

Translation notes. The store, the efuse and the random number generator are parameters
(`Sources`): what they return, and what they leave in the buffer they are given. The
caller's buffer is given by its address, and what is written there is the result.

  §1 Addresses.
  §2 The base address.
  §3 `get_dev_addr`.
  §4 Addresses as numbers.
  §5 Main results.
-/
import HisiRiscv.Lib.BigEndian

namespace HisiRiscv.Wifi.DeviceAddress

open HisiRiscv.BigEndian

/-! ## §1 Addresses -/

/-- `[u8; 6]`. -/
structure Mac where
  bytes : List UInt8
  length : bytes.length = 6
  deriving DecidableEq

def Mac.first (mac : Mac) : UInt8 := mac.bytes.headD 0

def zeroMac : Mac := ⟨List.replicate 6 0, rfl⟩

def broadcastMac : Mac := ⟨List.replicate 6 0xff, rfl⟩

def validUnicastMac (mac : Mac) : Bool :=
  mac.first &&& 1 == 0 && mac != zeroMac && mac != broadcastMac

/-! ## §2 The base address -/

def osalOk : UInt32 := 0

structure Sources where
  /-- `uapi_nv_read`: the result, the length, and the buffer after it -/
  nvRead : UInt32 × UInt16 × Mac
  /-- `uapi_efuse_read_buffer` at an offset: the result, and the buffer after it -/
  efuseRead : UInt32 → Mac → UInt32 × Mac
  /-- `uapi_drv_cipher_trng_get_random_bytes`: the buffer after it -/
  randomBytes : Mac → Mac

def efuseOffsets : List UInt32 := [216, 210, 204, 198]

/-- The loop over the efuse: the buffer after it, and whether an address was found. -/
def efuseLoop (read : UInt32 → Mac → UInt32 × Mac) : List UInt32 → Mac → Bool × Mac
  | [], mac => (false, mac)
  | offset :: offsets, mac =>
    let (result, mac) := read offset mac
    if result == osalOk && validUnicastMac mac then (true, mac) else efuseLoop read offsets mac

/-- The locally administered address made of random bytes. -/
def fallbackMac (random : Mac) : Mac :=
  ⟨[(random.first &&& 0xfc) ||| 0x02, 0x00, 0x73] ++ random.bytes.drop 3, by simp [random.length]⟩

/-- `wifi_base_mac`, before the base is kept. -/
def readBaseMac (sources : Sources) : Mac :=
  let (result, actual, mac) := sources.nvRead
  if result != osalOk || actual != 6 || !validUnicastMac mac then
    let (found, mac) := efuseLoop sources.efuseRead efuseOffsets mac
    if found then mac else fallbackMac (sources.randomBytes mac)
  else mac

/-- `wifi_base_mac`, with the base that was kept. -/
def wifiBaseMac (kept : Option Mac) (sources : Sources) : Mac := kept.getD (readBaseMac sources)

/-! ## §3 `get_dev_addr` -/

/-- `carry += byte; byte = carry as u8; carry >>= 8`, from the last byte to the first. -/
def addCarry (bytes : List UInt8) (derive : UInt16) : List UInt8 × UInt16 :=
  match bytes with
  | [] => ([], derive)
  | byte :: bytes =>
    let (bytes, carry) := addCarry bytes derive
    let carry := carry + byte.toUInt16
    (carry.toUInt8 :: bytes, carry >>> 8)

theorem length_addCarry (bytes : List UInt8) (derive : UInt16) :
    (addCarry bytes derive).1.length = bytes.length := by
  induction bytes with
  | nil => rfl
  | cons byte bytes ih => simp [addCarry, ih]

/-- `mac[0] &= 0xfe`. -/
def clearMulticast (bytes : List UInt8) : List UInt8 :=
  match bytes with
  | [] => []
  | first :: bytes => (first &&& 0xfe) :: bytes

@[simp] theorem length_clearMulticast (bytes : List UInt8) :
    (clearMulticast bytes).length = bytes.length := by
  cases bytes <;> rfl

def deriveMac (base : Mac) (derive : UInt16) : Mac :=
  ⟨clearMulticast (addCarry base.bytes derive).1, by
    rw [length_clearMulticast, length_addCarry, base.length]⟩

/-- What is added for an interface type. -/
def derivation (interfaceType : UInt8) : Option UInt16 :=
  if interfaceType = 2 then some 0 -- station
  else if interfaceType = 3 then some 2 -- AP
  else if 7 ≤ interfaceType ∧ interfaceType ≤ 10 then some 3 -- mesh / P2P
  else none

/-- `get_dev_addr`: the base it keeps, and the address it writes; none is `OSAL_NOK`. -/
def getDevAddr (kept : Option Mac) (sources : Sources) (pcAddr : ℕ)
    (addrLen interfaceType : UInt8) : Option Mac × Option Mac :=
  if pcAddr = 0 ∨ addrLen ≠ 6 then (kept, none)
  else
    let base := wifiBaseMac kept sources
    (some base, (derivation interfaceType).map (deriveMac base))

/-! ## §4 Addresses as numbers -/

def Mac.number (mac : Mac) : ℕ := fromBe mac.bytes

theorem Mac.number_lt (mac : Mac) : mac.number < 2 ^ 48 := by
  have hlt := fromBe_lt mac.bytes
  rwa [mac.length] at hlt

theorem Mac.number_injective {a b : Mac} (h : a.number = b.number) : a = b := by
  have hbytes := fromBe_injective (a.length.trans b.length.symm) h
  cases a
  cases b
  cases hbytes
  rfl

theorem Mac.number_eq (mac : Mac) : ∃ rest, rest < 2 ^ 40 ∧
    mac.number = mac.first.toNat * 2 ^ 40 + rest := by
  obtain ⟨bytes, hlen⟩ := mac
  obtain ⟨first, bytes, rfl⟩ := List.exists_cons_of_length_eq_add_one hlen
  rw [List.length_cons, Nat.add_right_cancel_iff] at hlen
  refine ⟨fromBe bytes, ?_, ?_⟩
  · have hlt := fromBe_lt bytes
    rwa [hlen] at hlt
  · rw [Mac.number, fromBe_cons, hlen]
    rfl

theorem and_one_eq_zero_iff (b : UInt8) : b &&& 1 = 0 ↔ b.toNat % 2 = 0 := by
  rw [← UInt8.toNat_inj, UInt8.toNat_and]
  simp [Nat.and_one_is_mod]

theorem toNat_and_fe (b : UInt8) : (b &&& 0xfe).toNat = b.toNat - b.toNat % 2 := by
  have hall : ∀ n : Fin 256, n.val &&& 0xfe = n.val - n.val % 2 := by decide +kernel
  rw [UInt8.toNat_and]
  exact hall ⟨b.toNat, b.toNat_lt⟩

theorem validUnicastMac_iff (mac : Mac) : validUnicastMac mac = true ↔
    mac.number / 2 ^ 40 % 2 = 0 ∧ mac.number ≠ 0 := by
  obtain ⟨rest, hrest, hnumber⟩ := mac.number_eq
  have hzero : mac = zeroMac ↔ mac.number = 0 := by
    refine ⟨?_, fun h => Mac.number_injective (h.trans ?_)⟩
    · rintro rfl
      decide
    · decide
  have hfirst : mac.number / 2 ^ 40 = mac.first.toNat := by omega
  have hbroadcast : mac = broadcastMac → mac.number / 2 ^ 40 % 2 = 1 := by
    rintro rfl
    decide
  simp only [validUnicastMac, Bool.and_eq_true, beq_iff_eq, bne_iff_ne, ne_eq, hzero,
    and_one_eq_zero_iff, ← hfirst]
  constructor
  · rintro ⟨⟨heven, hne⟩, -⟩
    exact ⟨heven, hne⟩
  · rintro ⟨heven, hne⟩
    refine ⟨⟨heven, hne⟩, fun h => ?_⟩
    have hodd := hbroadcast h
    omega

/-- The bytes and the carry are the sum. -/
theorem addCarry_eq (bytes : List UInt8) {derive : UInt16} (hderive : derive.toNat < 256) :
    fromBe (addCarry bytes derive).1 + (addCarry bytes derive).2.toNat * 256 ^ bytes.length =
        fromBe bytes + derive.toNat ∧
      (addCarry bytes derive).2.toNat < 256 := by
  induction bytes with
  | nil => exact ⟨by simp [addCarry, fromBe, digits], hderive⟩
  | cons byte bytes ih =>
    obtain ⟨hsum, hcarry⟩ := ih
    have hbyte := byte.toNat_lt
    have hadd : ((addCarry bytes derive).2 + byte.toUInt16).toNat =
        (addCarry bytes derive).2.toNat + byte.toNat := by
      rw [UInt16.toNat_add, UInt8.toNat_toUInt16, Nat.mod_eq_of_lt (by omega)]
    rw [addCarry]
    have hshift : (((addCarry bytes derive).2 + byte.toUInt16) >>> 8).toNat =
        ((addCarry bytes derive).2.toNat + byte.toNat) / 256 := by
      rw [UInt16.toNat_shiftRight, hadd]
      exact Nat.shiftRight_eq_div_pow _ 8
    simp only [fromBe_cons, length_addCarry, UInt16.toNat_toUInt8, hshift, hadd, List.length_cons,
      pow_succ]
    constructor
    · generalize (addCarry bytes derive).2.toNat = carry at *
      generalize 256 ^ bytes.length = p at *
      have hsplit := Nat.mod_add_div (carry + byte.toNat) 256
      calc (carry + byte.toNat) % 256 * p + fromBe (addCarry bytes derive).1 +
            (carry + byte.toNat) / 256 * (p * 256)
          = ((carry + byte.toNat) % 256 + 256 * ((carry + byte.toNat) / 256)) * p +
            fromBe (addCarry bytes derive).1 := by ring
        _ = byte.toNat * p + (fromBe (addCarry bytes derive).1 + carry * p) := by
            rw [hsplit]
            ring
        _ = byte.toNat * p + fromBe bytes + derive.toNat := by
            rw [hsum]
            ring
    · omega

theorem fromBe_clearMulticast {bytes : List UInt8} (hlen : bytes.length = 6) :
    fromBe (clearMulticast bytes) = fromBe bytes - fromBe bytes / 2 ^ 40 % 2 * 2 ^ 40 := by
  obtain ⟨first, bytes, rfl⟩ := List.exists_cons_of_length_eq_add_one hlen
  rw [List.length_cons, Nat.add_right_cancel_iff] at hlen
  have hlt := fromBe_lt bytes
  rw [hlen] at hlt
  rw [clearMulticast, fromBe_cons, fromBe_cons, hlen, toNat_and_fe]
  omega

/-- The sum with the multicast bit cleared, where it fits 48 bits. -/
theorem number_deriveMac {base : Mac} {derive : UInt16} (hderive : derive.toNat < 256)
    (hfits : base.number + derive.toNat < 2 ^ 48) :
    (deriveMac base derive).number = base.number + derive.toNat -
      (base.number + derive.toNat) / 2 ^ 40 % 2 * 2 ^ 40 := by
  obtain ⟨hsum, -⟩ := addCarry_eq base.bytes hderive
  have hlen := (length_addCarry base.bytes derive).trans base.length
  have hlt := fromBe_lt (addCarry base.bytes derive).1
  rw [hlen] at hlt
  rw [base.length] at hsum
  have hbytes : fromBe (addCarry base.bytes derive).1 = base.number + derive.toNat := by
    rw [Mac.number] at *
    omega
  rw [Mac.number, deriveMac, fromBe_clearMulticast hlen, hbytes]

/-- The fallback address is a locally administered one. -/
theorem number_fallbackMac (random : Mac) : (fallbackMac random).number / 2 ^ 40 % 4 = 2 := by
  have hall : ∀ n : Fin 256, (n.val &&& 0xfc ||| 0x02) % 4 = 2 := by decide +kernel
  have hfirst : (fallbackMac random).first.toNat % 4 = 2 := by
    rw [show (fallbackMac random).first = (random.first &&& 0xfc) ||| 0x02 from rfl,
      UInt8.toNat_or, UInt8.toNat_and]
    exact hall ⟨random.first.toNat, random.first.toNat_lt⟩
  obtain ⟨rest, hrest, hnumber⟩ := (fallbackMac random).number_eq
  omega

/-! ## §5 Main results -/

/-- An address that the device may take for its base. -/
def IsBase (base : Mac) : Prop := validUnicastMac base = true ∨ ∃ random, base = fallbackMac random

theorem efuseLoop_valid {read : UInt32 → Mac → UInt32 × Mac} {offsets : List UInt32} {mac : Mac}
    (h : (efuseLoop read offsets mac).1 = true) :
    validUnicastMac (efuseLoop read offsets mac).2 = true := by
  induction offsets generalizing mac with
  | nil => cases h
  | cons offset offsets ih =>
    simp only [efuseLoop] at h ⊢
    split
    · rename_i hfound
      exact (Bool.and_eq_true_iff.mp hfound).2
    · rename_i hnot
      rw [if_neg hnot] at h
      exact ih h

theorem isBase_readBaseMac (sources : Sources) : IsBase (readBaseMac sources) := by
  unfold readBaseMac
  simp only
  split
  · split
    · rename_i hfound
      exact .inl (efuseLoop_valid hfound)
    · exact .inr ⟨_, rfl⟩
  · rename_i hnv
    simp only [Bool.or_eq_true, not_or, Bool.not_eq_true, Bool.not_eq_false'] at hnv
    exact .inl hnv.2

/-- A number below `2 ^ 48` whose first byte is even is no sum away from the bound. -/
theorem IsBase.number_lt {base : Mac} (h : IsBase base) :
    base.number < 255 * 2 ^ 40 ∧ base.number / 2 ^ 40 % 2 = 0 ∧ base.number ≠ 0 := by
  have hlt := base.number_lt
  obtain h | ⟨random, rfl⟩ := h
  · obtain ⟨heven, hne⟩ := (validUnicastMac_iff base).mp h
    omega
  · have hlocal := number_fallbackMac random
    omega

/-- The base whose last five bytes become zero when 2 (for `0xfe`) or 3 (for `0xfd`) is added. -/
def wrapMac (last : UInt8) : Mac := ⟨[0x00, 0xff, 0xff, 0xff, 0xff, last], rfl⟩

/-- The addresses are those of unicast interfaces, and two kinds of interface never get
the same, whether or not the base has been read before. -/
structure AddressesValid (kept : Option Mac) (sources : Sources) : Prop where
  valid : ∀ pcAddr addrLen interfaceType address,
    (getDevAddr kept sources pcAddr addrLen interfaceType).2 = some address →
      validUnicastMac address = true
  distinct : ∀ pcAddr pcAddr' addrLen addrLen' interfaceType interfaceType' sources' address address',
    (getDevAddr kept sources pcAddr addrLen interfaceType).2 = some address →
    (getDevAddr (getDevAddr kept sources pcAddr addrLen interfaceType).1 sources' pcAddr' addrLen'
      interfaceType').2 = some address' →
    derivation interfaceType ≠ derivation interfaceType' → address ≠ address'

theorem derivation_cases {interfaceType : UInt8} {derive : UInt16}
    (h : derivation interfaceType = some derive) : derive = 0 ∨ derive = 2 ∨ derive = 3 := by
  unfold derivation at h
  split_ifs at h <;> simp_all

theorem derivation_ap : derivation 3 = some 2 := rfl

theorem derivation_mesh : derivation 7 = some 3 := rfl

/-- What a call that writes an address keeps and writes. -/
theorem getDevAddr_eq_some {kept : Option Mac} {sources : Sources} {pcAddr : ℕ}
    {addrLen interfaceType : UInt8} {address : Mac}
    (h : (getDevAddr kept sources pcAddr addrLen interfaceType).2 = some address) :
    (getDevAddr kept sources pcAddr addrLen interfaceType).1 = some (wifiBaseMac kept sources) ∧
      ∃ derive, derivation interfaceType = some derive ∧
        deriveMac (wifiBaseMac kept sources) derive = address := by
  unfold getDevAddr at h ⊢
  split_ifs at h ⊢
  exact ⟨rfl, Option.map_eq_some_iff.mp h⟩

theorem getDevAddr_of_derivation {kept : Option Mac} {sources : Sources} {interfaceType : UInt8}
    {derive : UInt16} (h : derivation interfaceType = some derive) :
    (getDevAddr kept sources 1 6 interfaceType).2 =
      some (deriveMac (wifiBaseMac kept sources) derive) := by
  simp [getDevAddr, h]

theorem number_wrapMac : (wrapMac 0xfe).number = 2 ^ 40 - 2 ∧ (wrapMac 0xfd).number = 2 ^ 40 - 3 := by
  decide

/-- Only the sums `2 ^ 40` lose all their bits. -/
theorem validUnicastMac_deriveMac {base : Mac} {derive : UInt16} (hbase : IsBase base)
    (hderive : derive.toNat < 256) :
    validUnicastMac (deriveMac base derive) = true ↔ base.number + derive.toNat ≠ 2 ^ 40 := by
  obtain ⟨hlt, heven, hne⟩ := hbase.number_lt
  have hnumber : (deriveMac base derive).number = _ := number_deriveMac hderive (by omega)
  rw [validUnicastMac_iff, hnumber]
  omega

theorem deriveMac_injective {base : Mac} {derive derive' : UInt16} (hbase : IsBase base)
    (hderive : derive.toNat < 256) (hderive' : derive'.toNat < 256)
    (h : deriveMac base derive = deriveMac base derive') : derive = derive' := by
  obtain ⟨hlt, heven, hne⟩ := hbase.number_lt
  have hnumber := congrArg Mac.number h
  rw [number_deriveMac hderive (by omega), number_deriveMac hderive' (by omega)] at hnumber
  refine UInt16.toNat_inj.mp ?_
  omega

/-- The three addresses are unicast and distinct, except that the base whose last five bytes
wrap around gives the all-zero address. -/
theorem device_addresses_iff {kept : Option Mac} (hkept : ∀ base ∈ kept, IsBase base)
    (sources : Sources) :
    AddressesValid kept sources ↔ wifiBaseMac kept sources ∉ [wrapMac 0xfe, wrapMac 0xfd] := by
  have hbase : IsBase (wifiBaseMac kept sources) := by
    cases kept with
    | none => exact isBase_readBaseMac sources
    | some base => exact hkept base rfl
  have hsmall : ∀ {interfaceType derive}, derivation interfaceType = some derive →
      derive.toNat < 256 := by
    intro interfaceType derive h
    obtain rfl | rfl | rfl := derivation_cases h <;> decide
  constructor
  · intro h hwrap
    simp only [List.mem_cons, List.not_mem_nil, or_false] at hwrap
    obtain hwrap | hwrap := hwrap
    · have hvalid := h.valid 1 6 3 _ (getDevAddr_of_derivation derivation_ap)
      rw [validUnicastMac_deriveMac hbase (by decide), hwrap, number_wrapMac.1] at hvalid
      exact hvalid rfl
    · have hvalid := h.valid 1 6 7 _ (getDevAddr_of_derivation derivation_mesh)
      rw [validUnicastMac_deriveMac hbase (by decide), hwrap, number_wrapMac.2] at hvalid
      exact hvalid rfl
  · intro hwrap
    simp only [List.mem_cons, List.not_mem_nil, or_false, not_or] at hwrap
    refine ⟨?_, ?_⟩
    · intro pcAddr addrLen interfaceType address haddress
      obtain ⟨-, derive, hderive, rfl⟩ := getDevAddr_eq_some haddress
      rw [validUnicastMac_deriveMac hbase (hsmall hderive)]
      intro hsum
      obtain ⟨-, heven, -⟩ := hbase.number_lt
      obtain rfl | rfl | rfl := derivation_cases hderive
      · rw [UInt16.toNat_zero, Nat.add_zero] at hsum
        omega
      · refine hwrap.1 (Mac.number_injective ?_)
        rw [number_wrapMac.1]
        exact Nat.eq_sub_of_add_eq hsum
      · refine hwrap.2 (Mac.number_injective ?_)
        rw [number_wrapMac.2]
        exact Nat.eq_sub_of_add_eq hsum
    · intro pcAddr pcAddr' addrLen addrLen' interfaceType interfaceType' sources' address address'
        haddress haddress' hne heq
      obtain ⟨hkeep, derive, hderive, rfl⟩ := getDevAddr_eq_some haddress
      rw [hkeep] at haddress'
      obtain ⟨-, derive', hderive', rfl⟩ := getDevAddr_eq_some haddress'
      refine hne ?_
      rw [hderive, hderive', deriveMac_injective hbase (hsmall hderive) (hsmall hderive') heq]

/-- Sources with a factory address in the store. -/
def factory (mac : Mac) : Sources where
  nvRead := (osalOk, 6, mac)
  efuseRead := fun _ mac => (1, mac)
  randomBytes := id

theorem device_addresses_factory :
    AddressesValid none (factory ⟨[0x00, 0x73, 0xff, 0xff, 0xff, 0xfe], rfl⟩) :=
  (device_addresses_iff (by simp) _).mpr (by decide)

/-- The base `00:ff:ff:ff:ff:fe` is accepted, and the address of the access point is zero. -/
theorem not_device_addresses_valid : ¬ ∀ base, validUnicastMac base = true →
    ∀ sources, AddressesValid (some base) sources := by
  intro h
  have hvalid := (h (wrapMac 0xfe) (by decide) (factory zeroMac)).valid 1 6 3 zeroMac (by decide)
  exact absurd hvalid (by decide)

end HisiRiscv.Wifi.DeviceAddress
