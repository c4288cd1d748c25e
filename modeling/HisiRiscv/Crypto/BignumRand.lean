/-
HisiRiscv.Crypto.BignumRand — `crypto_bignum_rand` of `crypto_sae.rs`.

Entropy of the width of the modulus is masked in its first byte to as many bits as the first byte of
the modulus has, and is drawn again if the number is not below the modulus. The mask makes of the
entropy its remainder by a power of two that is above the modulus, and at most twice the modulus
(`fromBe_mask`, `modulus_bounds`).

Translation notes. As in `Crypto.ByteObjects`, `hisi_crypto` is a parameter; `Correct` says that
`write_be` with padding 0 writes a minimal encoding, and what `random_below` returns. The entropy
source answers each request with as many bytes as are requested, or fails. What is wiped after
use is left out.

  §1 `hisi_crypto` and the entropy source.
  §2 The function.
  §3 The mask.
  §4 The draws for a modulus.
  §5 The calls.
  §6 Main result.
-/
import HisiRiscv.Lib.Rejection
import HisiRiscv.Crypto.ByteObjectsTheorems
import Mathlib.Data.Nat.Size

namespace HisiRiscv.Crypto.Bytes

open HisiRiscv.BigEndian HisiRiscv.ByteMemory HisiRiscv.Rejection

/-! ## §1 `hisi_crypto` and the entropy source -/

inductive CryptoError where
  | entropyRejected
  | other
  deriving DecidableEq

structure RandomAdapter extends Adapter where
  /-- `BIGNUM_BYTES` -/
  bignumBytes : ℕ
  /-- What `write_be` with padding 0 writes to a buffer of that size. -/
  writeMinimal : Bignum → Option (List UInt8)
  randomBelow : List UInt8 → Bignum → Except CryptoError Bignum

namespace RandomAdapter

structure Correct (c : RandomAdapter) : Prop where
  /-- a number that fits is written -/
  writeMinimal : ∀ v, c.toNat v < 256 ^ c.bignumBytes → (c.writeMinimal v).isSome = true
  writeMinimal_eq : ∀ v bytes, c.writeMinimal v = some bytes → fromBe bytes = c.toNat v
  /-- only zero is written with a first byte that is zero -/
  minimal : ∀ v bytes, c.writeMinimal v = some bytes → bytes.head? = some 0 → c.toNat v = 0
  randomBelow : ∀ bytes modulus, fromBe bytes < c.toNat modulus →
    ∃ v, c.randomBelow bytes modulus = .ok v ∧ c.toNat v = fromBe bytes
  rejected : ∀ bytes modulus, c.toNat modulus ≤ fromBe bytes →
    c.randomBelow bytes modulus = .error .entropyRejected

end RandomAdapter

/-- What the source answers to each request of a width; none is a failure. -/
abbrev Entropy : Type := ℕ → (width : ℕ) → Option (Vector UInt8 width)

/-! ## §2 The function -/

def maxRandomRejections : ℕ := 128

/-- `u8::leading_zeros`. -/
def leadingZeros (byte : UInt8) : ℕ := 8 - byte.toNat.size

def entropyTopMask (firstModulusByte : UInt8) : Option UInt8 :=
  if firstModulusByte != 0 then some (255 >>> UInt8.ofNat (leadingZeros firstModulusByte)) else none

namespace RandomAdapter

variable (c : RandomAdapter)

/-- The width and the mask for a modulus. -/
def request (modulus : c.Bignum) : Option (ℕ × UInt8) := do
  let written ← c.writeMinimal modulus
  let modulusBytes := written ++ List.replicate (c.bignumBytes - written.length) 0
  let topMask ← modulusBytes.head?.bind entropyTopMask
  some (written.length, topMask)

/-- `entropy[0] &= top_mask`, and `random_below`. -/
def draw (modulus : c.Bignum) (topMask : UInt8) (entropy : List UInt8) : Except CryptoError c.Bignum :=
  c.randomBelow (entropy.modifyHead (· &&& topMask)) modulus

/-- The loop, with the rounds that are left and the requests before. -/
def randLoop (modulus : c.Bignum) (width : ℕ) (topMask : UInt8) (entropy : Entropy) :
    ℕ → ℕ → Option c.Bignum
  | 0, _ => none
  | rounds + 1, call =>
    match entropy call width with
    | none => none
    | some bytes =>
      match c.draw modulus topMask bytes.toList with
      | .ok value => some value
      | .error .entropyRejected => randLoop modulus width topMask entropy rounds (call + 1)
      | .error .other => none

def cryptoBignumRand (entropy : Entropy) (m : Memory) (result modulus : ℕ) : Outcome :=
  if !bignumAliases (bignumLayout c.toAdapter) result [modulus] then (-1, m)
  else
    match bignumClone c.toAdapter m modulus with
    | none => (-1, m)
    | some modulus =>
      match c.request modulus with
      | none => (-1, m)
      | some (width, topMask) =>
        finishBignum c.toAdapter m result
          (c.randLoop modulus width topMask entropy maxRandomRejections 0)

end RandomAdapter

/-! ## §3 The mask -/

section Mask

variable {first topMask : UInt8}

theorem size_pos_of_ne_zero (hfirst : first ≠ 0) : 0 < first.toNat.size :=
  Nat.size_pos.mpr (Nat.pos_of_ne_zero fun hzero => hfirst (UInt8.toNat_inj.mp hzero))

/-- As many bits as the first byte has. -/
theorem entropyTopMask_eq (hfirst : first ≠ 0) : ∃ topMask, entropyTopMask first = some topMask ∧
    topMask.toNat = 2 ^ first.toNat.size - 1 := by
  have hpos := size_pos_of_ne_zero hfirst
  have hle : first.toNat.size ≤ 8 := Nat.size_le.mpr first.toNat_lt
  refine ⟨_, if_pos (bne_iff_ne.mpr hfirst), ?_⟩
  rw [leadingZeros]
  generalize first.toNat.size = bits at hpos hle
  interval_cases bits
  all_goals decide

/-- The masked entropy is a remainder. -/
theorem fromBe_mask {bits : ℕ} (hmask : topMask.toNat = 2 ^ bits - 1) (byte : UInt8)
    (bytes : List UInt8) :
    fromBe ((byte :: bytes).modifyHead (· &&& topMask)) =
      fromBe (byte :: bytes) % (2 ^ bits * 256 ^ bytes.length) := by
  rw [List.modifyHead_cons, fromBe_cons, fromBe_cons, UInt8.toNat_and, hmask,
    Nat.and_two_pow_sub_one_eq_mod]
  have hlt := fromBe_lt bytes
  generalize 256 ^ bytes.length = weight at hlt
  have hquotient := Nat.mod_add_div byte.toNat (2 ^ bits)
  have hremainder := Nat.mul_le_mul_right weight
    (Nat.succ_le_of_lt (Nat.mod_lt byte.toNat (Nat.two_pow_pos bits)))
  rw [Nat.succ_mul] at hremainder
  calc byte.toNat % 2 ^ bits * weight + fromBe bytes
      = (byte.toNat % 2 ^ bits * weight + fromBe bytes) % (2 ^ bits * weight) :=
        (Nat.mod_eq_of_lt (by omega)).symm
    _ = (byte.toNat % 2 ^ bits * weight + fromBe bytes +
          2 ^ bits * weight * (byte.toNat / 2 ^ bits)) % (2 ^ bits * weight) :=
        (Nat.add_mul_mod_self_left _ _ _).symm
    _ = ((byte.toNat % 2 ^ bits + 2 ^ bits * (byte.toNat / 2 ^ bits)) * weight + fromBe bytes) %
          (2 ^ bits * weight) := by
        congr 1
        ring
    _ = (byte.toNat * weight + fromBe bytes) % (2 ^ bits * weight) := by rw [hquotient]

/-- The power of two is above the modulus, and at most twice the modulus. -/
theorem modulus_bounds (hfirst : first ≠ 0) (rest : List UInt8) :
    fromBe (first :: rest) ≤ 2 ^ first.toNat.size * 256 ^ rest.length ∧
      2 ^ first.toNat.size * 256 ^ rest.length ≤ 2 * fromBe (first :: rest) := by
  have hlt := fromBe_lt rest
  rw [fromBe_cons]
  constructor
  · have hfirst := Nat.mul_le_mul_right (256 ^ rest.length)
      (Nat.succ_le_of_lt (Nat.lt_size_self first.toNat))
    rw [Nat.succ_mul] at hfirst
    omega
  · obtain ⟨bits, hbits⟩ := Nat.exists_eq_add_one_of_ne_zero (size_pos_of_ne_zero hfirst).ne'
    have hle : 2 ^ bits ≤ first.toNat := Nat.lt_size.mp (hbits ▸ Nat.lt_succ_self bits)
    have htwice := Nat.mul_le_mul_right (256 ^ rest.length) (Nat.mul_le_mul_left 2 hle)
    rw [Nat.mul_assoc] at htwice
    rw [hbits, pow_succ, Nat.mul_comm (2 ^ bits) 2]
    rw [Nat.mul_assoc] at htwice ⊢
    omega

end Mask

/-! ## §4 The draws for a modulus -/

namespace RandomAdapter

/-- The number that is drawn from entropy, unless it is rejected. -/
def drawn (c : RandomAdapter) (modulus : c.Bignum) (topMask : UInt8) (entropy : List UInt8) :
    Option ℕ := (c.draw modulus topMask entropy).toOption.map c.toNat

/-- At least half of the strings are accepted, and each number below the modulus is drawn from as
many of them as any other. -/
structure FairDraws (c : RandomAdapter) (modulus : c.Bignum) (width : ℕ) (topMask : UInt8) :
    Prop where
  half : Nat.card (Vector UInt8 width) ≤
    2 * Nat.card {bytes : Vector UInt8 width // (c.drawn modulus topMask bytes.toList).isSome = true}
  uniform : ∃ n, 0 < n ∧
    UniformBelow (fun bytes : Vector UInt8 width => c.drawn modulus topMask bytes.toList)
      (c.toNat modulus) n

variable {c : RandomAdapter} {modulus : c.Bignum}

theorem request_eq (hc : c.Correct) (hpos : 0 < c.toNat modulus)
    (hfit : c.toNat modulus < 256 ^ c.bignumBytes) :
    ∃ first rest topMask, first ≠ 0 ∧ fromBe (first :: rest) = c.toNat modulus ∧
      topMask.toNat = 2 ^ first.toNat.size - 1 ∧
      c.request modulus = some (rest.length + 1, topMask) := by
  obtain ⟨written, hwritten⟩ := Option.isSome_iff_exists.mp (hc.writeMinimal modulus hfit)
  have hnumber := hc.writeMinimal_eq modulus written hwritten
  cases written with
  | nil => exact absurd hnumber hpos.ne
  | cons first rest =>
    have hfirst : first ≠ 0 := by
      rintro rfl
      exact hpos.ne' (hc.minimal modulus _ hwritten rfl)
    obtain ⟨topMask, htopMask, hmask⟩ := entropyTopMask_eq hfirst
    refine ⟨first, rest, topMask, hfirst, hnumber, hmask, ?_⟩
    simp [request, hwritten, htopMask]

theorem drawn_eq (hc : c.Correct) {topMask : UInt8} {bits : ℕ} (hmask : topMask.toNat = 2 ^ bits - 1)
    {length : ℕ} (bytes : Vector UInt8 (length + 1)) :
    c.drawn modulus topMask bytes.toList =
      (some (fromBe bytes.toList % (2 ^ bits * 256 ^ length))).filter (· < c.toNat modulus) := by
  have hlength := bytes.length_toList
  obtain ⟨byte, rest, hbytes⟩ := List.exists_cons_of_length_eq_add_one hlength
  rw [hbytes, List.length_cons, Nat.add_right_cancel_iff] at hlength
  have hvalue := fromBe_mask hmask byte rest
  rw [hlength] at hvalue
  rw [hbytes, drawn, draw, ← hvalue, Option.filter_some]
  split
  · rename_i hlt
    obtain ⟨v, hv, hnumber⟩ := hc.randomBelow _ _ (of_decide_eq_true hlt)
    rw [hv, ← hnumber]
    rfl
  · rename_i hge
    rw [hc.rejected _ _ (Nat.le_of_not_lt fun hlt => hge (decide_eq_true hlt))]
    rfl

theorem fairDraws (hc : c.Correct) (hpos : 0 < c.toNat modulus)
    (hfit : c.toNat modulus < 256 ^ c.bignumBytes) :
    ∃ width topMask, c.request modulus = some (width, topMask) ∧ c.FairDraws modulus width topMask := by
  obtain ⟨first, rest, topMask, hfirst, hnumber, hmask, hrequest⟩ := request_eq hc hpos hfit
  refine ⟨_, topMask, hrequest, ?_⟩
  obtain ⟨hle, htwice⟩ := modulus_bounds hfirst rest
  rw [hnumber] at hle htwice
  have hbits : first.toNat.size ≤ 8 := Nat.size_le.mpr first.toNat_lt
  have htotal : 256 ^ (rest.length + 1) =
      2 ^ first.toNat.size * 256 ^ rest.length * 2 ^ (8 - first.toNat.size) := by
    rw [Nat.mul_right_comm, ← pow_add, Nat.add_sub_cancel' hbits, pow_succ, Nat.mul_comm]
    rfl
  have hremainder := (uniformBelow_mod (2 ^ first.toNat.size * 256 ^ rest.length)
    (2 ^ (8 - first.toNat.size))).comp_equiv ((beEquiv (rest.length + 1)).trans (finCongr htotal))
  have huniform : UniformBelow (fun bytes : Vector UInt8 (rest.length + 1) =>
      c.drawn modulus topMask bytes.toList) (c.toNat modulus) (2 ^ (8 - first.toNat.size)) := by
    rw [funext fun bytes : Vector UInt8 (rest.length + 1) => drawn_eq hc hmask bytes]
    exact hremainder.reject hle
  have hfinite : Finite (Vector UInt8 (rest.length + 1)) := Finite.of_equiv _ (beEquiv _).symm
  have hcard := (Nat.card_congr (beEquiv (rest.length + 1))).trans (Nat.card_fin _)
  exact ⟨huniform.half_accepted (hcard.trans htotal) htwice, _, Nat.two_pow_pos _, huniform⟩

theorem lt_of_draw (hc : c.Correct) {topMask : UInt8} {entropy : List UInt8} {value : c.Bignum}
    (h : c.draw modulus topMask entropy = .ok value) : c.toNat value < c.toNat modulus := by
  rcases Nat.lt_or_ge (fromBe (entropy.modifyHead (· &&& topMask))) (c.toNat modulus) with hlt | hge
  · obtain ⟨v, hv, hnumber⟩ := hc.randomBelow _ _ hlt
    obtain rfl := Except.ok.inj (hv.symm.trans h)
    rwa [hnumber]
  · rw [draw, hc.rejected _ _ hge] at h
    exact absurd h (by simp)

/-! ## §5 The calls -/

section Calls

variable {width : ℕ} {topMask : UInt8} {entropy : Entropy} {value : c.Bignum}

/-- A request is answered, and its number is rejected. -/
def Rejected (c : RandomAdapter) (modulus : c.Bignum) (width : ℕ) (topMask : UInt8)
    (entropy : Entropy) (call : ℕ) : Prop :=
  ∃ bytes, entropy call width = some bytes ∧
    c.draw modulus topMask bytes.toList = .error .entropyRejected

def Accepted (c : RandomAdapter) (modulus : c.Bignum) (width : ℕ) (topMask : UInt8)
    (entropy : Entropy) (call : ℕ) (value : c.Bignum) : Prop :=
  ∃ bytes, entropy call width = some bytes ∧ c.draw modulus topMask bytes.toList = .ok value

/-- The number of the first request whose number is not rejected; there are 128 at most. -/
structure FirstAccepted (c : RandomAdapter) (modulus : c.Bignum) (entropy : Entropy)
    (value : c.Bignum) (width : ℕ) (topMask : UInt8) (call : ℕ) : Prop where
  requested : c.request modulus = some (width, topMask)
  limit : call < 128
  rejected : ∀ earlier < call, c.Rejected modulus width topMask entropy earlier
  accepted : c.Accepted modulus width topMask entropy call value

/-- One round. -/
theorem randLoop_succ_eq_some {rounds call : ℕ} :
    c.randLoop modulus width topMask entropy (rounds + 1) call = some value ↔
      c.Accepted modulus width topMask entropy call value ∨
        c.Rejected modulus width topMask entropy call ∧
          c.randLoop modulus width topMask entropy rounds (call + 1) = some value := by
  rw [randLoop]
  cases hentropy : entropy call width with
  | none => simp [Accepted, Rejected, hentropy]
  | some bytes =>
    cases hdraw : c.draw modulus topMask bytes.toList with
    | ok v => simp [Accepted, Rejected, hentropy, hdraw]
    | error error => cases error <;> simp [Accepted, Rejected, hentropy, hdraw]

theorem randLoop_eq_some {rounds call : ℕ} :
    c.randLoop modulus width topMask entropy rounds call = some value ↔
      ∃ later, call ≤ later ∧ later < call + rounds ∧
        (∀ earlier, call ≤ earlier → earlier < later → c.Rejected modulus width topMask entropy earlier) ∧
        c.Accepted modulus width topMask entropy later value := by
  induction rounds generalizing call with
  | zero =>
    refine iff_of_false (Option.some_ne_none _).symm ?_
    rintro ⟨later, hle, hlt, -, -⟩
    omega
  | succ rounds ih =>
    rw [randLoop_succ_eq_some, ih]
    constructor
    · rintro (haccepted | ⟨hnow, later, hle, hlt, hrejected, haccepted⟩)
      · exact ⟨call, le_rfl, by omega, fun _ hge hlt => absurd hlt (by omega), haccepted⟩
      · refine ⟨later, by omega, by omega, fun earlier hge hbefore => ?_, haccepted⟩
        rcases Nat.eq_or_lt_of_le hge with rfl | hgt
        · exact hnow
        · exact hrejected earlier hgt hbefore
    · rintro ⟨later, hle, hlt, hrejected, haccepted⟩
      rcases Nat.eq_or_lt_of_le hle with rfl | hgt
      · exact Or.inl haccepted
      · exact Or.inr ⟨hrejected call le_rfl hgt, later, hgt, by omega,
          fun earlier hge => hrejected earlier (by omega), haccepted⟩

/-- The number that a call stores. -/
def number (c : RandomAdapter) (modulus : c.Bignum) (entropy : Entropy) : Option c.Bignum :=
  match c.request modulus with
  | none => none
  | some (width, topMask) => c.randLoop modulus width topMask entropy maxRandomRejections 0

theorem number_eq_some : c.number modulus entropy = some value ↔
    ∃ width topMask call, c.FirstAccepted modulus entropy value width topMask call := by
  rw [number]
  split
  next hrequest =>
    refine iff_of_false (Option.some_ne_none _).symm ?_
    rintro ⟨width, topMask, call, hfirst⟩
    exact absurd (hrequest.symm.trans hfirst.requested) (by simp)
  next width topMask hrequest =>
    rw [randLoop_eq_some]
    constructor
    · rintro ⟨call, -, hlt, hrejected, haccepted⟩
      exact ⟨width, topMask, call, hrequest, by simpa [maxRandomRejections] using hlt,
        fun earlier => hrejected earlier (Nat.zero_le _), haccepted⟩
    · rintro ⟨width', topMask', call, hfirst⟩
      obtain ⟨rfl, rfl⟩ := Prod.mk.inj (Option.some.inj (hrequest.symm.trans hfirst.requested))
      exact ⟨call, Nat.zero_le _, by simpa [maxRandomRejections] using hfirst.limit,
        fun earlier _ => hfirst.rejected earlier, hfirst.accepted⟩

end Calls

section Objects

variable {m : Memory} {result modulus : ℕ} {entropy : Entropy}

/-- The objects are what they have to be: none is null, and they are identical or apart. -/
structure RandReady (c : RandomAdapter) (m : Memory) (result modulus : ℕ) : Prop where
  aliases : bignumAliases (bignumLayout c.toAdapter) result [modulus] = true
  validModulus : Object.Valid c.toAdapter m ⟨.bignum, modulus⟩
  validResult : Object.Valid c.toAdapter m ⟨.bignum, result⟩
  owned : word m (result + 4) = owned

/-- What a call does. -/
structure RandLaw (c : RandomAdapter) (entropy : Entropy) (m : Memory) (result modulus : ℕ)
    (outcome : Outcome) : Prop where
  status : outcome.1 = 0 ∨ outcome.1 = -1
  failed : outcome.1 = -1 → outcome.2 = m
  returns : outcome.1 = 0 ↔ RandReady c m result modulus ∧ ∃ value width topMask call,
    c.FirstAccepted (bignumValue c.toAdapter m modulus) entropy value width topMask call
  stored : outcome.1 = 0 → ∃ width topMask call,
    c.FirstAccepted (bignumValue c.toAdapter m modulus) entropy
      (bignumValue c.toAdapter outcome.2 result) width topMask call
  below : outcome.1 = 0 → c.toNat (bignumValue c.toAdapter outcome.2 result) <
    c.toNat (bignumValue c.toAdapter m modulus)
  frame : outcome.1 = 0 → ∀ address, address < Object.valueStart c.toAdapter ⟨.bignum, result⟩ ∨
    Object.valueStop c.toAdapter ⟨.bignum, result⟩ ≤ address → outcome.2 address = m address
  zero : c.toNat (bignumValue c.toAdapter m modulus) = 0 → outcome.1 = -1
  overlapping : Object.Overlaps c.toAdapter ⟨.bignum, result⟩ ⟨.bignum, modulus⟩ → outcome.1 = -1

theorem cryptoBignumRand_cases :
    ¬ RandReady c m result modulus ∧ c.cryptoBignumRand entropy m result modulus = (-1, m) ∨
      bignumAliases (bignumLayout c.toAdapter) result [modulus] = true ∧
        Object.Valid c.toAdapter m ⟨.bignum, modulus⟩ ∧
        c.cryptoBignumRand entropy m result modulus =
          finishBignum c.toAdapter m result (c.number (bignumValue c.toAdapter m modulus) entropy) := by
  rw [cryptoBignumRand]
  split
  next halias =>
    rw [Bool.not_eq_true'] at halias
    exact Or.inl ⟨fun h => absurd (halias.symm.trans h.aliases) (by decide), rfl⟩
  next halias =>
    rw [Bool.not_eq_true, Bool.not_eq_false'] at halias
    split
    next hclone =>
      exact Or.inl ⟨fun h => absurd (hclone.symm.trans (bignumClone_of_valid h.validModulus)) (by simp), rfl⟩
    next value hclone =>
      obtain ⟨hvalid, rfl⟩ := valid_of_bignumClone hclone
      refine Or.inr ⟨halias, hvalid, ?_⟩
      rw [number]
      split
      · rfl
      · rfl

theorem randLaw (hc : c.Correct) (entropy : Entropy) (m : Memory) (result modulus : ℕ) :
    c.RandLaw entropy m result modulus (c.cryptoBignumRand entropy m result modulus) := by
  have hne : ¬ (0 : Int32) = -1 := by decide
  have hne' : ¬ (-1 : Int32) = 0 := by decide
  have hrefused (hnot : ¬ (RandReady c m result modulus ∧ ∃ value width topMask call,
      c.FirstAccepted (bignumValue c.toAdapter m modulus) entropy value width topMask call)) :
      c.RandLaw entropy m result modulus (-1, m) := by
    exact ⟨Or.inr rfl, fun _ => rfl, iff_of_false hne' hnot, fun h => absurd h hne',
      fun h => absurd h hne', fun h => absurd h hne', fun _ => rfl, fun _ => rfl⟩
  obtain ⟨hunready, hout⟩ | ⟨halias, hmodulus, hout⟩ := cryptoBignumRand_cases
  · rw [hout]
    exact hrefused fun h => hunready h.1
  obtain hfailed | ⟨m', hdone, hvalue, hstored⟩ :=
    finishBignum_cases (c.number (bignumValue c.toAdapter m modulus) entropy)
  · rw [hout, hfailed]
    refine hrefused fun ⟨hready, hfirst⟩ => ?_
    obtain ⟨value, hfirst⟩ := hfirst
    rw [number_eq_some.mpr hfirst] at hfailed
    have hzero := finishBignum_status_zero value hready.validResult hready.owned
    rw [hfailed] at hzero
    exact hne' hzero
  · obtain ⟨width, topMask, call, hfirst⟩ := number_eq_some.mp hvalue
    obtain ⟨bytes, -, hdraw⟩ := hfirst.accepted
    have hbelow := lt_of_draw hc hdraw
    rw [hout, hdone]
    refine ⟨Or.inl rfl, fun h => absurd h hne, iff_of_true rfl ⟨?_, _, _, _, _, hfirst⟩,
      fun _ => ⟨_, _, _, hfirst⟩, fun _ => hbelow, fun _ => hstored.frame, ?_, ?_⟩
    · exact ⟨halias, hmodulus, hstored.valid, hstored.owned rfl⟩
    · rintro hzero
      exact absurd (hzero ▸ hbelow) (Nat.not_lt_zero _)
    · rintro hoverlap
      have hapart : inputsApart (Object.layout c.toAdapter ⟨.bignum, result⟩).size result [modulus] = true :=
        inputsApart_of_bignumAliases halias
      exact absurd hoverlap (not_overlaps_of_inputsApart hapart (by simp) (by simp))

end Objects

/-! ## §6 Main result -/

/-- Every number below the modulus is as likely as any other, and what a call stores is the first
number that is accepted. -/
theorem bignum_rand_uniform (c : RandomAdapter) (hc : c.Correct) :
    (∀ modulus, 0 < c.toNat modulus → c.toNat modulus < 256 ^ c.bignumBytes →
      ∃ width topMask, c.request modulus = some (width, topMask) ∧ c.FairDraws modulus width topMask) ∧
    ∀ entropy m result modulus,
      c.RandLaw entropy m result modulus (c.cryptoBignumRand entropy m result modulus) :=
  ⟨fun _ => fairDraws hc, randLaw hc⟩

/-- `random_below` on numbers of `n` bytes. -/
def bytesBelow {n : ℕ} (bytes : List UInt8) (modulus : Vector UInt8 n) :
    Except CryptoError (Vector UInt8 n) :=
  if h : fromBe bytes < beEquiv n modulus then .ok ((beEquiv n).symm ⟨_, h.trans (Fin.isLt _)⟩)
  else .error .entropyRejected

theorem bytesBelow_ok {n : ℕ} {bytes : List UInt8} {modulus : Vector UInt8 n}
    (h : fromBe bytes < fromBe modulus.toList) :
    ∃ v, bytesBelow bytes modulus = .ok v ∧ fromBe v.toList = fromBe bytes :=
  ⟨_, dif_pos h, fromBe_beEquiv_symm _⟩

theorem bytesBelow_error {n : ℕ} {bytes : List UInt8} {modulus : Vector UInt8 n}
    (h : fromBe modulus.toList ≤ fromBe bytes) : bytesBelow bytes modulus = .error .entropyRejected :=
  dif_neg (Nat.not_lt.mpr h)

/-- Numbers of 64 bytes. -/
def plainAdapter : RandomAdapter where
  toAdapter := identityAdapter
  bignumBytes := 64
  writeMinimal := fun v => some (v.toList.dropWhile (· == 0))
  randomBelow := bytesBelow

theorem plainAdapter_correct : plainAdapter.Correct where
  writeMinimal := fun _ _ => rfl
  writeMinimal_eq := by
    intro v bytes hwritten
    rw [← Option.some.inj hwritten]
    exact fromBe_dropWhile_zero _
  minimal := by
    intro v bytes hwritten hzero
    have hhead := List.head?_dropWhile_not (· == 0) v.toList
    rw [Option.some.inj hwritten, hzero] at hhead
    exact absurd hhead (by decide)
  randomBelow := fun _ _ => bytesBelow_ok
  rejected := fun _ _ => bytesBelow_error

/-- Of the numbers below 5. -/
theorem bignum_rand_five :
    plainAdapter.request ((beEquiv 64).symm 5) = some (1, 7) ∧
      plainAdapter.FairDraws ((beEquiv 64).symm 5) 1 7 := by
  have hrequest : plainAdapter.request ((beEquiv 64).symm 5) = some (1, 7) := by decide +kernel
  obtain ⟨width, topMask, hsome, hfair⟩ := (bignum_rand_uniform plainAdapter plainAdapter_correct).1
    ((beEquiv 64).symm 5) (by decide +kernel) (by decide +kernel)
  obtain ⟨rfl, rfl⟩ := Prod.mk.inj (Option.some.inj (hrequest.symm.trans hsome))
  exact ⟨hrequest, hfair⟩

end RandomAdapter

end HisiRiscv.Crypto.Bytes
