/-
HisiRiscv.Flashboot.BootTheorems — what is verified before the jump.

The three loops of `sfc_read_data`, `read_bytes` and
`verify_image_integrity` read the flash byte by byte (`bytes`). What they
read is the range behind a header of the length of `ImageHeader`, which is
where `try_boot` jumps. The header may say otherwise: a code info of 0x400
bytes, or a code area address, puts the code area elsewhere; and its
length may take the range out of the window that is mapped for execution.
The property is stated for the SHA-256 computation over either table, the
standard's and the firmware's.

  §1 Chunked reads.
  §2 The digest of the range.
  §3 Where the code area is.
  §4 Main results.
-/
import HisiRiscv.Flashboot.Boot
import HisiRiscv.Flashboot.Sha256Theorems

namespace HisiRiscv.Flashboot

open HisiRiscv.BitString

/-! ## §1 Chunked reads -/

/-- The contents of a range. -/
def bytes (flash : Flash) (start : UInt32) (len : Nat) : List UInt8 :=
  (List.range len).map fun i => flash (start + UInt32.ofNat i)

/-- A loop over a range in chunks covers the range. -/
theorem map_chunk {α : Type} (f : Nat → α) {offset len chunk : Nat} (h : offset + chunk ≤ len) :
    (List.range chunk).map (fun i => f (offset + i)) ++
        (List.range' (offset + chunk) (len - (offset + chunk))).map f =
      (List.range' offset (len - offset)).map f := by
  have hsplit : len - offset = chunk + (len - (offset + chunk)) := by omega
  have hhead : (List.range' offset chunk).map f = (List.range chunk).map fun i => f (offset + i) := by
    rw [List.range'_eq_map_range, List.map_map]
    rfl
  rw [hsplit, ← List.range'_append_1, List.map_append, hhead]

theorem add_ofNat (a : UInt32) (i j : Nat) :
    a + UInt32.ofNat i + UInt32.ofNat j = a + UInt32.ofNat (i + j) := by
  rw [UInt32.ofNat_add, UInt32.add_assoc]

theorem sfcReadLoop_eq (flash : Flash) (addr : UInt32) (words offset : Nat) :
    sfcReadLoop flash addr words offset = (List.range' offset (words - offset)).map fun i =>
      readWord flash (addr + UInt32.ofNat (4 * i)) := by
  fun_induction sfcReadLoop flash addr words offset with
  | case1 offset h chunk ih =>
    rw [ih, ← map_chunk _ (by omega : offset + chunk ≤ words), sfcCommand]
    refine congrArg (· ++ _) (List.map_congr_left fun i _ => ?_)
    rw [add_ofNat, Nat.mul_add]
  | case2 offset h =>
    rw [Nat.sub_eq_zero_of_le (by omega)]
    rfl

theorem sfcReadData_getD (flash : Flash) (addr : UInt32) {words i : Nat} (h : i < words) :
    (sfcReadData flash addr words).getD i 0 = readWord flash (addr + UInt32.ofNat (4 * i)) := by
  rw [sfcReadData, sfcReadLoop_eq, Nat.sub_zero, ← List.range_eq_range',
    List.getD_eq_getElem?_getD, List.getElem?_map, List.getElem?_range h]
  rfl

/-- The bytes of a word are those at its address. -/
theorem byteOf_readWord (flash : Flash) (addr : UInt32) {i : Nat} (h : i < 4) :
    byteOf (readWord flash addr) i = flash (addr + UInt32.ofNat i) := by
  have h0 := (flash addr).toNat_lt
  have h1 := (flash (addr + 1)).toNat_lt
  have h2 := (flash (addr + 2)).toNat_lt
  have h3 := (flash (addr + 3)).toNat_lt
  have hword : (byteOf (readWord flash addr) i).toNat =
      ((flash addr).toNat + 2 ^ 8 * (flash (addr + 1)).toNat +
        2 ^ 16 * (flash (addr + 2)).toNat + 2 ^ 24 * (flash (addr + 3)).toNat) / 2 ^ (8 * i) %
          2 ^ 8 := by
    have hlt : (flash addr).toNat + 2 ^ 8 * (flash (addr + 1)).toNat +
        2 ^ 16 * (flash (addr + 2)).toNat + 2 ^ 24 * (flash (addr + 3)).toNat < 2 ^ 32 := by omega
    unfold byteOf readWord
    rw [UInt32.toNat_toUInt8, UInt32.toNat_shiftRight, UInt32.toNat_ofNat', UInt32.toNat_ofNat',
      Nat.shiftRight_eq_div_pow, Nat.mod_eq_of_lt (by omega : 8 * i < 2 ^ 32),
      Nat.mod_eq_of_lt (by omega : 8 * i < 32), Nat.mod_eq_of_lt hlt]
  apply UInt8.toNat_inj.mp
  rw [hword]
  match i, h with
  | 0, _ =>
    change _ = (flash (addr + 0)).toNat
    rw [UInt32.add_zero]
    omega
  | 1, _ =>
    change _ = (flash (addr + 1)).toNat
    omega
  | 2, _ =>
    change _ = (flash (addr + 2)).toNat
    omega
  | 3, _ =>
    change _ = (flash (addr + 3)).toNat
    omega

theorem readChunk_eq (flash : Flash) (addr : UInt32) (chunk : Nat) :
    readChunk flash addr chunk = bytes flash addr chunk := by
  unfold readChunk bytes
  refine List.map_congr_left fun i hi => ?_
  have hlt := List.mem_range.mp hi
  rw [sfcReadData_getD _ _ (by omega), byteOf_readWord _ _ (Nat.mod_lt _ (by decide)), add_ofNat,
    Nat.div_add_mod]

theorem readBytesLoop_eq (flash : Flash) (addr : UInt32) (len offset : Nat) :
    readBytesLoop flash addr len offset = (List.range' offset (len - offset)).map fun i =>
      flash (addr + UInt32.ofNat i) := by
  fun_induction readBytesLoop flash addr len offset with
  | case1 offset h chunk ih =>
    rw [ih, ← map_chunk _ (by omega : offset + chunk ≤ len), readChunk_eq, bytes]
    refine congrArg (· ++ _) (List.map_congr_left fun i _ => ?_)
    rw [add_ofNat]
  | case2 offset h =>
    rw [Nat.sub_eq_zero_of_le (by omega)]
    rfl

/-- `read_bytes` reads the flash. -/
theorem readBytes_eq (flash : Flash) (addr : UInt32) (len : Nat) :
    readBytes flash addr len = bytes flash addr len := by
  rw [readBytes, readBytesLoop_eq, Nat.sub_zero, ← List.range_eq_range', bytes]

/-! ## §2 The digest of the range -/

@[simp] theorem length_bytes (flash : Flash) (start : UInt32) (len : Nat) :
    (bytes flash start len).length = len := by
  rw [bytes, List.length_map, List.length_range]

/-- The loop hashes the range in some cut. -/
theorem integrityLoop_eq (flash : Flash) (body : UInt32) (len offset : Nat) (sha : Sha256) :
    ∃ chunks : List (List UInt8), integrityLoop flash body len offset sha = chunks.foldl Sha256.update sha ∧
      chunks.flatten = (List.range' offset (len - offset)).map fun i =>
        flash (body + UInt32.ofNat i) := by
  fun_induction integrityLoop flash body len offset sha with
  | case1 offset sha h chunk ih =>
    obtain ⟨chunks, hloop, hflatten⟩ := ih
    refine ⟨readBytes flash (body + UInt32.ofNat offset) chunk :: chunks, hloop, ?_⟩
    rw [List.flatten_cons, hflatten, ← map_chunk _ (by omega : offset + chunk ≤ len), readBytes_eq,
      bytes]
    refine congrArg (· ++ _) (List.map_congr_left fun i _ => ?_)
    rw [add_ofNat]
  | case2 offset sha h =>
    refine ⟨[], rfl, ?_⟩
    rw [Nat.sub_eq_zero_of_le (by omega)]
    rfl

theorem finish_integrityLoop (flash : Flash) (body : UInt32) {len : Nat} (h : len < 2 ^ 61) :
    (integrityLoop flash body len 0 .new).finish = (Sha256.new.update (bytes flash body len)).finish := by
  obtain ⟨chunks, hloop, hflatten⟩ := integrityLoop_eq flash body len 0 .new
  rw [Nat.sub_zero, ← List.range_eq_range'] at hflatten
  have hbytes : chunks.flatten = bytes flash body len := hflatten
  rw [hloop, Sha256.finish_foldl_update chunks (by rw [hbytes, length_bytes]; exact h), hbytes]

theorem verifyImageIntegrity_iff (flash : Flash) (imgBody imgLen : UInt32)
    (expected : Vector UInt8 32) (hpos : 0 < imgLen) (hlen : imgLen < 8 * 1024 * 1024) :
    verifyImageIntegrity flash imgBody imgLen expected = true ↔
      (Sha256.new.update (bytes flash imgBody imgLen.toNat)).finish = expected := by
  have hlt := imgLen.toNat_lt
  have hcond : ¬(imgLen = 0 ∨ 8 * 1024 * 1024 < imgLen) := by
    rintro (rfl | hlong)
    · exact absurd hpos (by decide)
    · exact UInt32.lt_irrefl _ (UInt32.lt_trans hlong hlen)
  rw [verifyImageIntegrity, if_neg hcond, finish_integrityLoop _ _ (by omega), beq_iff_eq]

/-! ## §3 Where the code area is -/

/-- Where the header places the code area: at its address, or behind the code info. -/
def CodeInfo.codeArea (ci : CodeInfo) (addr : UInt32) : UInt32 :=
  if ci.codeAreaAddr = 0 then addr + 0x100 + ci.structureLength else ci.codeAreaAddr

/-- `try_boot` jumps to the range it has hashed. -/
theorem tryBoot_eq_some_iff {flash : Flash} {addr entry : UInt32} :
    tryBoot flash addr = some entry ↔
      validate (readImageHeader flash addr) = true ∧ entry = addr + imageHeaderLen ∧
        (Sha256.new.update (bytes flash (addr + imageHeaderLen)
          (readImageHeader flash addr).codeAreaLen.toNat)).finish =
            (readImageHeader flash addr).codeAreaHash := by
  unfold tryBoot
  dsimp only
  by_cases hvalid : validate (readImageHeader flash addr) = true
  · have hlen : 0 < (readImageHeader flash addr).codeAreaLen ∧
        (readImageHeader flash addr).codeAreaLen < 8 * 1024 * 1024 := by
      unfold validate at hvalid
      simp only [Bool.and_eq_true, decide_eq_true_eq] at hvalid
      exact ⟨hvalid.1.2, hvalid.2⟩
    have hverify := verifyImageIntegrity_iff flash (addr + imageHeaderLen) _
      (readImageHeader flash addr).codeAreaHash hlen.1 hlen.2
    rw [hvalid, Bool.not_true, if_neg Bool.false_ne_true]
    by_cases hok : verifyImageIntegrity flash (addr + imageHeaderLen)
        (readImageHeader flash addr).codeAreaLen (readImageHeader flash addr).codeAreaHash = true
    · rw [hok, Bool.not_true, if_neg Bool.false_ne_true]
      constructor
      · intro heq
        exact ⟨rfl, (Option.some.inj heq).symm, hverify.mp hok⟩
      · rintro ⟨-, rfl, -⟩
        rfl
    · rw [Bool.not_eq_true _ |>.mp hok, Bool.not_false, if_pos rfl]
      constructor
      · nofun
      · rintro ⟨-, -, hdigest⟩
        exact absurd (hverify.mpr hdigest) hok
  · rw [Bool.not_eq_true _ |>.mp hvalid, Bool.not_false, if_pos rfl]
    constructor
    · nofun
    · rintro ⟨hfalse, -⟩
      cases hfalse

/-- A field of the header is the word at its offset. -/
theorem readImageHeader_field (flash : Flash) (addr : UInt32) {offset : Nat} (h : offset < 0x200) :
    (sfcReadData flash addr (imageHeaderSize / 4)).getD ((keyAreaSize + offset) / 4) 0 =
      readWord flash (addr + UInt32.ofNat (4 * ((keyAreaSize + offset) / 4))) := by
  refine sfcReadData_getD _ _ ?_
  unfold keyAreaSize imageHeaderSize
  omega

theorem codeAreaHash_getElem (flash : Flash) (addr : UInt32) {i : Nat} (h : i < 32) :
    (readImageHeader flash addr).codeAreaHash[i] = flash (addr + UInt32.ofNat (0x128 + i)) := by
  unfold readImageHeader
  dsimp only
  rw [Vector.getElem_ofFn, readImageHeader_field _ _ (by omega),
    byteOf_readWord _ _ (Nat.mod_lt _ (by decide)), add_ofNat]
  unfold keyAreaSize
  dsimp only
  congr 3
  omega

/-! ## §4 Main results -/

/-- What the jump to `entry` relies on, with the SHA-256 computation over the table `K`. -/
structure VerifiedWith (K : Nat → UInt32) (flash : Flash) (addr entry : UInt32) : Prop where
  header : validate (readImageHeader flash addr) = true
  hash : Fips180.sha256With K (ofBytes (bytes flash ((readImageHeader flash addr).codeArea addr)
      (readImageHeader flash addr).codeAreaLen.toNat)) =
    ofBytes (readImageHeader flash addr).codeAreaHash.toList
  entry : entry = (readImageHeader flash addr).codeArea addr
  window : flashStart ≤ (readImageHeader flash addr).codeArea addr ∧
    ((readImageHeader flash addr).codeArea addr).toNat +
      (readImageHeader flash addr).codeAreaLen.toNat ≤ flashStart.toNat + appMaxSize.toNat

/-- With the table of the standard. -/
def Verified : Flash → UInt32 → UInt32 → Prop := VerifiedWith Fips180.K

/-- The header places the code area behind an `ImageHeader`, and it ends in the
window that is mapped. -/
structure Conforms (flash : Flash) (addr : UInt32) : Prop where
  place : (readImageHeader flash addr).codeAreaAddr = 0 ∧
      (readImageHeader flash addr).structureLength = 0x200 ∨
    (readImageHeader flash addr).codeAreaAddr ≠ 0 ∧
      (readImageHeader flash addr).codeAreaAddr = addr + imageHeaderLen
  window : flashStart ≤ addr + imageHeaderLen ∧
    (addr + imageHeaderLen).toNat + (readImageHeader flash addr).codeAreaLen.toNat ≤
      flashStart.toNat + appMaxSize.toNat

theorem codeArea_eq_iff (ci : CodeInfo) (addr : UInt32) :
    addr + imageHeaderLen = ci.codeArea addr ↔
      ci.codeAreaAddr = 0 ∧ ci.structureLength = 0x200 ∨
        ci.codeAreaAddr ≠ 0 ∧ ci.codeAreaAddr = addr + imageHeaderLen := by
  unfold CodeInfo.codeArea
  by_cases hzero : ci.codeAreaAddr = 0
  · rw [if_pos hzero, UInt32.add_assoc, UInt32.add_right_inj]
    constructor
    · intro heq
      refine .inl ⟨hzero, ?_⟩
      have hsum : (0x100 : UInt32) + 0x200 = 0x100 + ci.structureLength := heq
      exact ((UInt32.add_right_inj _).mp hsum).symm
    · rintro (⟨-, hlen⟩ | ⟨hne, -⟩)
      · rw [hlen]
        rfl
      · exact absurd hzero hne
  · rw [if_neg hzero]
    constructor
    · intro heq
      exact .inr ⟨hzero, heq.symm⟩
    · rintro (⟨heq, -⟩ | ⟨-, heq⟩)
      · exact absurd heq hzero
      · exact heq.symm

/-- The digest that is compared is the hash computation over the firmware's table. -/
theorem sha256With_of_finish {body : List UInt8} (h : body.length < 2 ^ 61) {hash : Vector UInt8 32}
    (hhash : (Sha256.new.update body).finish = hash) :
    Fips180.sha256With roundConstant (ofBytes body) = ofBytes hash.toList := by
  have hdigest := Sha256.finish_update [body] (by rw [List.flatten_singleton]; exact h)
  rw [List.flatten_singleton, List.foldl_cons, List.foldl_nil, hhash] at hdigest
  exact hdigest.symm

/-- **What flashboot jumps to is what it has verified**, with the hash as the
firmware computes it, exactly when the header places the code area behind itself
and the code area lies in the window mapped for execution. With the standard's
hash these two conditions are still needed, and a code area of at most 55 bytes
is never verified. -/
theorem boot_verified_law {flash : Flash} {addr entry : UInt32} (h : tryBoot flash addr = some entry) :
    (VerifiedWith roundConstant flash addr entry ↔ Conforms flash addr) ∧
      (Verified flash addr entry →
        Conforms flash addr ∧ 55 < (readImageHeader flash addr).codeAreaLen.toNat) := by
  obtain ⟨hvalid, rfl, hhash⟩ := tryBoot_eq_some_iff.mp h
  have hlt := (readImageHeader flash addr).codeAreaLen.toNat_lt
  have hdigest := sha256With_of_finish (by rw [length_bytes]; omega) hhash
  have hconforms : ∀ K, VerifiedWith K flash addr (addr + imageHeaderLen) → Conforms flash addr := by
    rintro K ⟨-, -, hentry, hwindow⟩
    rw [← hentry] at hwindow
    exact ⟨(codeArea_eq_iff _ _).mp hentry, hwindow⟩
  refine ⟨⟨hconforms _, ?_⟩, fun hverified => ⟨hconforms _ hverified, ?_⟩⟩
  · rintro ⟨hplace, hwindow⟩
    have hentry := (codeArea_eq_iff _ _).mpr hplace
    rw [hentry] at hdigest hwindow
    exact ⟨hvalid, hdigest, hentry, hwindow⟩
  · have hsha := hverified.hash
    rw [← hverified.entry, ← hdigest] at hsha
    refine Nat.lt_of_not_le fun hshort => sha256With_roundConstant_ne ?_ hsha.symm
    rw [length_ofBytes, length_bytes]
    omega

/-- An image of one zero byte behind a header, with the digest that the firmware
computes; `n` is the second byte of the structure length. -/
def sampleImage (n : UInt8) (offset : Nat) : UInt8 :=
  if 0x128 ≤ offset ∧ offset < 0x148 then
    (Sha256.new.update [0]).finish.toList.getD (offset - 0x128) 0
  else if offset = 0x100 ∨ offset = 0x106 ∨ offset = 0x124 then 1
  else if offset = 0x109 then n
  else if offset = 0x10C then 64
  else 0

def sampleFlash (n : UInt8) : Flash := fun addr => sampleImage n (addr - flashStart).toNat

theorem sampleFlash_hash (n : UInt8) :
    (readImageHeader (sampleFlash n) flashStart).codeAreaHash = (Sha256.new.update [0]).finish := by
  refine Vector.ext fun i hi => ?_
  have hoffset : (flashStart + UInt32.ofNat (0x128 + i) - flashStart).toNat = 0x128 + i := by
    rw [UInt32.add_comm, UInt32.add_sub_cancel, UInt32.toNat_ofNat', Nat.mod_eq_of_lt (by omega)]
  have hrange : 0x128 ≤ 0x128 + i ∧ 0x128 + i < 0x148 := by omega
  rw [codeAreaHash_getElem _ _ hi, sampleFlash, hoffset, sampleImage, if_pos hrange,
    Nat.add_sub_cancel_left, List.getD_eq_getElem?_getD,
    List.getElem?_eq_getElem (by rw [Vector.length_toList]; exact hi), Vector.getElem_toList]
  rfl

/-- Both structure lengths are accepted. -/
theorem sampleFlash_boots {n : UInt8} (h : n = 2 ∨ n = 4) :
    (readImageHeader (sampleFlash n) flashStart).structureLength = n.toUInt32 <<< 8 ∧
      (readImageHeader (sampleFlash n) flashStart).codeAreaAddr = 0 ∧
      (readImageHeader (sampleFlash n) flashStart).codeAreaLen = 1 ∧
      tryBoot (sampleFlash n) flashStart = some (flashStart + imageHeaderLen) := by
  have hid : (readImageHeader (sampleFlash n) flashStart).imageId = 1 :=
    (readImageHeader_field _ _ (by decide)).trans (by rcases h with rfl | rfl <;> decide +kernel)
  have hversion : (readImageHeader (sampleFlash n) flashStart).structureVersion = 0x00010000 :=
    (readImageHeader_field _ _ (by decide)).trans (by rcases h with rfl | rfl <;> decide +kernel)
  have hlength : (readImageHeader (sampleFlash n) flashStart).structureLength = n.toUInt32 <<< 8 :=
    (readImageHeader_field _ _ (by decide)).trans (by rcases h with rfl | rfl <;> decide +kernel)
  have hsignature : (readImageHeader (sampleFlash n) flashStart).signatureLength = 64 :=
    (readImageHeader_field _ _ (by decide)).trans (by rcases h with rfl | rfl <;> decide +kernel)
  have haddr : (readImageHeader (sampleFlash n) flashStart).codeAreaAddr = 0 :=
    (readImageHeader_field _ _ (by decide)).trans (by rcases h with rfl | rfl <;> decide +kernel)
  have hlen : (readImageHeader (sampleFlash n) flashStart).codeAreaLen = 1 :=
    (readImageHeader_field _ _ (by decide)).trans (by rcases h with rfl | rfl <;> decide +kernel)
  refine ⟨hlength, haddr, hlen, tryBoot_eq_some_iff.mpr ⟨?_, rfl, ?_⟩⟩
  · unfold validate
    rw [hid, hversion, hlength, hsignature, hlen]
    rcases h with rfl | rfl <;> decide
  · have hbody : bytes (sampleFlash n) (flashStart + imageHeaderLen) 1 = [0] := by
      rcases h with rfl | rfl <;> decide +kernel
    rw [sampleFlash_hash, hlen]
    exact congrArg (fun body => (Sha256.new.update body).finish) hbody

/-- The code info of 0x200 bytes: the range that is hashed is the code area, but
its one byte has not the digest of the standard. -/
theorem boot_verified_law_sample :
    VerifiedWith roundConstant (sampleFlash 2) flashStart (flashStart + imageHeaderLen) ∧
      ¬ Verified (sampleFlash 2) flashStart (flashStart + imageHeaderLen) := by
  obtain ⟨hlength, haddr, hlen, hboots⟩ := sampleFlash_boots (n := 2) (.inl rfl)
  obtain ⟨hcode, hstandard⟩ := boot_verified_law hboots
  refine ⟨hcode.mpr ⟨.inl ⟨haddr, hlength⟩, ?_⟩, fun hverified => ?_⟩
  · rw [hlen]
    decide
  · have hlong := (hstandard hverified).2
    rw [hlen] at hlong
    exact absurd hlong (by decide)

/-- The code info has 0x400 bytes, so that the code area is not where the jump goes. -/
theorem boot_unverified :
    ¬ ∀ (flash : Flash) (addr entry : UInt32), tryBoot flash addr = some entry →
      Verified flash addr entry := by
  intro h
  obtain ⟨hlength, haddr, -, hboots⟩ := sampleFlash_boots (n := 4) (.inr rfl)
  have hentry := (h _ _ _ hboots).entry
  rw [CodeInfo.codeArea, if_pos haddr, hlength] at hentry
  exact absurd hentry (by decide)

end HisiRiscv.Flashboot
