/-
HisiRiscv.Flashboot.Sfc — the flash controller of `sfc.rs`, command by command.

`sfc_read_data` reads a range in commands of up to 16 words, `read_bytes` a byte range in reads
of up to 64 bytes, and `verify_image_integrity` the image in reads of 256. `Boot` has what these
loops deliver; here are the commands they give, the arrays they store into, and the sums
of addresses, and the two agree.

Translation notes. The data buffer of the controller is its 64 bytes. A command of `n` bytes at
an address puts the bytes of the flash from there on into it, and is waited for. A sum of
addresses that leaves 32 bits, an index out of range, and a store outside an array are none.

History variables: `dataLen` is the byte count a command was made for, `commands` lists the
commands given, and `chunks` what was passed to `Sha256::update`.

  §1 Commands.
  §2 `sfc_read_data` and `read_bytes`.
  §3 `verify_image_integrity`.
  §4 What a command delivers.
  §5 The loops.
  §6 Main results.
-/
import HisiRiscv.Flashboot.BootTheorems
import HisiRiscv.Lib.ByteBuffer

namespace HisiRiscv.Flashboot

open HisiRiscv.ByteBuffer

/-! ## §1 Commands -/

/-- The registers of a command. -/
structure Command where
  ins : UInt32
  addr : UInt32
  config : UInt32
  dataLen : ℕ

/-- Bits 9 to 14 of the configuration. -/
def Command.lengthField (c : Command) : UInt32 := (c.config >>> 9) &&& 0x3F

/-- A read of some words, as the code sets it up. -/
def Command.read (addr : UInt32) (chunkWords : ℕ) : Command :=
  let dataLen := UInt32.ofNat (chunkWords * 4)
  let one : UInt32 := 1
  let cmdCfg := (one <<< 0) ||| (one <<< 2) ||| (one <<< 7) ||| (one <<< 8)
  { ins := 0xEB
    addr
    config := cmdCfg ||| (((dataLen - 1) &&& 0x3F) <<< 9)
    dataLen := chunkWords * 4 }

structure Sfc where
  /-- byte `k` of the data buffer -/
  dataBuf : ℕ → UInt8
  commands : List Command

/-- The controller gets a command and carries it out. -/
def Sfc.issue (flash : Flash) (s : Sfc) (c : Command) : Sfc where
  dataBuf := fun k =>
    if k < c.lengthField.toNat + 1 then flash (c.addr + UInt32.ofNat k) else s.dataBuf k
  commands := s.commands ++ [c]

/-- `SFC_CMD_DATABUF.add(i).read_volatile()`. -/
def Sfc.word? (s : Sfc) (i : ℕ) : Option UInt32 :=
  if i < 16 then
    some (UInt32.ofNat ((s.dataBuf (4 * i)).toNat + 2 ^ 8 * (s.dataBuf (4 * i + 1)).toNat +
      2 ^ 16 * (s.dataBuf (4 * i + 2)).toNat + 2 ^ 24 * (s.dataBuf (4 * i + 3)).toNat))
  else none

/-- `addr + n`. -/
def addrAdd? (addr : UInt32) (n : ℕ) : Option UInt32 :=
  if addr.toNat + n < 2 ^ 32 then some (addr + UInt32.ofNat n) else none

/-! ## §2 `sfc_read_data` and `read_bytes` -/

/-- `while offset_words < words`. -/
def sfcReadLoop? (flash : Flash) (addr : UInt32) (words : ℕ) (s : Sfc) (dst : List UInt32)
    (offset : ℕ) : Option (Sfc × List UInt32) :=
  if _h : offset < words then do
    let chunk := min 16 (words - offset)
    let chunkAddr ← addrAdd? addr (offset * 4)
    let s := s.issue flash (.read chunkAddr chunk)
    let dst ← storeLoop? s.word? dst offset chunk
    sfcReadLoop? flash addr words s dst (offset + chunk)
  else some (s, dst)
termination_by words - offset

def sfcReadData? (flash : Flash) (addr : UInt32) (words : ℕ) (s : Sfc) (dst : List UInt32) :
    Option (Sfc × List UInt32) :=
  sfcReadLoop? flash addr words s dst 0

/-- `while offset < buf.len()`. -/
def readBytesLoop? (flash : Flash) (addr : UInt32) (len : ℕ) (s : Sfc) (buf : List UInt8)
    (offset : ℕ) : Option (Sfc × List UInt8) :=
  if _h : offset < len then do
    let chunk := min 64 (len - offset)
    let words := (chunk + 3) / 4
    let chunkAddr ← addrAdd? addr offset
    let (s, tmp) ← sfcReadData? flash chunkAddr words s (List.replicate 16 0)
    let buf ← storeLoop? (fun i => tmp[i / 4]?.map (byteOf · (i % 4))) buf offset chunk
    readBytesLoop? flash addr len s buf (offset + chunk)
  else some (s, buf)
termination_by len - offset

def readBytes? (flash : Flash) (addr : UInt32) (s : Sfc) (buf : List UInt8) :
    Option (Sfc × List UInt8) :=
  readBytesLoop? flash addr buf.length s buf 0

/-! ## §3 `verify_image_integrity` -/

/-- What the loop over the image leaves. -/
structure Hashing where
  sfc : Sfc
  buf : List UInt8
  sha : Sha256
  chunks : List (List UInt8)

/-- `&mut buf[..chunk]`. -/
def sliceTo? (buf : List UInt8) (chunk : ℕ) : Option (List UInt8) :=
  if chunk ≤ buf.length then some (buf.take chunk) else none

/-- `while offset < img_len`. -/
def integrityLoop? (flash : Flash) (body : UInt32) (len : ℕ) (h : Hashing) (offset : ℕ) :
    Option Hashing :=
  if _h : offset < len then do
    let chunk := min 256 (len - offset)
    let addr ← addrAdd? body offset
    let slice ← sliceTo? h.buf chunk
    let (sfc, slice) ← readBytes? flash addr h.sfc slice
    integrityLoop? flash body len
      { sfc
        buf := slice ++ h.buf.drop chunk
        sha := h.sha.update slice
        chunks := h.chunks ++ [slice] } (offset + chunk)
  else some h
termination_by len - offset

/-- The result, and what the loop leaves. -/
def verifyImageIntegrity? (flash : Flash) (s : Sfc) (imgBody imgLen : UInt32)
    (expected : Vector UInt8 32) : Option (Bool × Hashing) :=
  let start : Hashing := ⟨s, List.replicate 256 0, .new, []⟩
  if imgLen = 0 ∨ 8 * 1024 * 1024 < imgLen then some (false, start)
  else (integrityLoop? flash imgBody imgLen.toNat start 0).map fun h => (h.sha.finish == expected, h)

/-! ## §4 What a command delivers -/

/-- A command of 4 to 64 bytes whose length field is the count less 1. -/
structure Command.Valid (c : Command) : Prop where
  four_le : 4 ≤ c.dataLen
  le_64 : c.dataLen ≤ 64
  lengthField : c.lengthField.toNat + 1 = c.dataLen

/-- The commands given in between are valid. -/
def Issues (s t : Sfc) : Prop :=
  ∃ commands, t.commands = s.commands ++ commands ∧ ∀ c ∈ commands, c.Valid

theorem Issues.refl (s : Sfc) : Issues s s := ⟨[], (List.append_nil _).symm, nofun⟩

theorem Issues.trans {s t u : Sfc} (hst : Issues s t) (htu : Issues t u) : Issues s u := by
  obtain ⟨first, hfirst, hvalid⟩ := hst
  obtain ⟨second, hsecond, hvalid'⟩ := htu
  refine ⟨first ++ second, by rw [hsecond, hfirst, List.append_assoc], ?_⟩
  intro c hc
  obtain hc | hc := List.mem_append.mp hc
  · exact hvalid c hc
  · exact hvalid' c hc

theorem toNat_lengthField (addr : UInt32) {chunk : ℕ} (hpos : 0 < chunk) (hle : chunk ≤ 16) :
    (Command.read addr chunk).lengthField.toNat = chunk * 4 - 1 := by
  have hall : ∀ n : Fin 17, 0 < n.val →
      (Command.read 0 n.val).lengthField.toNat = n.val * 4 - 1 := by decide +kernel
  exact hall ⟨chunk, by omega⟩ hpos

theorem valid_read (addr : UInt32) {chunk : ℕ} (hpos : 0 < chunk) (hle : chunk ≤ 16) :
    (Command.read addr chunk).Valid where
  four_le := show 4 ≤ chunk * 4 by omega
  le_64 := show chunk * 4 ≤ 64 by omega
  lengthField := by
    rw [toNat_lengthField addr hpos hle]
    show chunk * 4 - 1 + 1 = chunk * 4
    omega

theorem issues_issue (flash : Flash) (s : Sfc) {c : Command} (hc : c.Valid) :
    Issues s (s.issue flash c) := by
  refine ⟨[c], rfl, ?_⟩
  intro c' hmem
  obtain rfl := List.mem_singleton.mp hmem
  exact hc

/-- The words of the data buffer after a read. -/
theorem word?_issue (flash : Flash) (s : Sfc) (addr : UInt32) {chunk i : ℕ} (hle : chunk ≤ 16)
    (hi : i < chunk) : (s.issue flash (.read addr chunk)).word? i =
      some (readWord flash (addr + UInt32.ofNat (4 * i))) := by
  have hbyte : ∀ k < chunk * 4, (s.issue flash (.read addr chunk)).dataBuf k =
      flash (addr + UInt32.ofNat k) := by
    intro k hk
    refine if_pos ?_
    rw [toNat_lengthField addr (by omega) hle]
    omega
  rw [Sfc.word?, if_pos (by omega), hbyte _ (by omega), hbyte _ (by omega), hbyte _ (by omega),
    hbyte _ (by omega), readWord, ← add_ofNat, ← add_ofNat, ← add_ofNat]
  rfl

/-! ## §5 The loops -/

theorem addrAdd?_eq {addr : UInt32} {n : ℕ} (h : addr.toNat + n < 2 ^ 32) :
    addrAdd? addr n = some (addr + UInt32.ofNat n) := if_pos h

theorem toNat_add_ofNat {addr : UInt32} {n : ℕ} (h : addr.toNat + n < 2 ^ 32) :
    (addr + UInt32.ofNat n).toNat = addr.toNat + n := by
  rw [UInt32.toNat_add, UInt32.toNat_ofNat', Nat.mod_eq_of_lt (by omega : n < 2 ^ 32),
    Nat.mod_eq_of_lt h]

theorem length_sfcReadLoop (flash : Flash) (addr : UInt32) (words offset : ℕ) :
    (sfcReadLoop flash addr words offset).length = words - offset := by
  rw [sfcReadLoop_eq, List.length_map, List.length_range']

theorem length_sfcCommand (flash : Flash) (addr : UInt32) (words : ℕ) :
    (sfcCommand flash addr words).length = words := by
  rw [sfcCommand, List.length_map, List.length_range]

/-- The loop over a chunk stores what its command delivers. -/
theorem storeLoop?_command (flash : Flash) (s : Sfc) (addr : UInt32) {dst : List UInt32}
    {offset chunk : ℕ} (hchunk : chunk ≤ 16) (hroom : offset + chunk ≤ dst.length) :
    storeLoop? (s.issue flash (.read (addr + UInt32.ofNat (offset * 4)) chunk)).word? dst offset chunk =
      some (overwrite dst offset (sfcCommand flash (addr + UInt32.ofNat (4 * offset)) chunk)) := by
  rw [sfcCommand, Nat.mul_comm 4 offset]
  exact storeLoop?_eq hroom fun i hi => word?_issue flash s _ hchunk hi

/-- `sfc_read_data` stores what the commands deliver, and nothing beside it. -/
theorem sfcReadLoop?_eq (flash : Flash) (s : Sfc) {addr : UInt32} {words : ℕ} (offset : ℕ)
    {dst : List UInt32} (hdst : words ≤ dst.length) (haddr : addr.toNat + words * 4 < 2 ^ 32 + 4) :
    ∃ t, sfcReadLoop? flash addr words s dst offset =
        some (t, overwrite dst offset (sfcReadLoop flash addr words offset)) ∧ Issues s t := by
  induction hrest : words - offset using Nat.strong_induction_on generalizing s dst offset with
  | _ rest ih =>
    rw [sfcReadLoop?, sfcReadLoop]
    split
    · rename_i hlt
      have hchunk : min 16 (words - offset) ≤ 16 := Nat.min_le_left _ _
      have hle : min 16 (words - offset) ≤ words - offset := Nat.min_le_right _ _
      have hpos : 0 < min 16 (words - offset) := by omega
      dsimp only
      generalize min 16 (words - offset) = chunk at hchunk hle hpos
      have hstore := storeLoop?_command flash s addr hchunk (show offset + chunk ≤ dst.length by omega)
      have hlen := length_sfcCommand flash (addr + UInt32.ofNat (4 * offset)) chunk
      have hread := length_sfcReadLoop flash addr words (offset + chunk)
      generalize sfcCommand flash (addr + UInt32.ofNat (4 * offset)) chunk = delivered at hstore hlen
      have hdst' : words ≤ (overwrite dst offset delivered).length := by
        rw [length_overwrite (by omega)]
        exact hdst
      obtain ⟨t, hloop, hissues⟩ :=
        ih (words - (offset + chunk)) (by omega)
          (s.issue flash (.read (addr + UInt32.ofNat (offset * 4)) chunk)) (offset + chunk) hdst' rfl
      have hjoin : overwrite (overwrite dst offset delivered) (offset + delivered.length)
          (sfcReadLoop flash addr words (offset + chunk)) = _ := overwrite_overwrite (by omega)
      rw [hlen] at hjoin
      refine ⟨t, ?_, (issues_issue flash s (valid_read _ hpos hchunk)).trans hissues⟩
      simp only [addrAdd?_eq (show addr.toNat + offset * 4 < 2 ^ 32 by omega), Option.bind_eq_bind,
        Option.bind_some, hstore, hloop, hjoin]
    · exact ⟨s, by rw [overwrite_nil], .refl s⟩

/-- The bytes of the temporary words. -/
theorem tmp_byte (flash : Flash) (addr : UInt32) {chunk i : ℕ} (hi : i < chunk) (rest : List UInt32) :
    (sfcReadData flash addr ((chunk + 3) / 4) ++ rest)[i / 4]?.map (byteOf · (i % 4)) =
      some (flash (addr + UInt32.ofNat i)) := by
  have hlt : i / 4 < (chunk + 3) / 4 := by omega
  have hlen : (sfcReadData flash addr ((chunk + 3) / 4)).length = (chunk + 3) / 4 := by
    rw [sfcReadData, length_sfcReadLoop, Nat.sub_zero]
  have hword : (sfcReadData flash addr ((chunk + 3) / 4))[i / 4]? =
      some (readWord flash (addr + UInt32.ofNat (4 * (i / 4)))) := by
    rw [← sfcReadData_getD flash addr hlt, List.getD_eq_getElem?_getD,
      List.getElem?_eq_getElem (by rw [hlen]; exact hlt), Option.getD_some]
  rw [List.getElem?_append_left (by rw [hlen]; exact hlt), hword, Option.map_some,
    byteOf_readWord _ _ (Nat.mod_lt _ (by decide)), add_ofNat, Nat.div_add_mod]

/-- A chunk of `read_bytes`. -/
theorem readChunk?_eq (flash : Flash) (s : Sfc) (addr : UInt32) {offset chunk : ℕ} {buf : List UInt8} (hchunk : chunk ≤ 64)
    (hroom : offset + chunk ≤ buf.length) (haddr : addr.toNat + chunk ≤ 2 ^ 32) :
    ∃ t tmp, sfcReadData? flash addr ((chunk + 3) / 4) s (List.replicate 16 0) = some (t, tmp) ∧
      Issues s t ∧ storeLoop? (fun i => tmp[i / 4]?.map (byteOf · (i % 4))) buf offset chunk =
        some (overwrite buf offset (bytes flash addr chunk)) := by
  have hwords : (chunk + 3) / 4 ≤ (List.replicate 16 (0 : UInt32)).length := by
    rw [List.length_replicate]
    omega
  obtain ⟨t, hread, hissues⟩ := sfcReadLoop?_eq flash s 0 hwords
    (show addr.toNat + (chunk + 3) / 4 * 4 < 2 ^ 32 + 4 by omega)
  refine ⟨t, _, hread, hissues, storeLoop?_eq hroom fun i hi => ?_⟩
  rw [overwrite, List.take_zero, List.nil_append]
  exact tmp_byte flash addr hi _

/-- `read_bytes` fills the buffer with the flash. -/
theorem readBytesLoop?_eq (flash : Flash) (s : Sfc) {addr : UInt32} {len : ℕ} (offset : ℕ)
    {buf : List UInt8} (hbuf : len = buf.length) (haddr : addr.toNat + len ≤ 2 ^ 32) :
    ∃ t, readBytesLoop? flash addr len s buf offset =
        some (t, overwrite buf offset (readBytesLoop flash addr len offset)) ∧ Issues s t := by
  induction hrest : len - offset using Nat.strong_induction_on generalizing s buf offset with
  | _ rest ih =>
    rw [readBytesLoop?, readBytesLoop]
    split
    · rename_i hlt
      have hchunk : min 64 (len - offset) ≤ 64 := Nat.min_le_left _ _
      have hle : min 64 (len - offset) ≤ len - offset := Nat.min_le_right _ _
      have hpos : 0 < min 64 (len - offset) := by omega
      dsimp only
      generalize min 64 (len - offset) = chunk at hchunk hle hpos
      have hsum : addr.toNat + offset < 2 ^ 32 := by omega
      obtain ⟨t, tmp, hread, hissues, hstore⟩ := readChunk?_eq flash s
        (addr + UInt32.ofNat offset) hchunk (show offset + chunk ≤ buf.length by omega)
        (by rw [toNat_add_ofNat hsum]; omega)
      rw [readChunk_eq]
      have hlen := length_bytes flash (addr + UInt32.ofNat offset) chunk
      have hloop := readBytesLoop_eq flash addr len (offset + chunk)
      generalize bytes flash (addr + UInt32.ofNat offset) chunk = delivered at hstore hlen
      have hrestlen : (readBytesLoop flash addr len (offset + chunk)).length = len - (offset + chunk) := by
        rw [hloop, List.length_map, List.length_range']
      have hbuf' : len = (overwrite buf offset delivered).length := by
        rw [length_overwrite (by omega)]
        exact hbuf
      obtain ⟨u, hnext, hissues'⟩ :=
        ih (len - (offset + chunk)) (by omega) t (offset + chunk) hbuf' rfl
      have hjoin : overwrite (overwrite buf offset delivered) (offset + delivered.length)
          (readBytesLoop flash addr len (offset + chunk)) = _ := overwrite_overwrite (by omega)
      rw [hlen] at hjoin
      refine ⟨u, ?_, hissues.trans hissues'⟩
      simp only [addrAdd?_eq hsum, Option.bind_eq_bind, Option.bind_some, hread, hstore, hnext, hjoin]
    · exact ⟨s, by rw [overwrite_nil], .refl s⟩

theorem readBytes?_eq (flash : Flash) (s : Sfc) {addr : UInt32} {buf : List UInt8} (haddr : addr.toNat + buf.length ≤ 2 ^ 32) :
    ∃ t, readBytes? flash addr s buf = some (t, bytes flash addr buf.length) ∧ Issues s t := by
  obtain ⟨t, hread, hissues⟩ := readBytesLoop?_eq flash s 0 rfl haddr
  refine ⟨t, ?_, hissues⟩
  have hbytes : readBytesLoop flash addr buf.length 0 = bytes flash addr buf.length :=
    readBytes_eq flash addr buf.length
  rw [readBytes?, hread, hbytes, overwrite_zero (length_bytes _ _ _)]

/-- The loop over the image hashes the rest of it, chunk by chunk. -/
theorem integrityLoop?_eq (flash : Flash) {body : UInt32} {len : ℕ} (h : Hashing) (offset : ℕ)
    (hbuf : h.buf.length = 256) (hbody : body.toNat + len ≤ 2 ^ 32) :
    ∃ t chunks, integrityLoop? flash body len h offset = some t ∧ t.chunks = h.chunks ++ chunks ∧
      t.sha = chunks.foldl Sha256.update h.sha ∧ Issues h.sfc t.sfc ∧
      chunks.flatten = (List.range' offset (len - offset)).map fun i =>
        flash (body + UInt32.ofNat i) := by
  induction hrest : len - offset using Nat.strong_induction_on generalizing h offset with
  | _ rest ih =>
    rw [integrityLoop?]
    split
    · rename_i hlt
      have hchunk : min 256 (len - offset) ≤ 256 := Nat.min_le_left _ _
      have hle : min 256 (len - offset) ≤ len - offset := Nat.min_le_right _ _
      have hpos : 0 < min 256 (len - offset) := by omega
      dsimp only
      generalize min 256 (len - offset) = chunk at hchunk hle hpos
      have hsum : body.toNat + offset < 2 ^ 32 := by omega
      have hslice : sliceTo? h.buf chunk = some (h.buf.take chunk) := if_pos (by omega)
      have htake : (h.buf.take chunk).length = chunk := by
        rw [List.length_take]
        omega
      obtain ⟨sfc, hread, hissues⟩ := readBytes?_eq flash h.sfc
        (show (body + UInt32.ofNat offset).toNat + (h.buf.take chunk).length ≤ 2 ^ 32 by
          rw [toNat_add_ofNat hsum, htake]
          omega)
      rw [htake] at hread
      have hlen := length_bytes flash (body + UInt32.ofNat offset) chunk
      have hmap := map_chunk (fun i => flash (body + UInt32.ofNat i)) (show offset + chunk ≤ len by omega)
      have hbytes : bytes flash (body + UInt32.ofNat offset) chunk =
          (List.range chunk).map fun i => flash (body + UInt32.ofNat (offset + i)) := by
        rw [bytes]
        exact List.map_congr_left fun i _ => by rw [add_ofNat]
      rw [← hbytes] at hmap
      generalize bytes flash (body + UInt32.ofNat offset) chunk = slice at hread hlen hmap
      obtain ⟨t, chunks, hloop, hchunks, hsha, hissues', hflatten⟩ :=
        ih (len - (offset + chunk)) (by omega) ⟨sfc, slice ++ h.buf.drop chunk, h.sha.update slice,
          h.chunks ++ [slice]⟩ (offset + chunk) (by simp [hlen]; omega) rfl
      refine ⟨t, slice :: chunks, ?_, ?_, hsha, hissues.trans hissues', ?_⟩
      · simp only [addrAdd?_eq hsum, hslice, hread, hloop, Option.bind_eq_bind, Option.bind_some]
      · rw [hchunks, List.append_assoc]
        rfl
      · rw [List.flatten_cons, hflatten, ← hrest, hmap]
    · refine ⟨h, [], rfl, (List.append_nil _).symm, rfl, .refl _, ?_⟩
      rw [← hrest, Nat.sub_eq_zero_of_le (by omega)]
      rfl

/-! ## §6 Main results -/

/-- **The image is hashed once and in order, and a buffer filled exactly**, by commands whose
length field is right and stores in bounds. -/
theorem flash_hashed_once (flash : Flash) (s : Sfc) :
    (∀ (imgBody imgLen : UInt32) (expected : Vector UInt8 32), 1 ≤ imgLen.toNat →
      imgLen.toNat ≤ 8 * 1024 * 1024 → imgBody.toNat + imgLen.toNat ≤ 2 ^ 32 →
      ∃ h, verifyImageIntegrity? flash s imgBody imgLen expected =
          some (verifyImageIntegrity flash imgBody imgLen expected, h) ∧
        h.chunks.flatten = bytes flash imgBody imgLen.toNat ∧
        h.sha = h.chunks.foldl Sha256.update .new ∧ Issues s h.sfc) ∧
    (∀ (addr : UInt32) (buf : List UInt8), addr.toNat + buf.length ≤ 2 ^ 32 →
      ∃ t, readBytes? flash addr s buf = some (t, bytes flash addr buf.length) ∧ Issues s t) ∧
    ∀ (addr : UInt32) (words : ℕ) (dst : List UInt32), words ≤ dst.length →
      addr.toNat + words * 4 ≤ 2 ^ 32 →
      ∃ t, sfcReadData? flash addr words s dst =
        some (t, overwrite dst 0 (sfcReadData flash addr words)) ∧ Issues s t := by
  refine ⟨?_, fun addr buf haddr => readBytes?_eq flash s haddr, ?_⟩
  · intro imgBody imgLen expected hpos hmax hbody
    have hcond : ¬(imgLen = 0 ∨ 8 * 1024 * 1024 < imgLen) := by
      rintro (rfl | hlong)
      · cases hpos
      · exact Nat.not_lt.mpr hmax (UInt32.lt_iff_toNat_lt.mp hlong)
    obtain ⟨h, chunks, hloop, hchunks, hsha, hissues, hflatten⟩ := integrityLoop?_eq flash
      ⟨s, List.replicate 256 0, .new, []⟩ 0 List.length_replicate hbody
    rw [List.nil_append] at hchunks
    subst hchunks
    rw [Nat.sub_zero, ← List.range_eq_range'] at hflatten
    have hbytes : h.chunks.flatten = bytes flash imgBody imgLen.toNat := hflatten
    have hlen : h.chunks.flatten.length < 2 ^ 61 := by
      rw [hbytes, length_bytes]
      omega
    refine ⟨h, ?_, hbytes, hsha, hissues⟩
    rw [verifyImageIntegrity?, if_neg hcond, verifyImageIntegrity, if_neg hcond, hloop, Option.map_some,
      finish_integrityLoop _ _ (by omega), hsha, Sha256.finish_foldl_update h.chunks hlen, hbytes]
  · intro addr words dst hdst haddr
    exact sfcReadLoop?_eq flash s 0 hdst (by omega)

/-- The first command finds the data buffer empty. -/
def sampleSfc : Sfc := ⟨fun _ => 0, []⟩

/-- Five bytes at the end of the address space are one command of eight bytes. -/
theorem flash_hashed_once_sample :
    (∃ h, (verifyImageIntegrity? (fun a => a.toUInt8) sampleSfc 0xfffffffb 5
        (Vector.replicate 32 0)).map Prod.snd = some h ∧
      h.chunks.flatten = [0xfb, 0xfc, 0xfd, 0xfe, 0xff] ∧ Issues sampleSfc h.sfc) ∧
    ∃ t, readBytes? (fun a => a.toUInt8) 0xfffffffb sampleSfc [0, 0, 0, 0, 0] =
        some (t, [0xfb, 0xfc, 0xfd, 0xfe, 0xff]) ∧ Issues sampleSfc t := by
  obtain ⟨hverify, hread, -⟩ := flash_hashed_once (fun a => a.toUInt8) sampleSfc
  obtain ⟨h, hresult, hchunks, -, hissues⟩ := hverify 0xfffffffb 5 (Vector.replicate 32 0) (by decide)
    (by decide) (by decide)
  refine ⟨⟨h, ?_, hchunks, hissues⟩, hread 0xfffffffb [0, 0, 0, 0, 0] (by decide)⟩
  rw [hresult]
  rfl

end HisiRiscv.Flashboot
