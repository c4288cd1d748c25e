/-
HisiRiscv.Flashboot.Boot — from the flash to the jump (`sfc.rs`, `image.rs`
and `try_boot` of `main.rs`).

Translation notes. The flash is a byte at each address; a command of the
controller delivers words, low byte first. An array that a function fills
is the list of its elements. The header keeps the fields that some
function reads, and `code_area_addr`, which is documented and read by
none. `try_boot` answers with the address it jumps to.

  §1 The flash controller.
  §2 The image header.
  §3 `try_boot`.
-/
import HisiRiscv.Flashboot.Sha256
import Mathlib.Algebra.Group.Nat.Defs

namespace HisiRiscv.Flashboot

/-! ## §1 The flash controller -/

abbrev Flash : Type := UInt32 → UInt8

def readWord (flash : Flash) (addr : UInt32) : UInt32 :=
  UInt32.ofNat ((flash addr).toNat + 2 ^ 8 * (flash (addr + 1)).toNat +
    2 ^ 16 * (flash (addr + 2)).toNat + 2 ^ 24 * (flash (addr + 3)).toNat)

/-- One command: the words in the data buffer. -/
def sfcCommand (flash : Flash) (addr : UInt32) (words : Nat) : List UInt32 :=
  (List.range words).map fun i => readWord flash (addr + UInt32.ofNat (4 * i))

/-- `while offset_words < words`. -/
def sfcReadLoop (flash : Flash) (addr : UInt32) (words offset : Nat) : List UInt32 :=
  if _h : offset < words then
    let chunk := min 16 (words - offset)
    sfcCommand flash (addr + UInt32.ofNat (4 * offset)) chunk ++
      sfcReadLoop flash addr words (offset + chunk)
  else []
termination_by words - offset

def sfcReadData (flash : Flash) (addr : UInt32) (words : Nat) : List UInt32 :=
  sfcReadLoop flash addr words 0

/-- `(word >> (i * 8)) as u8`. -/
def byteOf (word : UInt32) (i : Nat) : UInt8 := (word >>> UInt32.ofNat (8 * i)).toUInt8

/-- The body of the loop of `read_bytes`. -/
def readChunk (flash : Flash) (addr : UInt32) (chunk : Nat) : List UInt8 :=
  let tmp := sfcReadData flash addr ((chunk + 3) / 4)
  (List.range chunk).map fun i => byteOf (tmp.getD (i / 4) 0) (i % 4)

/-- `while offset < buf.len()`. -/
def readBytesLoop (flash : Flash) (addr : UInt32) (len offset : Nat) : List UInt8 :=
  if _h : offset < len then
    let chunk := min 64 (len - offset)
    readChunk flash (addr + UInt32.ofNat offset) chunk ++ readBytesLoop flash addr len (offset + chunk)
  else []
termination_by len - offset

def readBytes (flash : Flash) (addr : UInt32) (len : Nat) : List UInt8 :=
  readBytesLoop flash addr len 0

/-! ## §2 The image header -/

structure CodeInfo where
  imageId : UInt32
  structureVersion : UInt32
  structureLength : UInt32
  signatureLength : UInt32
  codeAreaAddr : UInt32
  codeAreaLen : UInt32
  codeAreaHash : Vector UInt8 32

/-- `size_of::<KeyArea>()` and `size_of::<ImageHeader>()`. -/
def keyAreaSize : Nat := 0x100
def imageHeaderSize : Nat := 0x300

/-- `read_image_header`: the code info behind the key area. -/
def readImageHeader (flash : Flash) (addr : UInt32) : CodeInfo :=
  let words := sfcReadData flash addr (imageHeaderSize / 4)
  let field := fun offset => words.getD ((keyAreaSize + offset) / 4) 0
  { imageId := field 0x00
    structureVersion := field 0x04
    structureLength := field 0x08
    signatureLength := field 0x0C
    codeAreaAddr := field 0x20
    codeAreaLen := field 0x24
    codeAreaHash := Vector.ofFn fun i => byteOf (field (0x28 + i)) (i % 4) }

def validate (ci : CodeInfo) : Bool :=
  ci.imageId != 0 && ci.imageId != 0xFFFFFFFF && ci.structureVersion == 0x00010000 &&
    (ci.structureLength == 0x200 || ci.structureLength == 0x400) &&
    decide (0 < ci.signatureLength) && decide (ci.signatureLength ≤ 512) &&
    decide (0 < ci.codeAreaLen) && decide (ci.codeAreaLen < 8 * 1024 * 1024)

/-! ## §3 `try_boot` -/

def flashStart : UInt32 := 0x00200000
def imageHeaderLen : UInt32 := 0x300
def appMaxSize : UInt32 := 0x00280000

/-- `while offset < img_len`. -/
def integrityLoop (flash : Flash) (body : UInt32) (len offset : Nat) (sha : Sha256) : Sha256 :=
  if _h : offset < len then
    let chunk := min 256 (len - offset)
    integrityLoop flash body len (offset + chunk)
      (sha.update (readBytes flash (body + UInt32.ofNat offset) chunk))
  else sha
termination_by len - offset

def verifyImageIntegrity (flash : Flash) (imgBody imgLen : UInt32) (expected : Vector UInt8 32) :
    Bool :=
  if imgLen = 0 ∨ 8 * 1024 * 1024 < imgLen then false
  else (integrityLoop flash imgBody imgLen.toNat 0 .new).finish == expected

def tryBoot (flash : Flash) (addr : UInt32) : Option UInt32 :=
  let hdr := readImageHeader flash addr
  if !validate hdr then none
  else
    let imgBody := addr + imageHeaderLen
    if !verifyImageIntegrity flash imgBody hdr.codeAreaLen hdr.codeAreaHash then none
    else some (addr + imageHeaderLen)

end HisiRiscv.Flashboot
