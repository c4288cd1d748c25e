/-
HisiRiscv.Flashboot.Sha256 — the flashboot SHA-256 context
(`chips/ws63/flashboot/src/sha256.rs`).

Translation notes. `[u32; 8]`, `[u8; 64]` and `[u32; 64]` are `Vector`s,
`buf_len` and `offset` are `Nat` (a `usize` that never leaves 0..=64, and
a slice offset), `total_len` is the source's wrapping `u64`. A `for`
loop over a range is a fold over that range. The private fields of
`Sha256` keep `buf_len < 64` between any two statements that can observe
it; here the bound is a field of the structure, and it is what makes the
`while` loop of `update` advance.
-/
import HisiRiscv.Lib.ByteBuffer

namespace HisiRiscv.Flashboot

open HisiRiscv.ByteBuffer

/-- The initial hash value `H`. -/
def H : Vector UInt32 8 := #v[
  0x6a09e667, 0xbb67ae85, 0x3c6ef372, 0xa54ff53a, 0x510e527f, 0x9b05688c, 0x1f83d9ab, 0x5be0cd19]

/-- The round constants `K`. -/
def K : Vector UInt32 64 := #v[
  0x428a2f98, 0x71374491, 0xb5c0fbcf, 0xe9b5dba5, 0x3956c25b, 0x59f111f1, 0x923f82a4, 0xab1c5ed5,
  0xd807aa98, 0x12835b01, 0x243185be, 0x550c7dc3, 0x72be5d74, 0x80deb1fe, 0x9bdc06a7, 0xc19bf174,
  0xe49b69c1, 0xefbe4786, 0x0fc19dc6, 0x240ca1cc, 0x2de92c6f, 0x4a7484aa, 0x5cb0a9dc, 0x76f988da,
  0x983e5152, 0xa831c66d, 0xb00327c8, 0xbf597fc7, 0xc6e00bf3, 0xd5a79147, 0x06ca6351, 0x14292967,
  0x27b70a85, 0x2e1b2138, 0x4d2c6dfc, 0x53380d13, 0x650a7354, 0x766a0abb, 0x81c2c92e, 0x92722c85,
  0xa2bfe8a1, 0xa81a664b, 0xc24b8b70, 0xc76c51a3, 0xd192e819, 0xd6990624, 0xf40e3585, 0x106aa070,
  0x19a4c116, 0x1e376c08, 0x2748774c, 0x34b0bcb5, 0x391c0cd3, 0x4ed8aa4a, 0x5b9cca4f, 0x682e6ff3,
  0x748f82ee, 0x78a5636f, 0x84c87814, 0x8cc70208, 0x90befffa, 0xa4506ceb, 0xbef9a3f7, 0xc67178f2]

/-! ## The compression function -/

/-- `u32::rotate_right`. -/
def rotateRight (x : UInt32) (n : Nat) : UInt32 := ⟨x.toBitVec.rotateRight n⟩

/-- The four bytes of `buf` at `i * 4`, big-endian. -/
def loadWord (buf : Vector UInt8 64) (i : Nat) : UInt32 :=
  (buf[i * 4]!.toUInt32 <<< 24) ||| (buf[i * 4 + 1]!.toUInt32 <<< 16) |||
    (buf[i * 4 + 2]!.toUInt32 <<< 8) ||| buf[i * 4 + 3]!.toUInt32

/-- The body of the schedule loop `for i in 16..64`. -/
def extendSchedule (w : Vector UInt32 64) (i : Nat) : Vector UInt32 64 :=
  let s0 := rotateRight w[i - 15]! 7 ^^^ rotateRight w[i - 15]! 18 ^^^ (w[i - 15]! >>> 3)
  let s1 := rotateRight w[i - 2]! 17 ^^^ rotateRight w[i - 2]! 19 ^^^ (w[i - 2]! >>> 10)
  w.set! i (w[i - 16]! + s0 + w[i - 7]! + s1)

/-- The message schedule array `w` of `compress`. -/
def scheduleArray (buf : Vector UInt8 64) : Vector UInt32 64 :=
  let w := (List.range 16).foldl (fun w i => w.set! i (loadWord buf i)) (Vector.replicate 64 0)
  (List.range' 16 48).foldl extendSchedule w

/-- The locals `a` … `h` of `compress`. -/
structure Vars where
  (a b c d e f g h : UInt32)

/-- The body of the round loop `for i in 0..64`. -/
def roundStep (w : Vector UInt32 64) (v : Vars) (i : Nat) : Vars :=
  let s1 := rotateRight v.e 6 ^^^ rotateRight v.e 11 ^^^ rotateRight v.e 25
  let ch := (v.e &&& v.f) ^^^ (~~~v.e &&& v.g)
  let temp1 := v.h + s1 + ch + K[i]! + w[i]!
  let s0 := rotateRight v.a 2 ^^^ rotateRight v.a 13 ^^^ rotateRight v.a 22
  let maj := (v.a &&& v.b) ^^^ (v.a &&& v.c) ^^^ (v.b &&& v.c)
  let temp2 := s0 + maj
  { h := v.g, g := v.f, f := v.e, e := v.d + temp1,
    d := v.c, c := v.b, b := v.a, a := temp1 + temp2 }

/-- `Sha256::compress`: the new chaining state from the old one and a full
buffer. -/
def compress (state : Vector UInt32 8) (buf : Vector UInt8 64) : Vector UInt32 8 :=
  let w := scheduleArray buf
  let v := (List.range 64).foldl (roundStep w)
    ⟨state[0], state[1], state[2], state[3], state[4], state[5], state[6], state[7]⟩
  #v[state[0] + v.a, state[1] + v.b, state[2] + v.c, state[3] + v.d,
     state[4] + v.e, state[5] + v.f, state[6] + v.g, state[7] + v.h]

/-! ## The context -/

/-- SHA256 context. -/
structure Sha256 where
  state : Vector UInt32 8
  buf : Vector UInt8 64
  bufLen : Nat
  totalLen : UInt64
  bufLen_lt : bufLen < 64

namespace Sha256

def new : Sha256 where
  state := H
  buf := Vector.replicate 64 0
  bufLen := 0
  totalLen := 0
  bufLen_lt := by decide

/-- One iteration of the `while` loop of `update` at `offset`: the copy and,
when it filled the buffer, the compression. -/
def updateStep (c : Sha256) (data : List UInt8) (offset : Nat) : Sha256 :=
  let space := 64 - c.bufLen
  let copy := min space (data.length - offset)
  let buf := copyAt c.buf c.bufLen ((data.drop offset).take copy)
  if h : c.bufLen + copy = 64 then
    { c with state := compress c.state buf, buf := buf, bufLen := 0, bufLen_lt := by decide }
  else
    { c with buf := buf, bufLen := c.bufLen + copy,
             bufLen_lt := by have := c.bufLen_lt; omega }

/-- `while offset < data.len()`. -/
def updateLoop (c : Sha256) (data : List UInt8) (offset : Nat) : Sha256 :=
  if _h : offset < data.length then
    updateLoop (c.updateStep data offset) data (offset + min (64 - c.bufLen) (data.length - offset))
  else c
termination_by data.length - offset
decreasing_by have := c.bufLen_lt; omega

/-- `Sha256::update`. -/
def update (c : Sha256) (data : List UInt8) : Sha256 :=
  updateLoop { c with totalLen := c.totalLen + UInt64.ofNat data.length } data 0

/-- `buf[lo..hi].fill(0)`. -/
def fillZero (buf : Vector UInt8 64) (lo hi : Nat) : Vector UInt8 64 :=
  copyAt buf lo (List.replicate (hi - lo) 0)

/-- The marker byte, and the first of the two final blocks when the length
does not fit behind it; the state, buffer and fill level that remain. -/
def padMarker (c : Sha256) : Vector UInt32 8 × Vector UInt8 64 × Nat :=
  let buf := c.buf.set! c.bufLen 0x80
  let bufLen := c.bufLen + 1
  if bufLen > 56 then
    let buf := fillZero buf bufLen 64
    (compress c.state buf, buf, 0)
  else (c.state, buf, bufLen)

/-- `for i in 0..8 { buf[56 + i] = … }`. -/
def putLength (buf : Vector UInt8 64) (totalBits : UInt64) : Vector UInt8 64 :=
  (List.range 8).foldl
    (fun buf i => buf.set! (56 + i) ((totalBits >>> (56 - UInt64.ofNat i * 8)) &&& 0xFF).toUInt8) buf

/-- `for i in 0..8`: the eight state words as thirty-two bytes. -/
def digest (state : Vector UInt32 8) : Vector UInt8 32 :=
  (List.range 8).foldl
    (fun hash i =>
      let hash := hash.set! (i * 4) ((state[i]! >>> 24) &&& 0xFF).toUInt8
      let hash := hash.set! (i * 4 + 1) ((state[i]! >>> 16) &&& 0xFF).toUInt8
      let hash := hash.set! (i * 4 + 2) ((state[i]! >>> 8) &&& 0xFF).toUInt8
      hash.set! (i * 4 + 3) (state[i]! &&& 0xFF).toUInt8)
    (Vector.replicate 32 0)

/-- `Sha256::finish`. -/
def finish (c : Sha256) : Vector UInt8 32 :=
  let totalBits := c.totalLen * 8
  let (state, buf, bufLen) := padMarker c
  let buf := putLength (fillZero buf bufLen 56) totalBits
  digest (compress state buf)

end Sha256

end HisiRiscv.Flashboot
