/-
HisiRiscv.Flashboot.Sha256Theorems — what the flashboot hash computes.

The buffering, the padding and the round structure of `sha256.rs` are
those of FIPS 180-4, for every message below 2⁶¹ bytes and every way of
cutting it into `update` calls (`finish_update`). The table is not: the
entry `K[52]` reads `0x391c0cd3` where the cube root of 241 gives
`0x391c0cb3`. So `finish` returns SHA-256 with one changed constant, which
takes every block, from every chaining value, to another one than the
standard's, and no message of one padded block to its digest. Whether some
longer message meets its digest after all is a question about collisions
of the compression function.

  §1 Words     — the table, rotations and big-endian loads.
  §2 Compress  — schedule and rounds against `Fips180.compressWith`.
  §3 Buffer    — `update` is absorption behind the buffered residue.
  §4 Padding   — `finish` against `Fips180.pad`.
  §5 Digest    — the composition.
  §6 The mistyped constant.
-/
import HisiRiscv.Flashboot.Fips180
import HisiRiscv.Flashboot.Sha256
import Mathlib.Data.List.Induction

namespace HisiRiscv.Flashboot

open HisiRiscv.BitString HisiRiscv.BlockStream HisiRiscv.ByteBuffer

/-! ## §1 Words -/

/-- The round constants the firmware uses. -/
def roundConstant (t : Nat) : UInt32 := K[t]!

set_option maxRecDepth 20000 in
/-- Sixty-three of the sixty-four entries are the standard's. -/
theorem roundConstant_eq {t : Nat} (h : t < 64) (ht : t ≠ 52) :
    roundConstant t = Fips180.K t := by
  have hall : ∀ i : Fin 64, i.val ≠ 52 → roundConstant i = Fips180.K i := by decide +kernel
  exact hall ⟨t, h⟩ ht

/-- Two hexadecimal digits of entry 52 are swapped. -/
theorem roundConstant_52 : roundConstant 52 = 0x391c0cd3 ∧ Fips180.K 52 = 0x391c0cb3 := by
  decide +kernel

theorem H_eq : H = Fips180.H0 := by decide +kernel

theorem rotateRight_eq (x : UInt32) (n : Nat) (h0 : 0 < n) (h32 : n < 32) :
    rotateRight x n = Fips180.ROTR (UInt32.ofNat n) x := by
  have hn : (UInt32.ofNat n).toNat = n := UInt32.toNat_ofNat_of_lt' (by simp [UInt32.size]; omega)
  apply UInt32.toBitVec_inj.mp
  simp only [rotateRight, Fips180.ROTR, UInt32.toBitVec_or, UInt32.toBitVec_shiftRight,
    UInt32.toBitVec_shiftLeft, BitVec.rotateRight, BitVec.rotateRightAux]
  rw [Nat.mod_eq_of_lt h32]
  congr 1
  · apply BitVec.eq_of_toNat_eq
    simp [BitVec.toNat_ushiftRight, hn, Nat.mod_eq_of_lt h32]
  · apply BitVec.eq_of_toNat_eq
    simp only [UInt32.toBitVec_sub, UInt32.toBitVec_ofNat, BitVec.shiftLeft_eq', BitVec.toNat_shiftLeft]
    simp
    rw [show (4294967296 - n % 4294967296) % 32 = 32 - n by omega]

/-- Bytes shifted into disjoint positions are added. -/
theorem or_bytes (a b c d : Nat) (hb : b < 2 ^ 8) (hc : c < 2 ^ 8) (hd : d < 2 ^ 8) :
    a <<< 24 ||| b <<< 16 ||| c <<< 8 ||| d = ((a * 256 + b) * 256 + c) * 256 + d := by
  have hab : a <<< 24 ||| b <<< 16 = (a <<< 8 + b) <<< 16 := by
    rw [Nat.shiftLeft_add_eq_or_of_lt hb, Nat.shiftLeft_or_distrib, ← Nat.shiftLeft_add]
  have habc : (a <<< 8 + b) <<< 16 ||| c <<< 8 = ((a <<< 8 + b) <<< 8 + c) <<< 8 := by
    rw [Nat.shiftLeft_add_eq_or_of_lt hc, Nat.shiftLeft_or_distrib, ← Nat.shiftLeft_add]
  rw [hab, habc, ← Nat.shiftLeft_add_eq_or_of_lt hd]
  simp only [Nat.shiftLeft_eq]

/-- Four bytes shifted into place are the word of their thirty-two bits. -/
theorem shiftOr_eq_ofBits (a b c d : UInt8) :
    (a.toUInt32 <<< 24) ||| (b.toUInt32 <<< 16) ||| (c.toUInt32 <<< 8) ||| d.toUInt32 =
      UInt32.ofNat (ofBits (ofBytes [a, b, c, d])) := by
  have ha := a.toNat_lt
  have hb := b.toNat_lt
  have hc := c.toNat_lt
  have hd := d.toNat_lt
  have hbits : ofBits (ofBytes [a, b, c, d]) =
      ((a.toNat * 256 + b.toNat) * 256 + c.toNat) * 256 + d.toNat := by
    simp only [ofBytes_cons, ofBytes_nil, List.append_nil, ofBits_append, ofBits_byte,
      List.length_append, length_toBits]
    omega
  have hlt : ∀ (x : UInt8) (k : Nat), k ≤ 24 → x.toNat <<< k < 2 ^ 32 := by
    intro x k hk
    rw [Nat.shiftLeft_eq]
    calc x.toNat * 2 ^ k < 2 ^ 8 * 2 ^ k := Nat.mul_lt_mul_of_pos_right x.toNat_lt (Nat.two_pow_pos k)
      _ = 2 ^ (8 + k) := (Nat.pow_add 2 8 k).symm
      _ ≤ 2 ^ 32 := Nat.pow_le_pow_right (by decide) (by omega)
  apply UInt32.toNat_inj.mp
  rw [hbits, ← or_bytes _ _ _ _ hb hc hd]
  simp only [UInt32.toNat_or, UInt32.toNat_shiftLeft, UInt8.toNat_toUInt32]
  rw [UInt32.toNat_ofNat', show UInt32.toNat 24 % 32 = 24 from rfl, show UInt32.toNat 16 % 32 = 16 from rfl,
      show UInt32.toNat 8 % 32 = 8 from rfl, Nat.mod_eq_of_lt (hlt a 24 (by decide)),
      Nat.mod_eq_of_lt (hlt b 16 (by decide)), Nat.mod_eq_of_lt (hlt c 8 (by decide))]
  refine (Nat.mod_eq_of_lt ?_).symm
  exact Nat.or_lt_two_pow (Nat.or_lt_two_pow (Nat.or_lt_two_pow (hlt a 24 (by decide))
    (hlt b 16 (by decide))) (hlt c 8 (by decide))) (by omega)
/-! ## §2 Compress -/

/-- Four consecutive bytes of a list. -/
theorem take_four_drop (l : List UInt8) (k : Nat) (h : k + 4 ≤ l.length) :
    (l.drop k).take 4 = [l[k]!, l[k + 1]!, l[k + 2]!, l[k + 3]!] := by
  rw [List.drop_eq_getElem_cons (by omega), List.drop_eq_getElem_cons (by omega),
      List.drop_eq_getElem_cons (by omega), List.drop_eq_getElem_cons (by omega)]
  rw [getElem!_pos l k (by omega), getElem!_pos l (k + 1) (by omega),
      getElem!_pos l (k + 2) (by omega), getElem!_pos l (k + 3) (by omega)]
  rfl

/-- `compress` loads the words the standard parses a block into. -/
theorem loadWord_eq (buf : Vector UInt8 64) (i : Nat) (hi : i < 16) :
    loadWord buf i = Fips180.word (ofBytes buf.toList) i := by
  have hget : ∀ k : Nat, buf[k]! = buf.toList[k]! := by
    intro k
    by_cases hk : k < 64
    · rw [getElem!_pos buf k hk, getElem!_pos buf.toList k (by simpa using hk), Vector.getElem_toList]
    · rw [getElem!_neg buf k hk, getElem!_neg buf.toList k (by simpa using hk)]
  have hblock : block 32 (ofBytes buf.toList) i = ofBytes ((buf.toList.drop (4 * i)).take 4) := by
    rw [ofBytes_take, ofBytes_drop, block, ← Nat.mul_assoc]
  rw [Fips180.word, hblock, take_four_drop _ _ (by simp; omega), loadWord, shiftOr_eq_ofBits]
  simp only [hget, Nat.mul_comm i 4]

theorem schedule_lt (blk : Bits) {t : Nat} (h : t < 16) :
    Fips180.schedule blk t = Fips180.word blk t := by
  rw [Fips180.schedule, dif_pos h]

theorem schedule_ge (blk : Bits) {t : Nat} (h : 16 ≤ t) :
    Fips180.schedule blk t =
      Fips180.smallSigma1 (Fips180.schedule blk (t - 2)) + Fips180.schedule blk (t - 7) +
        Fips180.smallSigma0 (Fips180.schedule blk (t - 15)) + Fips180.schedule blk (t - 16) := by
  rw [Fips180.schedule, dif_neg (by omega)]

/-- One pass of the schedule loop extends the computed prefix by `W_t`. -/
theorem extendSchedule_spec (blk : Bits) (w : Vector UInt32 64) (t : Nat) (h16 : 16 ≤ t)
    (h64 : t < 64) (hw : ∀ u < t, w[u]! = Fips180.schedule blk u) :
    ∀ u < t + 1, (extendSchedule w t)[u]! = Fips180.schedule blk u := by
  intro u hu
  rw [extendSchedule, getElem!_set! _ _ _ _ h64]
  by_cases htu : t = u
  · subst htu
    rw [if_pos rfl, schedule_ge blk h16, hw (t - 16) (by omega), hw (t - 15) (by omega),
        hw (t - 7) (by omega), hw (t - 2) (by omega)]
    simp only [rotateRight_eq _ 7 (by decide) (by decide), rotateRight_eq _ 18 (by decide) (by decide),
      rotateRight_eq _ 17 (by decide) (by decide), rotateRight_eq _ 19 (by decide) (by decide)]
    simp only [Fips180.smallSigma0, Fips180.smallSigma1, Fips180.SHR]
    ac_rfl
  · rw [if_neg htu, hw u (by omega)]

/-- The schedule array holds `W_0 … W_63`. -/
theorem scheduleArray_spec (buf : Vector UInt8 64) (t : Nat) (ht : t < 64) :
    (scheduleArray buf)[t]! = Fips180.schedule (ofBytes buf.toList) t := by
  have hloop : ∀ n, 16 + n ≤ 64 → ∀ u < 16 + n,
      ((List.range' 16 n).foldl extendSchedule ((List.range 16).foldl
        (fun w i => w.set! i (loadWord buf i)) (Vector.replicate 64 0)))[u]! =
        Fips180.schedule (ofBytes buf.toList) u := by
    intro n
    induction n with
    | zero =>
      intro _ u hu
      rw [List.range'_zero, List.foldl_nil, foldl_set!_range _ _ _ (by decide),
          if_pos (by omega), loadWord_eq _ _ (by omega), schedule_lt _ (by omega)]
    | succ n ih =>
      intro hn u hu
      rw [List.range'_1_concat, List.foldl_append, List.foldl_cons, List.foldl_nil]
      exact extendSchedule_spec _ _ _ (by omega) (by omega) (ih (by omega)) u (by omega)
  exact hloop 48 (by decide) t ht

/-- The locals of `compress` as the standard's working variables. -/
def Vars.toWork (v : Vars) : Fips180.Work := ⟨v.a, v.b, v.c, v.d, v.e, v.f, v.g, v.h⟩

theorem roundStep_toWork (w : Vector UInt32 64) (v : Vars) (i : Nat) :
    (roundStep w v i).toWork = Fips180.round v.toWork (roundConstant i) w[i]! := by
  simp only [roundStep, Vars.toWork, Fips180.round, roundConstant, Fips180.bigSigma0,
    Fips180.bigSigma1, Fips180.Ch, Fips180.Maj,
    rotateRight_eq _ 6 (by decide) (by decide), rotateRight_eq _ 11 (by decide) (by decide),
    rotateRight_eq _ 25 (by decide) (by decide), rotateRight_eq _ 2 (by decide) (by decide),
    rotateRight_eq _ 13 (by decide) (by decide), rotateRight_eq _ 22 (by decide) (by decide)]
  rfl

theorem rounds_toWork (buf : Vector UInt8 64) (ts : List Nat) (hts : ∀ t ∈ ts, t < 64) (v : Vars) :
    (ts.foldl (roundStep (scheduleArray buf)) v).toWork =
      Fips180.rounds roundConstant (ofBytes buf.toList) v.toWork ts := by
  induction ts generalizing v with
  | nil => rfl
  | cons t ts ih =>
    rw [List.foldl_cons, ih (fun u hu => hts u (by simp [hu])), roundStep_toWork,
        scheduleArray_spec _ _ (hts t (by simp))]
    rfl

/-- `compress` is the standard's compression with the firmware's constants. -/
theorem compress_eq (state : Vector UInt32 8) (buf : Vector UInt8 64) :
    compress state buf = Fips180.compressWith roundConstant state (ofBytes buf.toList) := by
  have hadd : ∀ v : Vars, #v[state[0] + v.a, state[1] + v.b, state[2] + v.c, state[3] + v.d,
      state[4] + v.e, state[5] + v.f, state[6] + v.g, state[7] + v.h] =
      Fips180.addWork state v.toWork := by
    intro v
    simp only [Fips180.addWork, Vars.toWork, UInt32.add_comm]
  have hrounds := rounds_toWork buf (List.range 64) (by simp)
    ⟨state[0], state[1], state[2], state[3], state[4], state[5], state[6], state[7]⟩
  rw [compress, hadd, hrounds]
  rfl

/-! ## §3 Buffer -/

namespace Sha256

/-- The bytes received but not compressed yet. -/
def filled (c : Sha256) : List UInt8 := c.buf.toList.take c.bufLen

@[simp] theorem length_filled (c : Sha256) : c.filled.length = c.bufLen := by
  have := c.bufLen_lt
  simp [filled]
  omega

/-- The standard's compression, with the firmware's constants, on a block
of bytes. -/
def compressBytes (state : Vector UInt32 8) (blk : List UInt8) : Vector UInt32 8 :=
  Fips180.compressWith roundConstant state (ofBytes blk)

/-- A context between two steps and the bytes still to come, absorbed. -/
def absorbed (c : Sha256) (rest : List UInt8) : Vector UInt32 8 × List UInt8 :=
  absorb compressBytes 64 c.state (c.filled ++ rest)

theorem absorbed_nil (c : Sha256) : c.absorbed [] = (c.state, c.filled) := by
  rw [absorbed, List.append_nil]
  exact absorb_short _ _ (by rw [length_filled]; exact c.bufLen_lt)

/-- One iteration of the `while` loop moves bytes from the input to the
buffer, or to the chaining state, without changing what is absorbed. -/
theorem updateStep_absorbed (c : Sha256) (data : List UInt8) (offset : Nat)
    (h : offset < data.length) :
    (c.updateStep data offset).absorbed
        (data.drop (offset + min (64 - c.bufLen) (data.length - offset))) =
      c.absorbed (data.drop offset) := by
  have hlt := c.bufLen_lt
  obtain ⟨copy, hcopy⟩ : ∃ copy, copy = min (64 - c.bufLen) (data.length - offset) := ⟨_, rfl⟩
  obtain ⟨piece, hpiece⟩ : ∃ piece, piece = (data.drop offset).take copy := ⟨_, rfl⟩
  have hlen : piece.length = copy := by rw [hpiece, List.length_take, List.length_drop]; omega
  have hsplit : data.drop offset = piece ++ data.drop (offset + copy) := by
    rw [hpiece, ← List.drop_drop, List.take_append_drop]
  have hbuf : (copyAt c.buf c.bufLen piece).toList.take (c.bufLen + copy) = c.filled ++ piece := by
    rw [← hlen, take_copyAt _ _ _ (by omega)]
    rfl
  rw [← hcopy, hsplit]
  by_cases hfull : c.bufLen + copy = 64
  · -- the buffer is full: what it holds is exactly the next block
    have hstep : c.updateStep data offset =
        { c with state := compress c.state (copyAt c.buf c.bufLen piece),
                 buf := copyAt c.buf c.bufLen piece, bufLen := 0, bufLen_lt := by decide } := by
      rw [updateStep, dif_pos (by rw [← hcopy]; exact hfull)]
      simp only [← hcopy, ← hpiece]
    have hblock : (copyAt c.buf c.bufLen piece).toList = c.filled ++ piece := by
      rw [← hbuf, hfull, List.take_of_length_le (by simp)]
    rw [hstep, absorbed, absorbed, ← List.append_assoc,
        absorb_append (by decide) c.state (c.filled ++ piece),
        absorb_full (by decide) c.state (c.filled ++ piece)
          (by rw [List.length_append, length_filled, hlen, hfull])]
    simp only [filled, List.take_zero, compress_eq, compressBytes] at hblock ⊢
    rw [hblock]
  · have hstep : c.updateStep data offset =
        { c with buf := copyAt c.buf c.bufLen piece, bufLen := c.bufLen + copy,
                 bufLen_lt := by omega } := by
      rw [updateStep, dif_neg (by rw [← hcopy]; exact hfull)]
      simp only [← hcopy, ← hpiece]
    rw [hstep, absorbed, absorbed, ← List.append_assoc]
    simp only [filled] at hbuf ⊢
    rw [hbuf]

theorem updateStep_totalLen (c : Sha256) (data : List UInt8) (offset : Nat) :
    (c.updateStep data offset).totalLen = c.totalLen := by
  rw [updateStep]
  split <;> rfl

/-- The `while` loop absorbs the rest of the slice. -/
theorem updateLoop_absorbed (c : Sha256) (data : List UInt8) (offset : Nat) :
    ((c.updateLoop data offset).state, (c.updateLoop data offset).filled) =
      c.absorbed (data.drop offset) ∧
    (c.updateLoop data offset).totalLen = c.totalLen := by
  fun_induction updateLoop c data offset with
  | case1 c offset h ih =>
    rw [← updateStep_absorbed c data offset h, ← updateStep_totalLen c data offset]
    exact ih
  | case2 c offset h =>
    rw [List.drop_of_length_le (by omega), absorbed_nil]
    exact ⟨rfl, rfl⟩

/-- `update` absorbs its argument. -/
theorem update_spec (c : Sha256) (data : List UInt8) :
    ((c.update data).state, (c.update data).filled) = c.absorbed data ∧
    (c.update data).totalLen = c.totalLen + UInt64.ofNat data.length := by
  have h := updateLoop_absorbed
    { c with totalLen := c.totalLen + UInt64.ofNat data.length } data 0
  rw [List.drop_zero] at h
  exact h

/-- After any sequence of `update` calls the context holds the absorption
of the concatenated chunks, and their total length modulo 2⁶⁴. -/
theorem foldl_update (chunks : List (List UInt8)) :
    ((chunks.foldl update new).state, (chunks.foldl update new).filled) =
      absorb compressBytes 64 H chunks.flatten ∧
    (chunks.foldl update new).totalLen = UInt64.ofNat chunks.flatten.length := by
  induction chunks using List.reverseRecOn with
  | nil => exact ⟨(absorb_short _ _ (by decide)).symm, rfl⟩
  | append_singleton chunks data ih =>
    obtain ⟨hstate, htotal⟩ := ih
    obtain ⟨hs, ht⟩ := update_spec (chunks.foldl update new) data
    rw [List.foldl_append, List.foldl_cons, List.foldl_nil, List.flatten_append,
        List.flatten_singleton, absorb_append (by decide), ← hstate]
    refine ⟨hs, ?_⟩
    rw [ht, htotal, List.length_append]
    exact UInt64.ofNat_add .. |>.symm

/-! ## §4 Padding -/

/-- The eight length bytes `finish` appends. -/
def lengthBytes (totalBits : UInt64) : List UInt8 :=
  (List.range 8).map fun i => ((totalBits >>> (56 - UInt64.ofNat i * 8)) &&& 0xFF).toUInt8

/-- What the padding appends to a message that leaves `r` buffered bytes. -/
def padTail (r : Nat) (totalBits : UInt64) : List UInt8 :=
  0x80 :: List.replicate ((119 - r) % 64) 0 ++ lengthBytes totalBits

/-- A full buffer written by one copy is that copy behind the filled part. -/
theorem toList_copyAt_full (c : Sha256) (src : List UInt8) (h : c.bufLen + src.length = 64) :
    (copyAt c.buf c.bufLen src).toList = c.filled ++ src := by
  rw [toList_copyAt _ _ _ (by omega), h, List.drop_of_length_le (by simp), List.append_nil]
  rfl

/-- `finish` compresses the buffered bytes with the padding behind them. -/
theorem finish_absorbed (c : Sha256) :
    c.finish = digest (c.absorbed (padTail c.bufLen (c.totalLen * 8))).1 := by
  have hlt := c.bufLen_lt
  have hlen : (lengthBytes (c.totalLen * 8)).length = 8 := by simp [lengthBytes]
  have hput : ∀ buf : Vector UInt8 64,
      putLength buf (c.totalLen * 8) = copyAt buf 56 (lengthBytes (c.totalLen * 8)) :=
    fun buf => foldl_set!_eq_copyAt _ 56 buf 8
  rw [finish, padMarker]
  by_cases hmark : c.bufLen + 1 > 56
  · -- the length does not fit behind the marker: two final blocks
    have hfirst : (copyAt c.buf c.bufLen (0x80 :: List.replicate (63 - c.bufLen) 0)).toList =
        c.filled ++ 0x80 :: List.replicate (63 - c.bufLen) 0 :=
      toList_copyAt_full c _ (by simp; omega)
    have hsplit : c.filled ++ padTail c.bufLen (c.totalLen * 8) =
        (c.filled ++ 0x80 :: List.replicate (63 - c.bufLen) 0) ++
          (List.replicate 56 0 ++ lengthBytes (c.totalLen * 8)) := by
      rw [padTail, show (119 - c.bufLen) % 64 = (63 - c.bufLen) + 56 by omega, List.replicate_add]
      simp
    have hsecond : ∀ buf : Vector UInt8 64,
        (copyAt (copyAt buf 0 (List.replicate 56 0)) 56 (lengthBytes (c.totalLen * 8))).toList =
          List.replicate 56 0 ++ lengthBytes (c.totalLen * 8) := by
      intro buf
      rw [toList_copyAt _ _ _ (by omega), hlen, List.drop_of_length_le (by simp), List.append_nil,
          toList_copyAt _ _ _ (by simp)]
      simp
    rw [absorbed, hsplit, absorb_append (by decide),
        absorb_full (by decide) c.state _ (by simp; omega), List.nil_append,
        absorb_full (by decide) _ _ (by simp [hlen])]
    rw [if_pos hmark]
    simp only [hput, fillZero, compress_eq, Nat.sub_zero, hsecond, compressBytes]
    rw [show 64 - (c.bufLen + 1) = 63 - c.bufLen by omega]
    rw [copyAt] at hfirst
    rw [hfirst]
  · have hsplit : padTail c.bufLen (c.totalLen * 8) =
        0x80 :: List.replicate (55 - c.bufLen) 0 ++ lengthBytes (c.totalLen * 8) := by
      rw [padTail, show (119 - c.bufLen) % 64 = 55 - c.bufLen by omega]
    have hbuf : copyAt (copyAt (c.buf.set! c.bufLen 0x80) (c.bufLen + 1)
        (List.replicate (55 - c.bufLen) 0)) 56 (lengthBytes (c.totalLen * 8)) =
        copyAt c.buf c.bufLen (0x80 :: List.replicate (55 - c.bufLen) 0 ++
          lengthBytes (c.totalLen * 8)) := by
      rw [copyAt_append, copyAt]
      simp only [List.length_cons, List.length_replicate]
      rw [show c.bufLen + (55 - c.bufLen + 1) = 56 by omega]
    rw [absorbed, hsplit, absorb_full (by decide) c.state _ (by simp [hlen]; omega), if_neg hmark]
    simp only [hput, fillZero, compress_eq, compressBytes]
    rw [show 56 - (c.bufLen + 1) = 55 - c.bufLen by omega, hbuf,
        toList_copyAt_full c _ (by simp [hlen]; omega)]

/-- One byte of a `u64`, shifted out. -/
theorem toBits_shiftByte (v : UInt64) (k : UInt64) (hk : k.toNat < 64) :
    toBits 8 ((v >>> k) &&& 0xFF).toUInt8.toNat = toBits 8 (v.toNat / 2 ^ k.toNat) := by
  have hval : ((v >>> k) &&& 0xFF).toUInt8.toNat = v.toNat / 2 ^ k.toNat % 2 ^ 8 := by
    rw [UInt64.toNat_toUInt8, UInt64.toNat_and, UInt64.toNat_shiftRight, Nat.mod_eq_of_lt hk,
        Nat.shiftRight_eq_div_pow, show (0xFF : UInt64).toNat = 2 ^ 8 - 1 from rfl,
        Nat.and_two_pow_sub_one_eq_mod, Nat.mod_mod]
  rw [hval, toBits_mod (by decide)]

/-- The length bytes are the 64-bit representation of the length. -/
theorem ofBytes_lengthBytes (v : UInt64) : ofBytes (lengthBytes v) = toBits 64 v.toNat := by
  have hparts : ∀ n : Nat, toBits 64 n =
      toBits 8 (n / 2 ^ 56) ++ (toBits 8 (n / 2 ^ 48) ++ (toBits 8 (n / 2 ^ 40) ++
      (toBits 8 (n / 2 ^ 32) ++ (toBits 8 (n / 2 ^ 24) ++ (toBits 8 (n / 2 ^ 16) ++
      (toBits 8 (n / 2 ^ 8) ++ toBits 8 n)))))) := by
    intro n
    rw [toBits_add 8 56, toBits_add 8 48, toBits_add 8 40, toBits_add 8 32, toBits_add 8 24,
        toBits_add 8 16, toBits_add 8 8]
  rw [hparts, lengthBytes, show List.range 8 = [0, 1, 2, 3, 4, 5, 6, 7] from rfl]
  simp only [List.map_cons, List.map_nil, ofBytes_cons, ofBytes_nil, List.append_nil]
  rw [toBits_shiftByte _ _ (by decide), toBits_shiftByte _ _ (by decide),
      toBits_shiftByte _ _ (by decide), toBits_shiftByte _ _ (by decide),
      toBits_shiftByte _ _ (by decide), toBits_shiftByte _ _ (by decide),
      toBits_shiftByte _ _ (by decide), toBits_shiftByte _ _ (by decide)]
  simp

/-- The byte padding is the standard's bit padding. -/
theorem ofBytes_pad (m : List UInt8) (hm : m.length < 2 ^ 61) :
    ofBytes (m ++ padTail (m.length % 64) (UInt64.ofNat m.length * 8)) =
      Fips180.pad (ofBytes m) := by
  have hbits : (UInt64.ofNat m.length * 8).toNat = 8 * m.length := by
    rw [UInt64.toNat_mul, UInt64.toNat_ofNat_of_lt' (by simp [UInt64.size]; omega)]
    simp
    omega
  have hzeros : Fips180.padZeros (8 * m.length) = 7 + 8 * ((119 - m.length % 64) % 64) := by
    unfold Fips180.padZeros
    omega
  rw [Fips180.pad, length_ofBytes, hzeros, ofBytes_append, padTail, ofBytes_append, ofBytes_cons,
      ofBytes_replicate_zero, ofBytes_lengthBytes, hbits, List.replicate_add]
  simp only [List.append_assoc, List.cons_append]
  rfl

/-! ## §5 Digest -/

/-- One state word as `finish` writes it. -/
def wordBytes (w : UInt32) : List UInt8 :=
  [((w >>> 24) &&& 0xFF).toUInt8, ((w >>> 16) &&& 0xFF).toUInt8,
   ((w >>> 8) &&& 0xFF).toUInt8, (w &&& 0xFF).toUInt8]

theorem ofBytes_wordBytes (w : UInt32) : ofBytes (wordBytes w) = toBits 32 w.toNat := by
  have hbyte : ∀ k : UInt32, k.toNat < 32 →
      toBits 8 ((w >>> k) &&& 0xFF).toUInt8.toNat = toBits 8 (w.toNat / 2 ^ k.toNat) := by
    intro k hk
    have hval : ((w >>> k) &&& 0xFF).toUInt8.toNat = w.toNat / 2 ^ k.toNat % 2 ^ 8 := by
      rw [UInt32.toNat_toUInt8, UInt32.toNat_and, UInt32.toNat_shiftRight, Nat.mod_eq_of_lt hk,
          Nat.shiftRight_eq_div_pow, show (0xFF : UInt32).toNat = 2 ^ 8 - 1 from rfl,
          Nat.and_two_pow_sub_one_eq_mod, Nat.mod_mod]
    rw [hval, toBits_mod (by decide)]
  have hlow := hbyte 0 (by decide)
  rw [show w >>> 0 = w from UInt32.shiftRight_zero] at hlow
  rw [toBits_add 8 24, toBits_add 8 16, toBits_add 8 8, wordBytes, ofBytes_cons, ofBytes_cons,
      ofBytes_cons, ofBytes_cons, ofBytes_nil, List.append_nil, hbyte 24 (by decide),
      hbyte 16 (by decide), hbyte 8 (by decide), hlow]
  simp

/-- The output loop writes the state words one behind the other. -/
theorem digest_eq_copyAt (state : Vector UInt32 8) :
    digest state =
      copyAt (Vector.replicate 32 0) 0 ((List.range 8).flatMap fun i => wordBytes state[i]!) := by
  have hlen : ∀ is : List Nat, (is.flatMap fun i => wordBytes state[i]!).length = 4 * is.length := by
    intro is
    induction is with
    | nil => rfl
    | cons i is ih => rw [List.flatMap_cons, List.length_append, ih]; simp [wordBytes]; omega
  have hloop : ∀ n, (List.range n).foldl
      (fun hash i => copyAt hash (i * 4) (wordBytes state[i]!)) (Vector.replicate 32 0) =
      copyAt (Vector.replicate 32 0) 0 ((List.range n).flatMap fun i => wordBytes state[i]!) := by
    intro n
    induction n with
    | zero => rfl
    | succ n ih =>
      rw [List.range_succ, List.foldl_append, ih, List.flatMap_append, copyAt_append, hlen]
      simp [Nat.mul_comm]
  exact hloop 8

/-- The digest bytes are the bits of the final hash value. -/
theorem ofBytes_digest (state : Vector UInt32 8) :
    ofBytes (digest state).toList = Fips180.digestBits state := by
  have hwords : state.toList = (List.range 8).map fun i => state[i]! := by
    apply List.ext_getElem (by simp)
    intro i h₁ h₂
    rw [List.getElem_map, List.getElem_range, Vector.getElem_toList, getElem!_pos]
  have hbytes : ∀ ws : List UInt32,
      ofBytes (ws.flatMap wordBytes) = ws.flatMap fun w => toBits 32 w.toNat := by
    intro ws
    induction ws with
    | nil => rfl
    | cons w ws ih => rw [List.flatMap_cons, ofBytes_append, ofBytes_wordBytes, ih, List.flatMap_cons]
  have hflat : (List.range 8).flatMap (fun i => wordBytes state[i]!) = state.toList.flatMap wordBytes := by
    rw [hwords, List.flatMap_map]
  rw [digest_eq_copyAt, hflat, toList_copyAt _ _ _ (by simp [hwords, wordBytes, List.range_succ]),
      List.take_zero, List.nil_append, List.drop_of_length_le (by simp [hwords, wordBytes, List.range_succ]),
      List.append_nil, hbytes]
  rfl

/-- Blocks of bytes are the standard's blocks of bits. -/
theorem blocks_ofBytes (bs : List UInt8) :
    blocks 512 (ofBytes bs) = (blocks 64 bs).map ofBytes := by
  have hdiv : 8 * bs.length / 512 = bs.length / 64 := by omega
  simp only [blocks, length_ofBytes, hdiv, List.map_map, List.map_inj_left, Function.comp_apply]
  intro i _
  rw [block, block, ofBytes_take, ofBytes_drop, ← Nat.mul_assoc]

/-- **What flashboot computes**: for every message below 2⁶¹ bytes and every
cut into chunks, the digest is the standard's hash computation over the
concatenated message with the firmware's constants. -/
theorem finish_update (chunks : List (List UInt8)) (h : chunks.flatten.length < 2 ^ 61) :
    ofBytes (chunks.foldl update new).finish.toList =
      Fips180.sha256With roundConstant (ofBytes chunks.flatten) := by
  obtain ⟨hstate, htotal⟩ := foldl_update chunks
  have hres : (chunks.foldl update new).bufLen = chunks.flatten.length % 64 := by
    rw [← length_filled, ← residue_length (f := compressBytes) (by decide : 0 < 64) H chunks.flatten,
        ← hstate]
  have hdvd : 64 ∣ (chunks.flatten ++
      padTail (chunks.flatten.length % 64) (UInt64.ofNat chunks.flatten.length * 8)).length := by
    have hpad := Fips180.dvd_length_pad (ofBytes chunks.flatten)
    rw [← ofBytes_pad _ h, length_ofBytes] at hpad
    omega
  have hfold : ∀ (bs : List (List UInt8)) (s : Vector UInt32 8), bs.foldl compressBytes s =
      (bs.map ofBytes).foldl (Fips180.compressWith roundConstant) s := by
    intro bs s
    rw [List.foldl_map]
    rfl
  have happ := absorb_append (f := compressBytes) (by decide : 0 < 64) H chunks.flatten
    (padTail (chunks.flatten.length % 64) (UInt64.ofNat chunks.flatten.length * 8))
  rw [← hstate] at happ
  rw [finish_absorbed, hres, htotal, absorbed, ← happ, absorb_eq_foldl (by decide) _ _ hdvd, hfold,
      ← blocks_ofBytes, ofBytes_pad _ h, ofBytes_digest, H_eq]
  rfl

/-- The digest depends on the message alone, not on the cut. -/
theorem finish_foldl_update (chunks : List (List UInt8)) (h : chunks.flatten.length < 2 ^ 61) :
    (chunks.foldl update new).finish = (new.update chunks.flatten).finish := by
  have hone := finish_update [chunks.flatten] (by simpa using h)
  have hmany := finish_update chunks h
  simp only [List.flatten_singleton, List.foldl_cons, List.foldl_nil] at hone
  exact Vector.toList_inj.mp (ofBytes_injective (hmany.trans hone.symm))

end Sha256

/-! ## §6 The mistyped constant -/

/-- From one chaining value the two compressions of a block always differ. -/
theorem compressWith_roundConstant_ne (s : Vector UInt32 8) (blk : Bits) :
    Fips180.compressWith roundConstant s blk ≠ Fips180.compressWith Fips180.K s blk := by
  refine Fips180.compressWith_ne 52 (by decide) ?_ (fun t ht h => roundConstant_eq ht h) s blk
  rw [roundConstant_52.1, roundConstant_52.2]
  decide

theorem roundConstant_eq_iff {t : Nat} (h : t < 64) : roundConstant t = Fips180.K t ↔ t ≠ 52 := by
  refine ⟨?_, roundConstant_eq h⟩
  rintro heq rfl
  rw [roundConstant_52.1, roundConstant_52.2] at heq
  exact absurd heq (by decide)

/-- A message of at most 55 bytes pads to one block, which both hashes compress
from `H⁽⁰⁾`. -/
theorem sha256With_roundConstant_ne {M : Bits} (h : M.length < 448) :
    Fips180.sha256With roundConstant M ≠ Fips180.sha256 M := by
  have hpad : (Fips180.pad M).length = 512 := by
    simp only [Fips180.pad, Fips180.padZeros, List.length_append, List.length_cons,
      List.length_replicate, length_toBits]
    omega
  have hblocks : blocks 512 (Fips180.pad M) = [block 512 (Fips180.pad M) 0] := by
    rw [blocks, hpad]
    rfl
  intro heq
  unfold Fips180.sha256 Fips180.sha256With at heq
  rw [Fips180.digestBits_injective.eq_iff, hblocks, List.foldl_cons, List.foldl_nil, List.foldl_cons,
      List.foldl_nil] at heq
  exact compressWith_roundConstant_ne _ _ heq

/-- **The flashboot digest.** For every message below 2⁶¹ bytes and every cut
into chunks, `finish` is the hash computation of FIPS 180-4 over the message
with the table of the firmware, which differs from the standard's in entry 52
alone. That one entry suffices: no message of at most 55 bytes has its SHA-256
digest, and no block is compressed to what the standard makes of it. -/
theorem finish_law (chunks : List (List UInt8)) (h : chunks.flatten.length < 2 ^ 61) :
    ofBytes (chunks.foldl Sha256.update Sha256.new).finish.toList =
        Fips180.sha256With roundConstant (ofBytes chunks.flatten) ∧
      (chunks.foldl Sha256.update Sha256.new).finish = (Sha256.new.update chunks.flatten).finish ∧
      (∀ t < 64, roundConstant t = Fips180.K t ↔ t ≠ 52) ∧
      (∀ s blk, Fips180.compressWith roundConstant s blk ≠ Fips180.compressWith Fips180.K s blk) ∧
      (chunks.flatten.length ≤ 55 →
        ofBytes (chunks.foldl Sha256.update Sha256.new).finish.toList ≠
          Fips180.sha256 (ofBytes chunks.flatten)) := by
  have hfinish := Sha256.finish_update chunks h
  refine ⟨hfinish, Sha256.finish_foldl_update chunks h, fun t ht => roundConstant_eq_iff ht,
    compressWith_roundConstant_ne, fun hshort => ?_⟩
  rw [hfinish]
  exact sha256With_roundConstant_ne (by rw [length_ofBytes]; omega)

/-- Seventy bytes in three chunks, one of them empty: two blocks, the second of
which holds the end of the padding. -/
theorem finish_law_twoBlocks :
    ofBytes ([List.replicate 60 0x61, [], List.replicate 10 0x62].foldl Sha256.update
        Sha256.new).finish.toList =
      Fips180.sha256With roundConstant
        (ofBytes (List.replicate 60 0x61 ++ List.replicate 10 0x62)) :=
  (finish_law [List.replicate 60 0x61, [], List.replicate 10 0x62] (by decide)).1

/-- The empty message: not the standard's digest. -/
theorem finish_empty_ne_sha256 :
    ¬ ∀ chunks : List (List UInt8), chunks.flatten.length < 2 ^ 61 →
      ofBytes (chunks.foldl Sha256.update Sha256.new).finish.toList =
        Fips180.sha256 (ofBytes chunks.flatten) := by
  intro hall
  have hempty := hall [] (by decide)
  rw [Sha256.finish_update [] (by decide)] at hempty
  exact sha256With_roundConstant_ne (by decide) hempty

end HisiRiscv.Flashboot
