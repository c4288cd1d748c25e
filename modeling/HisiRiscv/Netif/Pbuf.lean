/-
HisiRiscv.Netif.Pbuf — the packet buffers of `netif.rs`.

`pbuf_alloc` puts a header, 80 bytes of headroom, the packet and 4 bytes of tailroom in one
allocation, and `pbuf_header` moves the start of the packet in it. What a move may not pass is
computed from `malloc_len`, the size of the allocation in 16 bits.

Translation notes. `osal_kmalloc` is a parameter, the address it returns for a size; null
is 0. Addresses are those of the SRAM, and sums of them are taken in ℤ. The paddings of
the structure are left out.

  §1 Allocation.
  §2 Moving the payload.
  §3 The window.
  §4 Main results.
-/
import Mathlib.Algebra.Ring.Int.Defs

namespace HisiRiscv.Netif

/-! ## §1 Allocation -/

structure Pbuf where
  next : ℤ
  payload : ℤ
  totLen : UInt16
  len : UInt16
  list : ℤ
  mallocLen : UInt16
  typeInternal : UInt8
  flags : UInt16
  refCount : Int32
  ifIdx : UInt8
  priority : UInt8
  deriving DecidableEq

def pbufHdr : ℕ := 32
def pbufZeroCopyReserve : ℕ := 80
def pbufZeroCopyTailroom : ℕ := 4
def pbufTypeRam : UInt8 := 0x80
def netifNoIndex : UInt8 := 0

/-- The size of the allocation. -/
def pbufTotal (length : UInt16) : ℕ :=
  pbufHdr + pbufZeroCopyReserve + length.toNat + pbufZeroCopyTailroom

/-- `pbuf_alloc`: the address of the buffer, and what is written there. -/
def pbufAlloc (kmalloc : ℕ → ℤ) (length : UInt16) : Option (ℤ × Pbuf) :=
  let total := pbufTotal length
  let raw := kmalloc total
  if raw = 0 then none
  else some (raw,
    { next := 0
      payload := raw + (pbufHdr + pbufZeroCopyReserve : ℕ)
      totLen := length
      len := length
      list := 0
      mallocLen := UInt16.ofNat total
      typeInternal := pbufTypeRam
      flags := 0
      refCount := 1
      ifIdx := netifNoIndex
      priority := 0 })

/-! ## §2 Moving the payload -/

/-- `pbuf_header`. -/
def pbufHeader (p : ℤ) (b : Pbuf) (headerSize : Int16) : UInt8 × Pbuf :=
  if p = 0 then (1, b)
  else
    let newLen : ℤ := b.len.toNat + headerSize.toInt
    let newTotLen : ℤ := b.totLen.toNat + headerSize.toInt
    let newPayload := b.payload - headerSize.toInt
    let base := p + pbufHdr
    let stop := p + b.mallocLen.toNat
    if newLen < 0 ∨ newLen > 65535 ∨ newTotLen < 0 ∨ newTotLen > 65535 ∨ newPayload < base ∨
        newPayload + newLen > stop then (1, b)
    else (0, { b with
      payload := newPayload
      len := UInt16.ofNat newLen.toNat
      totLen := UInt16.ofNat newTotLen.toNat })

/-- The buffer after calls of `pbuf_header`. -/
def afterHeaders (p : ℤ) (b : Pbuf) (sizes : List Int16) : Pbuf :=
  sizes.foldl (fun b size => (pbufHeader p b size).2) b

/-! ## §3 The window -/

/-- The bytes between two addresses are packet bytes of the allocation. -/
def InArea (p : ℤ) (length : UInt16) (start stop : ℤ) : Prop :=
  p + pbufHdr ≤ start ∧ start ≤ stop ∧ stop ≤ p + pbufTotal length

/-- What every move keeps: the end of the packet, and its start behind the header. -/
structure Window (p : ℤ) (length : UInt16) (b : Pbuf) : Prop where
  totLen : b.totLen = b.len
  mallocLen : b.mallocLen = UInt16.ofNat (pbufTotal length)
  stop : b.payload + b.len.toNat = p + pbufTotal length - pbufZeroCopyTailroom
  start : p + pbufHdr ≤ b.payload

/-- The moved packet lies in the area, and its length in 16 bits. -/
def Moves (p : ℤ) (length : UInt16) (b : Pbuf) (headerSize : Int16) : Prop :=
  0 ≤ (b.len.toNat : ℤ) + headerSize.toInt ∧ (b.len.toNat : ℤ) + headerSize.toInt ≤ 65535 ∧
    InArea p length (b.payload - headerSize.toInt)
      (b.payload - headerSize.toInt + (b.len.toNat + headerSize.toInt))

instance (p : ℤ) (length : UInt16) (start stop : ℤ) : Decidable (InArea p length start stop) :=
  inferInstanceAs (Decidable (_ ∧ _ ∧ _))

instance (p : ℤ) (length : UInt16) (b : Pbuf) (headerSize : Int16) :
    Decidable (Moves p length b headerSize) :=
  inferInstanceAs (Decidable (_ ∧ _ ∧ _))

variable {p : ℤ} {length : UInt16} {b : Pbuf} {kmalloc : ℕ → ℤ} {headerSize : Int16}

theorem window_pbufAlloc (h : pbufAlloc kmalloc length = some (p, b)) : p ≠ 0 ∧ Window p length b := by
  simp only [pbufAlloc] at h
  split_ifs at h with hnull
  cases h
  refine ⟨hnull, rfl, rfl, ?_, ?_⟩
  · simp only [pbufTotal, pbufHdr, pbufZeroCopyReserve, pbufZeroCopyTailroom]
    omega
  · simp only [pbufHdr, pbufZeroCopyReserve]
    omega

/-- The buffer with its payload moved. -/
def Pbuf.moved (b : Pbuf) (headerSize : Int16) : Pbuf :=
  { b with
    payload := b.payload - headerSize.toInt
    len := UInt16.ofNat ((b.len.toNat : ℤ) + headerSize.toInt).toNat
    totLen := UInt16.ofNat ((b.totLen.toNat : ℤ) + headerSize.toInt).toNat }

/-- What the code tests, where both lengths are one. -/
def Passes (p : ℤ) (b : Pbuf) (headerSize : Int16) : Prop :=
  0 ≤ (b.len.toNat : ℤ) + headerSize.toInt ∧ (b.len.toNat : ℤ) + headerSize.toInt ≤ 65535 ∧
    p + pbufHdr ≤ b.payload - headerSize.toInt ∧ b.payload + b.len.toNat ≤ p + b.mallocLen.toNat

theorem pbufHeader_of_passes (hp : p ≠ 0) (htot : b.totLen = b.len) (h : Passes p b headerSize) :
    pbufHeader p b headerSize = (0, b.moved headerSize) := by
  obtain ⟨hmin, hmax, hstart, hstop⟩ := h
  simp only [pbufHeader, if_neg hp, htot]
  rw [if_neg (by omega), Pbuf.moved, htot]

theorem pbufHeader_of_not_passes (htot : b.totLen = b.len) (h : ¬ Passes p b headerSize) :
    pbufHeader p b headerSize = (1, b) := by
  unfold pbufHeader
  split
  · rfl
  · dsimp only
    rw [htot]
    refine if_pos ?_
    by_contra hall
    refine h ⟨?_, ?_, ?_, ?_⟩ <;> omega

theorem pbufHeader_fst_eq_zero_iff (hp : p ≠ 0) (htot : b.totLen = b.len) :
    (pbufHeader p b headerSize).1 = 0 ↔ Passes p b headerSize := by
  by_cases h : Passes p b headerSize
  · simp [pbufHeader_of_passes hp htot h, h]
  · simp [pbufHeader_of_not_passes htot h, h]

theorem toNat_len_moved (h : Passes p b headerSize) :
    ((b.moved headerSize).len.toNat : ℤ) = b.len.toNat + headerSize.toInt := by
  obtain ⟨hmin, hmax, -, -⟩ := h
  have hlen : (b.moved headerSize).len.toNat = ((b.len.toNat : ℤ) + headerSize.toInt).toNat := by
    rw [Pbuf.moved, UInt16.toNat_ofNat']
    exact Nat.mod_eq_of_lt (by omega)
  rw [hlen, Int.toNat_of_nonneg hmin]

theorem Window.moved (hw : Window p length b) (h : Passes p b headerSize) :
    Window p length (b.moved headerSize) where
  totLen := by
    simp only [Pbuf.moved, hw.totLen]
  mallocLen := hw.mallocLen
  stop := by
    rw [toNat_len_moved h, ← hw.stop]
    show b.payload - headerSize.toInt + _ = _
    omega
  start := h.2.2.1

theorem Window.pbufHeader (hp : p ≠ 0) (hw : Window p length b) (headerSize : Int16) :
    Window p length (pbufHeader p b headerSize).2 := by
  by_cases h : Passes p b headerSize
  · rw [pbufHeader_of_passes hp hw.totLen h]
    exact hw.moved h
  · rw [pbufHeader_of_not_passes hw.totLen h]
    exact hw

theorem Window.afterHeaders (hp : p ≠ 0) (hw : Window p length b) (sizes : List Int16) :
    Window p length (afterHeaders p b sizes) := by
  induction sizes generalizing b with
  | nil => exact hw
  | cons size sizes ih => exact ih (hw.pbufHeader hp size)

/-- The other move leads back. -/
theorem moved_moved (hw : Window p length b) (h : Passes p b headerSize) {back : Int16}
    (hback : back.toInt = -headerSize.toInt) : (b.moved headerSize).moved back = b := by
  have hpayload : b.payload - headerSize.toInt - back.toInt = b.payload := by omega
  have hlen : UInt16.ofNat ((b.moved headerSize).len.toNat + back.toInt).toNat = b.len := by
    rw [toNat_len_moved h, hback, Int.add_neg_cancel_right, Int.toNat_natCast, UInt16.ofNat_toNat]
  have htot : UInt16.ofNat ((b.moved headerSize).totLen.toNat + back.toInt).toNat = b.totLen := by
    rw [(hw.moved h).totLen, hlen, hw.totLen]
  calc (b.moved headerSize).moved back
      = { b with
          payload := b.payload - headerSize.toInt - back.toInt
          len := UInt16.ofNat ((b.moved headerSize).len.toNat + back.toInt).toNat
          totLen := UInt16.ofNat ((b.moved headerSize).totLen.toNat + back.toInt).toNat } := rfl
    _ = b := by rw [hpayload, hlen, htot]

theorem passes_back (hw : Window p length b) (h : Passes p b headerSize) {back : Int16}
    (hback : back.toInt = -headerSize.toInt) : Passes p (b.moved headerSize) back := by
  have hlt := b.len.toNat_lt
  have hstart := hw.start
  have hstop := h.2.2.2
  rw [Passes, toNat_len_moved h, hback]
  refine ⟨by omega, by omega, ?_, ?_⟩
  · show p + pbufHdr ≤ b.payload - headerSize.toInt - -headerSize.toInt
    omega
  · show b.payload - headerSize.toInt + _ ≤ p + b.mallocLen.toNat
    omega

/-! ## §4 Main results -/

/-- The window lies in the packet area, and a call moves it exactly where it still would. -/
structure PbufLaw (p : ℤ) (length : UInt16) (b : Pbuf) : Prop where
  inside : InArea p length b.payload (b.payload + b.len.toNat)
  totLen : b.totLen = b.len
  moves : ∀ headerSize, (pbufHeader p b headerSize).1 = 0 ↔ Moves p length b headerSize
  restores : ∀ headerSize back : Int16, back.toInt = -headerSize.toInt →
    (pbufHeader p b headerSize).1 = 0 →
    pbufHeader p (pbufHeader p b headerSize).2 back = (0, b)
  refuses : ∀ headerSize, (pbufHeader p b headerSize).1 ≠ 0 →
    pbufHeader p b headerSize = (1, b)

/-- The size of the allocation fits 16 bits. -/
theorem toNat_mallocLen (hw : Window p length b) (hlen : length.toNat ≤ 65419) :
    b.mallocLen.toNat = pbufTotal length := by
  rw [hw.mallocLen, UInt16.toNat_ofNat']
  refine Nat.mod_eq_of_lt ?_
  simp only [pbufTotal, pbufHdr, pbufZeroCopyReserve, pbufZeroCopyTailroom]
  omega

theorem moves_iff_passes (hw : Window p length b) (hmalloc : b.mallocLen.toNat = pbufTotal length) :
    Moves p length b headerSize ↔ Passes p b headerSize := by
  have hstop := hw.stop
  simp only [Moves, InArea, Passes, hmalloc, pbufZeroCopyTailroom] at *
  omega

theorem Window.law (hp : p ≠ 0) (hw : Window p length b) (hlen : length.toNat ≤ 65419) :
    PbufLaw p length b where
  inside := by
    have hstop := hw.stop
    refine ⟨hw.start, by omega, ?_⟩
    simp only [pbufZeroCopyTailroom] at hstop
    omega
  totLen := hw.totLen
  moves := fun headerSize =>
    (pbufHeader_fst_eq_zero_iff hp hw.totLen).trans
      (moves_iff_passes hw (toNat_mallocLen hw hlen)).symm
  restores := by
    intro headerSize back hback hzero
    have h := (pbufHeader_fst_eq_zero_iff hp hw.totLen).mp hzero
    have hmoved := hw.moved h
    rw [pbufHeader_of_passes hp hw.totLen h, pbufHeader_of_passes hp hmoved.totLen
      (passes_back hw h hback), moved_moved hw h hback]
  refuses := by
    intro headerSize hne
    exact pbufHeader_of_not_passes hw.totLen fun h =>
      hne ((pbufHeader_fst_eq_zero_iff hp hw.totLen).mpr h)

/-- The law holds after every sequence of calls, for each length whose allocation has a size of
16 bits; for a longer packet not even a move by 0 is accepted. -/
theorem pbuf_law_iff (h : pbufAlloc kmalloc length = some (p, b)) :
    (∀ sizes, PbufLaw p length (afterHeaders p b sizes)) ↔ length.toNat ≤ 65419 := by
  obtain ⟨hp, hw⟩ := window_pbufAlloc h
  constructor
  · intro hlaw
    by_contra hlong
    have hlt := length.toNat_lt
    have hmalloc : b.mallocLen.toNat + 65536 = pbufTotal length := by
      rw [hw.mallocLen, UInt16.toNat_ofNat']
      simp only [pbufTotal, pbufHdr, pbufZeroCopyReserve, pbufZeroCopyTailroom]
      omega
    have hstart := hw.start
    have hstop := hw.stop
    have hlen := b.len.toNat_lt
    have hzero : (0 : Int16).toInt = 0 := rfl
    have hmoves : Moves p length b 0 := by
      simp only [Moves, InArea, hzero, pbufZeroCopyTailroom] at *
      omega
    have hpasses : Passes p b 0 :=
      (pbufHeader_fst_eq_zero_iff hp hw.totLen).mp (((hlaw []).moves 0).mpr hmoves)
    have hend := hpasses.2.2.2
    simp only [pbufZeroCopyTailroom] at hstop
    omega
  · intro hlen sizes
    exact (hw.afterHeaders hp sizes).law hp hlen

theorem pbuf_law_mtu : PbufLaw 0xa10000 1500 (afterHeaders 0xa10000
    ((pbufAlloc (fun _ => 0xa10000) 1500).get rfl).2 [-14, 14]) :=
  (pbuf_law_iff (show pbufAlloc (fun _ => 0xa10000) 1500 = some (_, _) from rfl)).mpr (by decide) _

/-- A packet of 65420 bytes: `malloc_len` is 0, and a move by 0 is refused. -/
theorem not_pbuf_law : ¬ ∀ (kmalloc : ℕ → ℤ) length p b, pbufAlloc kmalloc length = some (p, b) →
    ∀ sizes, PbufLaw p length (afterHeaders p b sizes) := by
  intro h
  have hlaw := h (fun _ => 0xa10000) 65420 _ _ rfl []
  have hmoves := (hlaw.moves 0).mpr (by decide)
  exact absurd hmoves (by decide)

end HisiRiscv.Netif
