/-
HisiRiscv.Hil.FlashPlanTheorems — an accepted plan programs its image, and every plan
that tiles its image is accepted.

The chunks of an accepted plan, sorted, are walked through from 0 to the end of
the image, so each byte lies in exactly one of them (`Tiling.countP_of_walk`), in any
order of writing. Conversely sorting finds a tiling in each of its permutations.

  §1 The checks.
  §2 Writing.
  §3 Soundness.
  §4 Completeness.
-/
import Mathlib.Algebra.BigOperators.Ring.Finset
import HisiRiscv.Hil.FlashPlan

namespace HisiRiscv.Hil.FlashPlan

open HisiRiscv.Tiling

/-! ## §1 The checks -/

section Checks

theorem bind_eq_ok {ε α β : Type} {x : Except ε α} {f : α → Except ε β} {b : β} :
    (x >>= f) = .ok b ↔ ∃ a, x = .ok a ∧ f a = .ok b := by
  cases x with
  | error e =>
    constructor
    · intro h
      cases h
    · rintro ⟨a, h, -⟩
      cases h
  | ok a =>
    constructor
    · intro h
      exact ⟨a, rfl, h⟩
    · rintro ⟨a', h, hf⟩
      cases h
      exact hf

theorem check_eq_ok {ok : Bool} {message : String} {u : Unit} :
    check ok message = .ok u ↔ ok = true := by
  cases ok
  · exact iff_of_false (by intro h; cases h) Bool.false_ne_true
  · exact iff_of_true rfl rfl

theorem requireRange_eq_ok {value : Json} {name : String} {start length : ℤ} :
    requireRange value name = .ok (start, length) ↔
      asRange value (if name = "body_range" then "image_offset" else "start") =
          some (start, length) ∧ 0 ≤ start ∧ 0 < length := by
  unfold requireRange asRange
  cases value with
  | object fields =>
    dsimp only
    split
    · rename_i start' length' _ _
      split
      · rename_i hbad
        constructor
        · intro h
          cases h
        · rintro ⟨h, h0, hl⟩
          cases h
          omega
      · constructor
        · intro h
          cases h
          exact ⟨rfl, by omega, by omega⟩
        · rintro ⟨h, -, -⟩
          cases h
          rfl
    · simp
  | _ => simp

theorem requireBase_eq_ok {value : Json} {expected : Option ℤ} {base : ℤ} :
    requireBase value expected = .ok base ↔
      value.asInt = some base ∧ 0 ≤ base ∧ ∀ e ∈ expected, e = base := by
  unfold requireBase
  split
  · rename_i h
    simp [h]
  · rename_i base' h
    simp only [h, Option.some.injEq]
    constructor
    · intro hok
      split at hok
      · cases hok
      · split at hok
        · cases hok
        · rename_i hneg hany
          cases hok
          refine ⟨rfl, by omega, ?_⟩
          rintro e rfl
          simpa using hany
    · rintro ⟨rfl, hnonneg, hall⟩
      have hany : ¬ expected.any (· ≠ base') = true := by
        cases expected with
        | none => simp
        | some e => simp [hall e rfl]
      rw [if_neg (by omega), if_neg hany]

theorem requireHash_eq_ok {value : Json} {bytes : List UInt8} :
    requireHash value = .ok bytes ↔
      ∃ items, value = .array items ∧ asBytes items = some bytes ∧ bytes.length = 32 := by
  unfold requireHash
  cases value with
  | array items =>
    dsimp only
    split
    · rename_i bytes' h
      split
      · rename_i hlen
        constructor
        · intro hok
          cases hok
          exact ⟨items, rfl, h, hlen⟩
        · rintro ⟨items', hitems, h', -⟩
          cases hitems
          rw [h] at h'
          cases h'
          rfl
      · rename_i hlen
        constructor
        · intro hok
          cases hok
        · rintro ⟨items', hitems, h', hlen'⟩
          cases hitems
          rw [h] at h'
          cases h'
          exact absurd hlen' hlen
    · rename_i h
      simp [h]
  | _ => simp

/-- The conditions on a chunk. -/
structure Fits (imageLen base eraseStart eraseEnd : ℤ) (chunk : Chunk) : Prop where
  offset : 0 ≤ chunk.offset
  length : 0 < chunk.length
  stop : chunk.offset + chunk.length ≤ imageLen
  addr : chunk.addr = base + chunk.offset
  erased : eraseStart ≤ chunk.addr ∧ chunk.addr + chunk.length ≤ eraseEnd

variable {imageLen base eraseStart eraseEnd : ℤ}

theorem requireChunk_eq_ok {index : ℕ} {value : Json} {chunk : Chunk} :
    requireChunk imageLen base eraseStart eraseEnd index value = .ok chunk ↔
      asChunk value = some chunk ∧ Fits imageLen base eraseStart eraseEnd chunk := by
  unfold requireChunk asChunk
  cases value with
  | object fields =>
    dsimp only
    split
    · rename_i addr offset length _ _ _
      constructor
      · intro hok
        split at hok
        · cases hok
        · split at hok
          · cases hok
          · split at hok
            · cases hok
            · cases hok
              refine ⟨rfl, ?_, ?_, ?_, ?_, ?_, ?_⟩ <;> dsimp only <;> omega
      · rintro ⟨hchunk, hfits⟩
        cases hchunk
        have hoffset := hfits.offset
        have hlength := hfits.length
        have hstop := hfits.stop
        have haddr := hfits.addr
        have herased := hfits.erased
        dsimp only at hoffset hlength hstop haddr herased
        rw [if_neg (by omega), if_neg (by omega), if_neg (by omega)]
    · simp
  | _ => simp

theorem requireChunks_eq_ok {values : List Json} {index : ℕ} {chunks : List Chunk} :
    requireChunks imageLen base eraseStart eraseEnd index values = .ok chunks ↔
      values.mapM asChunk = some chunks ∧
        ∀ chunk ∈ chunks, Fits imageLen base eraseStart eraseEnd chunk := by
  induction values generalizing index chunks with
  | nil =>
    simp only [requireChunks, List.mapM_nil]
    constructor
    · intro h
      cases h
      exact ⟨rfl, fun _ h => (by cases h)⟩
    · rintro ⟨h, -⟩
      cases h
      rfl
  | cons value values ih =>
    simp only [requireChunks, bind_eq_ok, requireChunk_eq_ok, ih, List.mapM_cons,
      Option.bind_eq_bind, Option.bind_eq_some_iff]
    constructor
    · rintro ⟨chunk, ⟨hchunk, hfits⟩, chunks', ⟨hchunks, hall⟩, hok⟩
      cases hok
      exact ⟨⟨chunk, hchunk, chunks', hchunks, rfl⟩, List.forall_mem_cons.mpr ⟨hfits, hall⟩⟩
    · rintro ⟨⟨chunk, hchunk, chunks', hchunks, hok⟩, hall⟩
      cases hok
      obtain ⟨hfits, hall⟩ := List.forall_mem_cons.mp hall
      exact ⟨chunk, ⟨hchunk, hfits⟩, chunks', ⟨hchunks, hall⟩, rfl⟩

/-- What `validateFlashPlan` has checked of the numbers of a plan. -/
structure Accepted (plan : Plan) (image : List UInt8) : Prop where
  fits : ∀ chunk ∈ plan.chunks,
    Fits image.length plan.base plan.eraseStart plan.eraseEnd chunk
  tiled : walk 0 ((plan.chunks.map Chunk.covered).mergeSort before) = some (image.length : ℤ)
  body : ∃ offset, 0 ≤ offset ∧ 0 ≤ plan.bodyLen ∧ offset + plan.bodyLen ≤ image.length ∧
    plan.bodyFlashAddr = plan.base + offset ∧
    sha256 (slice image offset (offset + plan.bodyLen)) = plan.codeAreaHash

theorem accepted_of_ok {plan : Fields} {image : List UInt8} {expected : Option ℤ}
    (h : validateFlashPlan plan image expected = .ok ()) :
    ∃ numbers, readPlan plan = some numbers ∧ Accepted numbers image := by
  simp only [validateFlashPlan, bind_eq_ok, check_eq_ok, decide_eq_true_eq, exists_const] at h
  obtain ⟨-, base, hbase, -, ⟨offset, length⟩, hbody, hstop, hflash, -, hash, hhash, hsha,
    ⟨start, eraseLen⟩, herase, -, -, chunks, hchunks, hwalk⟩ := h
  obtain ⟨hbase, -, -⟩ := requireBase_eq_ok.mp hbase
  obtain ⟨hbody, hoffset, hlength⟩ := requireRange_eq_ok.mp hbody
  obtain ⟨items, hitems, hhash, -⟩ := requireHash_eq_ok.mp hhash
  obtain ⟨herase, -, -⟩ := requireRange_eq_ok.mp herase
  obtain ⟨hchunks, hfits⟩ := requireChunks_eq_ok.mp hchunks
  rw [if_pos rfl] at hbody
  rw [if_neg (by decide)] at herase
  refine ⟨⟨base, base + offset, length, hash, start, start + eraseLen, chunks⟩, ?_, hfits, hwalk,
    offset, hoffset, hlength.le, hstop, rfl, hsha⟩
  simp [readPlan, hbase, hflash, hbody, hitems, hhash, herase, hchunks]

end Checks

/-! ## §2 Writing -/

section Writing

variable {device : Device} {image : List UInt8} {order : List Chunk} {flash : Flash}
  {base address : ℤ}

theorem foldl_writeChunk_of_none (h : order.countP (fun chunk => chunk.writes address) = 0) :
    order.foldl (device.writeChunk image) flash address = flash address := by
  induction order generalizing flash with
  | nil => rfl
  | cons chunk order ih =>
    rw [List.countP_cons] at h
    have hchunk : chunk.writes address ≠ true := by
      intro hwrites
      rw [if_pos hwrites] at h
      cases h
    rw [List.foldl_cons, ih (by omega), Device.writeChunk, if_neg hchunk]

/-- Where one chunk writes, it programs a byte of the image over what was there. -/
theorem foldl_writeChunk_of_one {i : ℕ} (haddr : ∀ chunk ∈ order, chunk.addr = base + chunk.offset)
    (h : order.countP (fun chunk => chunk.writes (base + i)) = 1) :
    order.foldl (device.writeChunk image) flash (base + i) =
      device.program (flash (base + i)) (image.getD i 0) := by
  induction order generalizing flash with
  | nil => cases h
  | cons chunk order ih =>
    rw [List.countP_cons] at h
    have hchunk := haddr chunk List.mem_cons_self
    have hrest : ∀ c ∈ order, c.addr = base + c.offset :=
      fun c hc => haddr c (List.mem_cons_of_mem chunk hc)
    rw [List.foldl_cons]
    by_cases hwrites : chunk.writes (base + i) = true
    · rw [if_pos hwrites] at h
      have hoffset : chunk.offset + (base + i - chunk.addr) = i := by
        rw [hchunk]
        ring
      rw [foldl_writeChunk_of_none (by omega), Device.writeChunk, if_pos hwrites, hoffset,
        Int.toNat_natCast]
    · rw [if_neg hwrites] at h
      rw [ih hrest h, Device.writeChunk, if_neg hwrites]

/-- A chunk writes the address of a position that it covers. -/
theorem countP_writes {chunks : List Chunk} {x : ℤ}
    (haddr : ∀ chunk ∈ chunks, chunk.addr = base + chunk.offset) :
    chunks.countP (fun chunk => chunk.writes (base + x)) =
      (chunks.map Chunk.covered).countP (holds x) := by
  rw [List.countP_map]
  apply List.countP_congr
  intro chunk hchunk
  have := haddr chunk hchunk
  simp only [Chunk.writes, Function.comp_apply, holds_iff, Chunk.covered, Bool.and_eq_true,
    decide_eq_true_eq]
  omega

end Writing

/-! ## §3 Soundness -/

namespace Accepted

variable {plan : Plan} {image : List UInt8} {order : List Chunk} {device : Device} {before : Flash}

theorem covers_once (h : Accepted plan image) (horder : order.Perm plan.chunks) {x : ℤ}
    (hx : 0 ≤ x ∧ x < image.length) :
    order.countP (fun chunk => chunk.writes (plan.base + x)) = 1 := by
  have hpos : ∀ i ∈ (plan.chunks.map Chunk.covered).mergeSort Tiling.before, i.1 < i.2 := by
    intro i hi
    rw [List.mem_mergeSort, List.mem_map] at hi
    obtain ⟨chunk, hchunk, rfl⟩ := hi
    have := (h.fits chunk hchunk).length
    simp only [Chunk.covered]
    omega
  calc order.countP (fun chunk => chunk.writes (plan.base + x))
      = plan.chunks.countP (fun chunk => chunk.writes (plan.base + x)) := horder.countP_eq _
    _ = (plan.chunks.map Chunk.covered).countP (holds x) :=
      countP_writes fun chunk hchunk => (h.fits chunk hchunk).addr
    _ = ((plan.chunks.map Chunk.covered).mergeSort Tiling.before).countP (holds x) :=
      ((List.mergeSort_perm _ _).countP_eq _).symm
    _ = 1 := by rw [countP_of_walk hpos h.tiled, if_pos hx]

theorem programmed (h : Accepted plan image) (horder : order.Perm plan.chunks) {i : ℕ}
    (hi : i < image.length) :
    device.programPlan image plan order before (plan.base + i) = image[i] := by
  have hone : order.countP (fun chunk => chunk.writes (plan.base + i)) = 1 :=
    h.covers_once horder (by omega)
  obtain ⟨chunk, hchunk, hwrites⟩ := List.countP_pos_iff.mp (hone ▸ Nat.one_pos)
  have hfits := h.fits chunk (horder.subset hchunk)
  simp only [Chunk.writes, Bool.and_eq_true, decide_eq_true_eq] at hwrites
  have herased : plan.eraseStart ≤ plan.base + i ∧ plan.base + i < plan.eraseEnd := by
    have := hfits.erased
    omega
  have haddr : ∀ c ∈ order, c.addr = plan.base + c.offset :=
    fun c hc => (h.fits c (horder.subset hc)).addr
  rw [Device.programPlan, foldl_writeChunk_of_one haddr hone, Device.erase, if_pos herased,
    device.program_erased, List.getD_eq_getElem?_getD, List.getElem?_eq_getElem hi, Option.getD_some]

theorem inside (h : Accepted plan image) {chunk : Chunk} (hchunk : chunk ∈ plan.chunks)
    {address : ℤ} (hwrites : chunk.writes address = true) :
    (plan.eraseStart ≤ address ∧ address < plan.eraseEnd) ∧
      plan.base ≤ address ∧ address < plan.base + image.length := by
  have hfits := h.fits chunk hchunk
  have hoffset := hfits.offset
  have hstop := hfits.stop
  have haddr := hfits.addr
  have herased := hfits.erased
  simp only [Chunk.writes, Bool.and_eq_true, decide_eq_true_eq] at hwrites
  omega

theorem outside (h : Accepted plan image) (horder : order.Perm plan.chunks) {address : ℤ}
    (houtside : ¬ (plan.eraseStart ≤ address ∧ address < plan.eraseEnd)) :
    device.programPlan image plan order before address = before address := by
  have hnone : order.countP (fun chunk => chunk.writes address) = 0 := by
    rw [List.countP_eq_zero]
    intro chunk hchunk hwrites
    exact houtside (h.inside (horder.subset hchunk) hwrites).1
  rw [Device.programPlan, foldl_writeChunk_of_none hnone, Device.erase, if_neg houtside]

theorem body_read (h : Accepted plan image) (horder : order.Perm plan.chunks) :
    sha256 (readFlash (device.programPlan image plan order before) plan.bodyFlashAddr
      plan.bodyLen) = plan.codeAreaHash := by
  obtain ⟨offset, hoffset, hlen, hstop, hflash, hsha⟩ := h.body
  obtain ⟨o, rfl⟩ := Int.eq_ofNat_of_zero_le hoffset
  obtain ⟨n, hn⟩ := Int.eq_ofNat_of_zero_le hlen
  rw [hn] at hstop hsha ⊢
  rw [← hsha, hflash]
  congr 1
  apply List.ext_getElem
  · simp only [readFlash, slice, List.length_map, List.length_range, List.length_drop,
      List.length_take]
    omega
  · intro i hi hi'
    have hi : i < n := by simpa [readFlash] using hi
    have hbyte : device.programPlan image plan order before (plan.base + (o + i : ℕ)) = image[o + i] :=
      h.programmed horder (by omega)
    simp only [readFlash, slice, List.getElem_map, List.getElem_range, List.getElem_drop,
      List.getElem_take, Int.toNat_natCast]
    rw [add_assoc, ← Nat.cast_add, hbyte]

theorem programs (h : Accepted plan image) (horder : order.Perm plan.chunks) :
    Programs plan image device before order where
  programmed _ hi := h.programmed horder hi
  once _ hi := h.covers_once horder (by omega)
  inside _ hchunk _ hwrites := h.inside (horder.subset hchunk) hwrites
  outside _ haddress := h.outside horder haddress
  body := h.body_read horder

end Accepted

/-! ## §4 Completeness -/

theorem length_sha256 (data : List UInt8) : (sha256 data).length = 32 := by
  simp only [sha256, List.length_flatMap, BigEndian.length_toBe, List.map_const',
    Vector.length_toList, List.sum_replicate]
  rfl

theorem asBytes_map (bytes : List UInt8) :
    asBytes (bytes.map fun byte => .int byte.toNat) = some bytes := by
  induction bytes with
  | nil => rfl
  | cons byte bytes ih =>
    have hlt := byte.toNat_lt
    simp only [List.map_cons, asBytes, Json.asInt]
    rw [if_pos (by omega), ih, Option.map_some, Int.toNat_natCast, UInt8.ofNat_toNat]

namespace Layout

variable {image : List UInt8} {layout : Layout image} {plan : Fields}

theorem sum_lengths : (layout.lengths.map (Nat.cast : ℕ → ℤ)).sum = image.length := by
  rw [← layout.lengths_sum, Nat.cast_list_sum]

theorem cast_lengths_pos : ∀ length ∈ layout.lengths.map (Nat.cast : ℕ → ℤ), 0 < length := by
  intro length hlength
  obtain ⟨n, hn, rfl⟩ := List.mem_map.mp hlength
  exact Nat.cast_pos.mpr (layout.lengths_pos n hn)

theorem listed_bounds {piece : ℤ × ℤ} (h : piece ∈ layout.listed) :
    0 ≤ piece.1 ∧ piece.1 < piece.2 ∧ piece.2 ≤ image.length := by
  have hpiece := le_of_mem_pieces cast_lengths_pos (layout.listed_perm.subset h)
  rwa [sum_lengths, zero_add] at hpiece

theorem chunk_fits {piece : ℤ × ℤ} (h : piece ∈ layout.listed) :
    Fits image.length layout.base layout.eraseStart (layout.eraseStart + layout.eraseLen)
      (layout.chunk piece) := by
  have hpiece := listed_bounds h
  have hstart := layout.eraseStart_le
  have hend := layout.le_eraseEnd
  constructor <;> dsimp only [chunk] <;> omega

theorem covered_chunk (piece : ℤ × ℤ) : (layout.chunk piece).covered = piece := by
  simp [chunk, Chunk.covered]

theorem mapM_asChunk {values : List Json} {listed : List (ℤ × ℤ)}
    (h : List.Forall₂ layout.DescribesChunk values listed) :
    values.mapM asChunk = some (listed.map layout.chunk) := by
  induction h with
  | nil => rfl
  | cons hvalue _ ih =>
    obtain ⟨fields, rfl, haddr, hoffset, hlen⟩ := hvalue
    simp [asChunk, haddr, hoffset, hlen, Json.asInt, ih]

theorem walk_listed (layout : Layout image) :
    walk 0 (((layout.listed.map layout.chunk).map Chunk.covered).mergeSort before) =
      some (image.length : ℤ) := by
  have hmap : (layout.listed.map layout.chunk).map Chunk.covered = layout.listed := by
    simp [Function.comp_def, covered_chunk]
  rw [hmap, mergeSort_pieces cast_lengths_pos layout.listed_perm, walk_pieces, sum_lengths,
    zero_add]

theorem listed_ne_nil (layout : Layout image) : layout.listed ≠ [] := by
  intro hnil
  have hwalk := walk_listed layout
  rw [hnil] at hwalk
  have hbody := layout.bodyLen_pos
  have hle := layout.body_le
  simp [walk] at hwalk
  omega

theorem Describes.accepted (h : layout.Describes plan) {expected : Option ℤ}
    (hexpected : ∀ e ∈ expected, e = layout.base) :
    validateFlashPlan plan image expected = .ok () := by
  obtain ⟨bodyFields, hbody, hbodyOffset, hflashAddr, hbodyLen⟩ := h.body_range
  obtain ⟨eraseFields, herase, heraseStart, heraseLen⟩ := h.erase_range
  obtain ⟨values, hvalues, hchunks⟩ := h.write_chunks
  have hstart := layout.eraseStart_le
  have hend := layout.le_eraseEnd
  have hpos := layout.bodyLen_pos
  have hle := layout.body_le
  simp only [validateFlashPlan, bind_eq_ok, check_eq_ok, decide_eq_true_eq, exists_const]
  have hmissing : (requiredKeys.filter fun key => (get plan key).isNone).isEmpty = true := by
    simp [requiredKeys, h.base_addr, h.image_len, hbody, h.code_area_len, h.code_area_hash, herase,
      hvalues]
  have hbase : requireBase (field plan "base_addr") expected = .ok layout.base :=
    requireBase_eq_ok.mpr ⟨by simp [field, h.base_addr, Json.asInt], by omega, hexpected⟩
  have hbodyRange : requireRange (field plan "body_range") "body_range" =
      .ok ((layout.bodyOffset : ℤ), (layout.bodyLen : ℤ)) :=
    requireRange_eq_ok.mpr ⟨by simp [asRange, field, hbody, hbodyOffset, hbodyLen, Json.asInt],
      by omega, by omega⟩
  have hhash : requireHash (field plan "code_area_hash") = .ok (sha256 layout.body) :=
    requireHash_eq_ok.mpr ⟨_, by simp [field, h.code_area_hash], asBytes_map _, length_sha256 _⟩
  have heraseRange : requireRange (field plan "erase_range") "erase_range" =
      .ok ((layout.eraseStart : ℤ), (layout.eraseLen : ℤ)) :=
    requireRange_eq_ok.mpr ⟨by simp [asRange, field, herase, heraseStart, heraseLen, Json.asInt],
      by omega, by omega⟩
  have hrequired : requireChunks image.length layout.base layout.eraseStart
      (layout.eraseStart + layout.eraseLen) 0 (writeChunks (field plan "write_chunks")) =
        .ok (layout.listed.map layout.chunk) := by
    rw [requireChunks_eq_ok]
    refine ⟨by simp [field, hvalues, writeChunks, mapM_asChunk hchunks], ?_⟩
    intro chunk hchunk
    obtain ⟨piece, hpiece, rfl⟩ := List.mem_map.mp hchunk
    exact chunk_fits hpiece
  have hnonempty : (!(writeChunks (field plan "write_chunks")).isEmpty) = true := by
    have hlength := hchunks.length_eq
    have hne := List.length_pos_iff.mpr (listed_ne_nil layout)
    simp only [field, hvalues, Option.getD_some, writeChunks, Bool.not_eq_true',
      List.isEmpty_eq_false_iff]
    rintro rfl
    rw [List.length_nil] at hlength
    omega
  exact ⟨hmissing, layout.base, hbase, by simp [field, h.image_len, Json.number], _, hbodyRange,
    by omega, by simp [field, hbody, bodyFlashAddr, hflashAddr, Json.number],
    by simp [field, h.code_area_len, Json.number], _, hhash, rfl, _, heraseRange,
    by simp; omega, hnonempty, _, hrequired, walk_listed layout⟩

theorem describes_planOf : layout.Describes layout.planOf where
  base_addr := rfl
  image_len := rfl
  body_range := ⟨_, rfl, rfl, rfl, rfl⟩
  code_area_len := rfl
  code_area_hash := rfl
  erase_range := ⟨_, rfl, rfl, rfl⟩
  write_chunks := by
    refine ⟨_, rfl, ?_⟩
    rw [List.forall₂_map_left_iff, List.forall₂_same]
    intro piece _
    exact ⟨_, rfl, rfl, rfl, rfl⟩

end Layout

/-- An accepted plan programs the image, whatever the flash holds and in whatever order
its chunks are written; and each plan that describes a layout of the image is accepted. -/
theorem validateFlashPlan_sound_complete :
    (∀ (plan : Fields) (image : List UInt8) (expected : Option ℤ),
      validateFlashPlan plan image expected = .ok () →
        ∃ numbers, readPlan plan = some numbers ∧
          ∀ (device : Device) (before : Flash) (order : List Chunk), order.Perm numbers.chunks →
            Programs numbers image device before order) ∧
    (∀ (image : List UInt8) (layout : Layout image) (plan : Fields) (expected : Option ℤ),
      layout.Describes plan → (∀ e ∈ expected, e = layout.base) →
        validateFlashPlan plan image expected = .ok ()) := by
  constructor
  · intro plan image expected hok
    obtain ⟨numbers, hread, haccepted⟩ := accepted_of_ok hok
    exact ⟨numbers, hread, fun _ _ _ horder => haccepted.programs horder⟩
  · intro image layout plan expected hdescribes hexpected
    exact hdescribes.accepted hexpected

/-- A three-byte image in two chunks, the second first; its last two bytes are the body. -/
def twoChunks : Layout [1, 2, 3] where
  base := 4096
  bodyOffset := 1
  bodyLen := 2
  bodyLen_pos := by decide
  body_le := by decide
  eraseStart := 4096
  eraseLen := 4096
  eraseStart_le := by decide
  le_eraseEnd := by decide
  lengths := [2, 1]
  lengths_pos := by decide
  lengths_sum := by decide
  listed := [(2, 3), (0, 2)]
  listed_perm := by decide

theorem validateFlashPlan_sound_complete_twoChunks :
    validateFlashPlan twoChunks.planOf [1, 2, 3] (some 4096) = .ok () ∧
      ∃ numbers, readPlan twoChunks.planOf = some numbers ∧
        ∀ (device : Device) (before : Flash) (order : List Chunk), order.Perm numbers.chunks →
          Programs numbers [1, 2, 3] device before order := by
  have hok : validateFlashPlan twoChunks.planOf [1, 2, 3] (some 4096) = .ok () := by
    apply validateFlashPlan_sound_complete.2 [1, 2, 3] twoChunks _ _ Layout.describes_planOf
    rintro e ⟨⟩
    rfl
  exact ⟨hok, validateFlashPlan_sound_complete.1 _ _ _ hok⟩

end HisiRiscv.Hil.FlashPlan
