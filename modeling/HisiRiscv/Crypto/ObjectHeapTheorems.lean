/-
HisiRiscv.Crypto.ObjectHeapTheorems — the heap of `crypto_sae.rs` refines a store of
independent objects.

Along every run of a client that calls with what it was given, the functions return what the
store returns; a call changes the value of its output only, and the constants of a context are
never written. No block is freed that is not there, and the blocks in use are those of the objects
that the client has not given back (`objects_refine`).

  §1 Allocation.
  §2 Deallocation.
  §3 Main result.
-/
import HisiRiscv.Crypto.ObjectHeapCalls

namespace HisiRiscv.Crypto.Bytes

open HisiRiscv.ByteMemory HisiRiscv.Machine HisiRiscv.BigEndian

/-! ## §1 Allocation -/

section Allocation

variable {c : HeapAdapter} {s : State} {a : Store c.toAdapter} {p context : ℕ}

/-- Memory apart from the handles is apart from the objects. -/
theorem Refines.away (h : Refines s a) {address n : ℕ} (haway : Away c.toAdapter s.handles address n)
    {e : Entry c.toAdapter} (he : e ∈ a.entries) :
    address + n ≤ e.address ∨ e.address + e.size ≤ address := by
  rw [h.handles] at haway
  exact haway e.object (mem_handles.mpr ⟨e, he, rfl⟩)

/-- Memory that is not part of an object may change. -/
theorem Refines.frame (h : Refines s a) {m' : Memory} {address n : ℕ}
    (haway : Away c.toAdapter s.handles address n)
    (hm : ∀ y, y < address ∨ address + n ≤ y → m' y = s.memory y) : Refines { s with memory := m' } a :=
  { h with
    holds := fun e he => (h.holds e he).congr fun y _ _ => hm y (by have := h.away haway he; omega) }

/-- A record lies in a block of its own. -/
theorem Refines.insert (h : Refines s a) {e : Entry c.toAdapter} {m' : Memory}
    (hplace : e.address + e.size < 2 ^ 32) (haway : Away c.toAdapter s.handles e.address e.size)
    (hm : ∀ y, y < e.address ∨ e.address + e.size ≤ y → m' y = s.memory y) (hholds : e.Holds m') :
    Refines { s with memory := m', blocks := e.object :: s.blocks, handles := e.object :: s.handles }
      { a with entries := e :: a.entries } where
  handles := congrArg (e.object :: ·) h.handles
  blocks := congrArg (e.object :: ·) h.blocks
  noFaults := h.noFaults
  log := h.log
  place := List.forall_mem_cons.mpr ⟨hplace, h.place⟩
  apart := List.pairwise_cons.mpr ⟨fun _ hf => h.away haway hf, h.apart⟩
  holds := List.forall_mem_cons.mpr ⟨hholds, (h.frame haway hm).holds⟩

/-- `allocate` adds an object, or gives the block back that is misaligned. -/
theorem Refines.allocate (h : Refines s a) {e : Entry c.toAdapter} {record : Memory → Memory}
    (hfits : Fits c.toAdapter s.handles e.object)
    (houtside : aligned (e.object.layout c.toAdapter) e.address = true →
      ∀ m y, y < e.address ∨ e.address + e.size ≤ y → record m y = m y)
    (hholds : aligned (e.object.layout c.toAdapter) e.address = true → ∀ m, e.Holds (record m)) :
    Refines (s.allocate c e.object record) (a.add e.address (some e.content)) := by
  have hadd : a.add e.address (some e.content) =
      if aligned (e.object.layout c.toAdapter) e.address then
        { a with entries := e :: a.entries }.answer (.pointer e.address)
      else a.answer (.pointer 0) := rfl
  have hzeroed : ∀ y, y < e.address ∨ e.address + e.size ≤ y →
      write s.memory e.address (List.replicate e.size 0) y = s.memory y := by
    intro y hy
    refine write_outside ?_
    rw [List.length_replicate]
    exact hy
  have hallocate : s.allocate c e.object record =
      if e.address = 0 then s.answer (.pointer 0)
      else if aligned (e.object.layout c.toAdapter) e.address then
        State.answer
          { s with
            memory := record (write s.memory e.address (List.replicate e.size 0))
            blocks := e.object :: s.blocks
            handles := e.object :: s.handles }
          (.pointer e.address)
      else
        State.answer
          (State.osFree
            { s with
              memory := write s.memory e.address (List.replicate e.size 0)
              blocks := e.object :: s.blocks }
            e.object)
          (.pointer 0) := rfl
  rw [hadd, hallocate]
  split_ifs with hnull haligned haligned
  · rw [hnull, aligned_null] at haligned
    cases haligned
  · exact h.answer _
  · obtain ⟨hplace, haway⟩ := hfits.resolve_left hnull
    refine (h.insert hplace haway (fun y hy => ?_) (hholds haligned _)).answer _
    exact (houtside haligned _ y hy).trans (hzeroed y hy)
  · obtain ⟨-, haway⟩ := hfits.resolve_left hnull
    rw [State.osFree, if_pos List.mem_cons_self, List.erase_cons_head]
    exact (h.frame haway hzeroed).answer _

theorem Refines.allocateBignum (h : Refines s a) {block : ℕ} {value : c.Bignum}
    (hfits : Fits c.toAdapter s.handles ⟨.bignum, block⟩) :
    Refines (s.allocateBignum c block value) (a.add block (some (.number value))) :=
  h.allocate (e := ⟨block, .number value⟩) hfits (fun _ _ _ => putBignum_outside)
    fun haligned _ => holdsBignum_putBignum haligned

theorem Refines.allocatePoint (h : Refines s a) {block : ℕ} {value : c.Point}
    (hfits : Fits c.toAdapter s.handles ⟨.point, block⟩) :
    Refines (s.allocatePoint c block value) (a.add block (some (.point value))) :=
  h.allocate (e := ⟨block, .point value⟩) hfits (fun _ _ _ => putPoint_outside)
    fun haligned _ => holdsPoint_putPoint haligned

theorem Refines.bignumInitSet (h : Refines s a) {buffer block : ℕ} {bytes : List UInt8}
    (hfits : Fits c.toAdapter s.handles ⟨.bignum, block⟩) :
    Refines (s.cryptoBignumInitSet c buffer bytes block)
      (a.add block
        (if c.bignumBytes < bytes.length ∨ bytes.length ≠ 0 ∧ buffer = 0 then none
        else (c.initSet bytes).map .number)) := by
  rw [State.cryptoBignumInitSet]
  split_ifs with hrefused
  · exact h.answer _
  · cases c.initSet bytes with
    | none => exact h.answer _
    | some value => exact h.allocateBignum hfits

theorem Refines.ecInit (hc : c.Correct) (h : Refines s a) {group : Int32} {block : ℕ}
    (hfits : Fits c.toAdapter s.handles ⟨.context, block⟩) :
    Refines (s.cryptoEcInit c group block)
      (a.add block
        (if group < 0 ∨ 65536 ≤ group then none else (c.forGroup group.toUInt32.toUInt16).map .group)) := by
  rw [State.cryptoEcInit]
  split_ifs with hrefused
  · exact h.answer _
  · cases hgroup : c.forGroup group.toUInt32.toUInt16 with
    | none => exact h.answer _
    | some group =>
      exact h.allocate (e := ⟨block, .group group⟩) hfits
        (fun haligned _ _ => putEc_outside (aligned_constant hc haligned))
        fun haligned _ => holdsEc_putEc hc haligned (hc.forGroup _ _ hgroup)

theorem Refines.pointInit (h : Refines s a) {block : ℕ} (hcontext : Known c s context)
    (hfits : Fits c.toAdapter s.handles ⟨.point, block⟩) :
    Refines (s.cryptoEcPointInit c context block)
      (a.add block ((a.group context).map fun group => .point (c.identity group))) := by
  rw [State.cryptoEcPointInit, h.group_eq hcontext]
  cases ecGroup c.toAdapter s.memory context with
  | none => exact h.answer _
  | some group => exact h.allocatePoint hfits

theorem checkedRange_isNone {start n : ℕ} : (checkedRange start n).isNone = true ↔ 2 ^ 32 ≤ start + n := by
  rw [checkedRange]
  split_ifs with hlt
  · exact iff_of_false (by simp) (Nat.not_le.mpr hlt)
  · exact iff_of_true rfl (Nat.not_lt.mp hlt)

/-- The overlap check of `crypto_ec_point_from_bin` passes for a buffer of the client. -/
theorem Refines.buffer_apart (h : Refines s a) {encoded n : ℕ} {g : c.Group}
    (hgroup : a.group context = some g) (haway : Away c.toAdapter s.handles encoded n)
    (hrange : encoded + n < 2 ^ 32) :
    rangesOverlap encoded n context (ecLayout c.toAdapter).size = some false := by
  obtain ⟨e, he, hobj⟩ := Refines.group_entry hgroup
  obtain ⟨haddress, hsize⟩ := Entry.size_eq hobj
  have hplace := h.place e he
  have hcases := h.away haway he
  rw [haddress, hsize] at hplace hcases
  exact rangesOverlap_eq_false hrange hplace hcases

theorem Refines.pointFromBin (h : Refines s a) {encoded block : ℕ} {bytes : List UInt8}
    (hcontext : Known c s context) (hfits : Fits c.toAdapter s.handles ⟨.point, block⟩)
    (haway : encoded ≠ 0 → Away c.toAdapter s.handles encoded (p256ElementBytes * 2)) :
    Refines (s.cryptoEcPointFromBin c context encoded bytes block)
      (a.add block
        (if encoded = 0 ∨ 2 ^ 32 ≤ encoded + p256ElementBytes * 2 then none
        else do
          return .point (← c.pointFromXy (← a.group context) (bytes.take p256ElementBytes)
            (bytes.drop p256ElementBytes)))) := by
  rw [State.cryptoEcPointFromBin, ← h.group_eq hcontext]
  cases hgroup : a.group context with
  | none =>
    show Refines _ (a.add block (if _ then none else none))
    rw [ite_self]
    exact h.answer _
  | some group =>
    dsimp only
    by_cases hrefused : encoded = 0 ∨ 2 ^ 32 ≤ encoded + p256ElementBytes * 2
    · rw [if_pos hrefused, if_pos]
      · exact h.answer _
      · exact hrefused.imp_right fun hrange => Or.inl (checkedRange_isNone.mpr hrange)
    · obtain ⟨hnull, hrange⟩ := not_or.mp hrefused
      rw [if_neg hrefused, if_neg, Option.bind_eq_bind, Option.bind_some]
      · cases c.pointFromXy group (bytes.take p256ElementBytes) (bytes.drop p256ElementBytes) with
        | none => exact h.answer _
        | some value => exact h.allocatePoint hfits
      · rintro (hzero | hnone | hoverlap)
        · exact hnull hzero
        · exact hrange (checkedRange_isNone.mp hnone)
        · exact hoverlap (h.buffer_apart hgroup (haway hnull) (Nat.not_le.mp hrange))

theorem Refines.pointComputeYSqr (h : Refines s a) {x block : ℕ} (hcontext : Known c s context)
    (hx : Known c s x) (hfits : Fits c.toAdapter s.handles ⟨.bignum, block⟩) :
    Refines (s.cryptoEcPointComputeYSqr c context x block)
      (a.add block do return .number (← State.computeYSqrValue c (← a.group context) (← a.number x))) := by
  rw [State.cryptoEcPointComputeYSqr, h.group_eq hcontext, h.number_eq hx]
  cases ecGroup c.toAdapter s.memory context with
  | none => exact h.answer _
  | some group =>
    cases bignumClone c.toAdapter s.memory x with
    | none => exact h.answer _
    | some x =>
      simp only [Option.bind_eq_bind, Option.bind_some]
      cases State.computeYSqrValue c group x with
      | none => exact h.answer _
      | some value => exact h.allocateBignum hfits

end Allocation

/-! ## §2 Deallocation -/

section Deallocation

variable {c : HeapAdapter} {s : State} {a : Store c.toAdapter} {p : ℕ}

theorem handles_remove {x : Object} : (a.remove x).handles = a.handles.erase x := by
  rw [Store.handles, Store.remove, Store.handles, List.erase_eq_eraseP, List.eraseP_map]
  refine congrArg _ (congrArg (List.eraseP · a.entries) (funext fun e => ?_))
  rw [Bool.eq_iff_iff, decide_eq_true_eq, Function.comp_apply, beq_iff_eq]
  exact eq_comm

/-- A `deinit` function frees the block of an object of its type, and nothing else. -/
theorem Refines.deinit (h : Refines s a) {x : Object} {mine : Bool} (hmine : mine = true ↔ x ∈ a.handles) :
    Refines ((if mine then s.osFree x else s).giveBack x) (a.remove x) := by
  have hsub : ∀ e ∈ (a.remove x).entries, e ∈ a.entries := fun e => List.mem_of_mem_eraseP
  have hblocks : (if mine then s.osFree x else s).blocks = a.handles.erase x ∧
      (if mine then s.osFree x else s).faults = [] := by
    split_ifs with hcase
    · have hmem : x ∈ s.blocks := h.blocks ▸ hmine.mp hcase
      rw [State.osFree, if_pos hmem]
      exact ⟨congrArg (List.erase · x) h.blocks, h.noFaults⟩
    · rw [List.erase_of_not_mem fun hmem => hcase (hmine.mpr hmem)]
      exact ⟨h.blocks, h.noFaults⟩
  have hrest : ∀ b : Bool, (if b then s.osFree x else s).handles = s.handles ∧
      (if b then s.osFree x else s).log = s.log ∧ (if b then s.osFree x else s).memory = s.memory := by
    intro b
    unfold State.osFree
    split_ifs <;> exact ⟨rfl, rfl, rfl⟩
  obtain ⟨hhandles, hlog, hmemory⟩ := hrest mine
  exact {
    handles := (congrArg (List.erase · x) (hhandles.trans h.handles)).trans handles_remove.symm
    blocks := hblocks.1.trans handles_remove.symm
    noFaults := hblocks.2
    log := hlog.trans h.log
    place := fun e he => h.place e (hsub e he)
    apart := h.apart.sublist List.eraseP_sublist
    holds := fun e he => hmemory ▸ h.holds e (hsub e he) }

theorem Refines.bignumDeinit (h : Refines s a) (hp : Known c s p) :
    Refines (s.cryptoBignumDeinit c p) (a.remove ⟨.bignum, p⟩) := by
  refine h.deinit ⟨fun howned => ?_, fun hx => ?_⟩
  · rw [bignumIsOwned, Bool.and_eq_true, Bool.and_eq_true, beq_iff_eq, beq_iff_eq] at howned
    obtain ⟨⟨haligned, hmagic⟩, howned⟩ := howned
    exact h.output_handle hp nofun ⟨haligned, hmagic⟩ fun _ => howned
  · obtain ⟨value, hholds⟩ := h.holdsBignum hx
    rw [bignumIsOwned, hholds.aligned, hholds.magic, hholds.ownership]
    rfl

theorem Refines.pointDeinit (h : Refines s a) (hp : Known c s p) :
    Refines (s.cryptoEcPointDeinit c p) (a.remove ⟨.point, p⟩) := by
  refine h.deinit ⟨fun hsome => ?_, fun hx => ?_⟩
  · obtain ⟨value, hvalue⟩ := Option.isSome_iff_exists.mp hsome
    obtain ⟨-, e, he, hobj⟩ := h.point_entry ((h.point_eq hp).trans hvalue)
    exact mem_handles.mpr ⟨e, he, hobj⟩
  · obtain ⟨value, hvalue⟩ := h.point_handle hx
    rw [← h.point_eq hp, hvalue]
    rfl

theorem Refines.ecDeinit (h : Refines s a) (hp : Known c s p) :
    Refines (s.cryptoEcDeinit c p) (a.remove ⟨.context, p⟩) := by
  refine h.deinit ⟨fun hsome => ?_, fun hx => ?_⟩
  · obtain ⟨group, hgroup⟩ := Option.isSome_iff_exists.mp hsome
    obtain ⟨e, he, hobj⟩ := Refines.group_entry ((h.group_eq hp).trans hgroup)
    exact mem_handles.mpr ⟨e, he, hobj⟩
  · obtain ⟨⟨address, content⟩, he, hobj⟩ := mem_handles.mp hx
    have hholds := h.holds _ he
    cases content with
    | number _ | point _ => cases hobj
    | group group =>
      cases hobj
      rw [ecGroup, if_pos hholds.aligned, if_pos]
      · rfl
      · rw [hholds.magic, hholds.value, hholds.group19, beq_self_eq_true, beq_self_eq_true]
        rfl

end Deallocation

/-! ## §3 Main result -/

section Main

variable {c : HeapAdapter} {s t : State} {a : Store c.toAdapter}

/-- Every step of the heap is one of the store. -/
theorem Refines.perform (hc : c.Correct) (h : Refines s a) {action : Action}
    (hadmits : Admits c.toAdapter s.handles action) : Refines (s.perform c action) (a.perform action) := by
  obtain ⟨hblock, hknown, hbuffer⟩ := hadmits
  cases action with
  | bignumInit block => exact h.allocateBignum (hblock _ rfl)
  | bignumInitSet buffer bytes block => exact h.bignumInitSet (hblock _ rfl)
  | bignumInitUint value block => exact h.allocateBignum (hblock _ rfl)
  | bignumDeinit pointer => exact h.bignumDeinit (hknown _ List.mem_cons_self)
  | ecInit group block => exact h.ecInit hc (hblock _ rfl)
  | ecDeinit pointer => exact h.ecDeinit (hknown _ List.mem_cons_self)
  | pointInit context block => exact h.pointInit (hknown _ List.mem_cons_self) (hblock _ rfl)
  | pointDeinit pointer => exact h.pointDeinit (hknown _ List.mem_cons_self)
  | pointFromBin context encoded bytes block =>
    refine h.pointFromBin (hknown _ List.mem_cons_self) (hblock _ rfl) fun hnull => ?_
    rw [Action.buffer, if_neg hnull] at hbuffer
    exact hbuffer
  | pointComputeYSqr context x block =>
    exact h.pointComputeYSqr (hknown _ List.mem_cons_self)
      (hknown _ (List.mem_cons_of_mem _ List.mem_cons_self)) (hblock _ rfl)
  | call operation => exact h.call hknown
  | rand result modulus entropy =>
    exact h.rand (hknown _ List.mem_cons_self) (hknown _ (List.mem_cons_of_mem _ List.mem_cons_self))
  | write address bytes => exact h.frame hbuffer fun _ => write_outside

theorem Refines.step (hc : c.Correct) (h : Refines s a) {action : Action}
    (hstep : State.step c s action = some t) : ∃ b, Store.step a action = some b ∧ Refines t b := by
  obtain ⟨hadmits, rfl⟩ := Option.ite_none_right_eq_some.mp hstep |>.imp_right Option.some.inj
  refine ⟨a.perform action, if_pos ?_, h.perform hc hadmits⟩
  rw [← h.handles]
  exact hadmits

/-- Every run of the heap is one of independent objects. -/
theorem objects_refine (c : HeapAdapter) (hc : c.Correct) (memory : Memory) (actions : List Action)
    (s : State) (h : Steps (State.step c) Always (State.init memory) actions s) :
    ∃ a : Store c.toAdapter, Steps Store.step Always Store.empty actions a ∧ Refines s a :=
  h.simulates (R := Refines) ⟨rfl, rfl, rfl, rfl, nofun, .nil, nofun⟩ fun _ _ _ _ hR _ => hR.step hc

/-- Objects as `hisi_crypto` has them, of numbers of 64 bytes. -/
def plainHeap : HeapAdapter where
  toRandomAdapter := RandomAdapter.plainAdapter
  init := Vector.replicate 64 0
  initU32 := fun value => (beEquiv 64).symm (Fin.ofNat _ value.toNat)
  forGroup := fun id => if id = 19 then some #v[19, 0] else none
  prime := fun _ => (beEquiv 64).symm
    (Fin.ofNat _ 0xffffffff00000001000000000000000000000000ffffffffffffffffffffffff)
  order := fun _ => (beEquiv 64).symm
    (Fin.ofNat _ 0xffffffff00000000ffffffffffffffffbce6faada7179e84f3b9cac2fc632551)
  coefficientA := fun _ => (beEquiv 64).symm
    (Fin.ofNat _ 0xffffffff00000001000000000000000000000000fffffffffffffffffffffffc)
  coefficientB := fun _ => (beEquiv 64).symm
    (Fin.ofNat _ 0x5ac635d8aa3a93e7b3ebbd55769886bc651d06b0cc53b0f63bce3c3e27d2604b)
  computeYSquared := fun _ _ => none
  computeYSquaredHardware := fun _ => none

theorem plainHeap_correct : plainHeap.Correct where
  forGroup := by
    intro id group hgroup
    obtain ⟨-, rfl⟩ := Option.ite_none_right_eq_some.mp hgroup |>.imp_right Option.some.inj
    rfl
  bignumAlign := ⟨0, rfl⟩
  groupAlign := ⟨0, rfl⟩

/-- A context and a number, to which the prime of the context is assigned. -/
def primeActions : List Action :=
  [.ecInit 19 4096, .bignumInitUint 5 8192,
    .call (.rshift (4096 + Constant.prime.offset plainHeap.toAdapter) 0 8192)]

theorem objects_refine_prime :
    ∃ (s : State) (a : Store plainHeap.toAdapter),
      Steps (State.step plainHeap) Always (State.init fun _ => 0) primeActions s ∧
        Steps Store.step Always Store.empty primeActions a ∧ Refines s a := by
  obtain ⟨s, hs⟩ := Option.isSome_iff_exists.mp
    (by decide +kernel : (run (State.step plainHeap) (State.init fun _ => 0) primeActions).isSome = true)
  obtain ⟨a, hrun, hrefines⟩ := objects_refine plainHeap plainHeap_correct (fun _ => 0) primeActions s
    (Steps.of_run hs)
  exact ⟨s, a, Steps.of_run hs, hrun, hrefines⟩

end Main

end HisiRiscv.Crypto.Bytes
