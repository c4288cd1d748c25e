/-
HisiRiscv.Osal.MsgQueueTheorems — what comes out of a message queue.

Messages come out in the order in which they went in. The permits are
accounted for: each stored message has a permit, a reader that took its
permit, or a writer that has not given it yet. A reader with a permit
therefore never finds the queue empty.

The queue does not know how long a message is. Message number `k` is
written over what slot `k % cap` held before (`overlay`, `slotsAfter`), and
a read hands out as much of that slot as its buffer takes, which behind a
message of less than a slot are bytes of an earlier one.

  §1 Slots.
  §2 The slots after a number of writes.
  §3 The two critical sections.
  §4 The invariant.
  §5 Main results.
-/
import HisiRiscv.Lib.Ledger
import HisiRiscv.Osal.MsgQueue
import Mathlib.Data.List.Induction

namespace HisiRiscv.Osal.MsgQueue

open HisiRiscv.Machine
open scoped List

/-! ## §1 Slots -/

@[simp] theorem length_load (ring : Nat → UInt8) (start n : Nat) : (load ring start n).length = n := by
  simp [load]

/-- A store leaves the other bytes as they were. -/
theorem load_store_ne (ring : Nat → UInt8) {start b n : Nat} {src : List UInt8}
    (h : b + n ≤ start ∨ start + src.length ≤ b) :
    load (store ring start src) b n = load ring b n := by
  unfold load
  apply List.map_congr_left
  intro i hi
  have hlt := List.mem_range.mp hi
  unfold store
  split
  · rw [List.getD_eq_getElem?_getD, List.getElem?_eq_none (by omega), Option.getD_none]
  · rfl

/-- The bytes stored come first, and the rest is as it was. -/
theorem load_store (ring : Nat → UInt8) (start : Nat) {src : List UInt8} {n : Nat}
    (h : src.length ≤ n) :
    load (store ring start src) start n = src ++ (load ring start n).drop src.length := by
  refine List.ext_getElem ?_ fun i hi _ => ?_
  · rw [List.length_append, List.length_drop, length_load, length_load]
    omega
  · simp only [load, List.getElem_map, List.getElem_range, store]
    rw [if_pos (Nat.le_add_right _ _), Nat.add_sub_cancel_left, List.getD_eq_getElem?_getD,
      List.getElem_append]
    by_cases hlt : i < src.length
    · rw [dif_pos hlt, List.getElem?_eq_getElem hlt, Option.getD_some]
    · rw [dif_neg hlt, List.getElem?_eq_none (by omega), Option.getD_none, List.getElem_drop,
        List.getElem_map, List.getElem_range]
      congr 2
      omega

theorem take_load (ring : Nat → UInt8) (start : Nat) {m n : Nat} (h : m ≤ n) :
    (load ring start n).take m = load ring start m := by
  unfold load
  rw [← List.map_take, List.take_range, Nat.min_eq_left h]

/-- The contents of slot number `slot`. -/
def slotBytes (q : MsgQueue) (slot : Nat) : List UInt8 :=
  load q.ring (slot * q.itemSize) q.itemSize

/-- Two slots do not overlap. -/
theorem slot_disjoint {i j : Nat} (size : Nat) (h : i ≠ j) :
    i * size + size ≤ j * size ∨ j * size + size ≤ i * size := by
  rcases Nat.lt_or_gt_of_ne h with h | h
  · left
    rw [← Nat.succ_mul]
    exact Nat.mul_le_mul_right size h
  · right
    rw [← Nat.succ_mul]
    exact Nat.mul_le_mul_right size h

/-! ## §2 The slots after a number of writes -/

/-- A message in a slot: its bytes, as many as fit, over what the slot held. -/
def overlay (itemSize : Nat) (old message : List UInt8) : List UInt8 :=
  message.take itemSize ++ old.drop (message.take itemSize).length

/-- Message number `k` goes to slot `k % cap`. -/
def slotsAfter (itemSize cap : Nat) (blank : Nat → List UInt8) (written : List (List UInt8)) :
    Nat → List UInt8 :=
  written.zipIdx.foldl (fun slots (message, k) =>
    Function.update slots (k % cap) (overlay itemSize (slots (k % cap)) message)) blank

/-- Read number `j` hands out as many bytes as were asked for, of the slot as
message number `j` has left it. -/
def Delivers (itemSize cap : Nat) (blank : Nat → List UInt8) (written : List (List UInt8)) (j : Nat)
    (result : Option UInt32 × List UInt8) : Prop :=
  result.2 = (slotsAfter itemSize cap blank (written.take (j + 1)) (j % cap)).take
    (want itemSize result.1)

theorem want_le (itemSize : Nat) (size : Option UInt32) : want itemSize size ≤ itemSize := by
  cases size with
  | none => exact Nat.le_refl _
  | some n => exact Nat.min_le_right _ _

theorem length_overlay {itemSize : Nat} {old : List UInt8} (h : old.length = itemSize)
    (message : List UInt8) : (overlay itemSize old message).length = itemSize := by
  rw [overlay, List.length_append, List.length_drop, List.length_take, h]
  omega

section Slots

variable {itemSize cap : Nat} {blank : Nat → List UInt8}

theorem slotsAfter_concat (written : List (List UInt8)) (message : List UInt8) :
    slotsAfter itemSize cap blank (written ++ [message]) =
      Function.update (slotsAfter itemSize cap blank written) (written.length % cap)
        (overlay itemSize (slotsAfter itemSize cap blank written (written.length % cap)) message) := by
  rw [slotsAfter, List.zipIdx_append, List.foldl_append, Nat.zero_add]
  rfl

theorem length_slotsAfter (h : ∀ i, (blank i).length = itemSize) (written : List (List UInt8)) (i : Nat) :
    (slotsAfter itemSize cap blank written i).length = itemSize := by
  induction written using List.reverseRecOn generalizing i with
  | nil => exact h i
  | append_singleton written message ih =>
    rw [slotsAfter_concat]
    by_cases hi : i = written.length % cap
    · subst hi
      rw [Function.update_self]
      exact length_overlay (ih _) _
    · rw [Function.update_of_ne hi]
      exact ih i

/-- Until the ring has come round, a slot stays as its message has left it. -/
theorem slotsAfter_take (written : List (List UInt8)) {j n : Nat} (hj : j + 1 ≤ n) (hn : n ≤ j + cap) :
    slotsAfter itemSize cap blank (written.take n) (j % cap) =
      slotsAfter itemSize cap blank (written.take (j + 1)) (j % cap) := by
  induction n, hj using Nat.le_induction with
  | base => rfl
  | succ n hj ih =>
    rw [← ih (by omega)]
    by_cases hlt : n < written.length
    · rw [List.take_succ_eq_append_getElem hlt, slotsAfter_concat, List.length_take,
        Nat.min_eq_left (by omega), Function.update_of_ne]
      intro heq
      have hsub : (n - j) % cap = 0 := Nat.sub_mod_eq_zero_of_mod_eq heq.symm
      rw [Nat.mod_eq_of_lt (by omega)] at hsub
      omega
    · rw [List.take_of_length_le (by omega), List.take_of_length_le (by omega)]

/-- The bytes of the message itself are handed out as far as they were stored and
asked for. -/
theorem Delivers.message {written : List (List UInt8)} {j : Nat} {result : Option UInt32 × List UInt8}
    (h : Delivers itemSize cap blank written j result) (hblank : ∀ i, (blank i).length = itemSize)
    {message : List UInt8} (hj : written[j]? = some message) :
    result.2.length = want itemSize result.1 ∧
      result.2.take message.length = message.take (want itemSize result.1) := by
  obtain ⟨hlt, rfl⟩ := List.getElem?_eq_some_iff.mp hj
  have hwant := want_le itemSize result.1
  have hold : (slotsAfter itemSize cap blank (written.take j) (j % cap)).length = itemSize :=
    length_slotsAfter hblank _ _
  rw [Delivers, List.take_succ_eq_append_getElem hlt, slotsAfter_concat, List.length_take,
    Nat.min_eq_left hlt.le, Function.update_self] at h
  have hlen : (overlay itemSize (slotsAfter itemSize cap blank (written.take j) (j % cap))
      written[j]).length = itemSize := length_overlay hold _
  refine ⟨by rw [h, List.length_take, hlen, Nat.min_eq_left hwant], ?_⟩
  rw [h, overlay, List.take_take]
  rcases Nat.le_total written[j].length itemSize with hle | hle
  · rw [List.take_of_length_le hle, List.take_append_of_le_length (Nat.min_le_left _ _), ← List.take_take,
      List.take_of_length_le (List.length_take_le' _ _)]
  · rw [Nat.min_eq_right (by omega), List.take_append_of_le_length (by rw [List.length_take]; omega),
      List.take_take, Nat.min_eq_left hwant]

end Slots

/-! ## §3 The two critical sections -/

/-- A write puts its message over what the next slot holds. -/
theorem writeCopy_spec {q q' : MsgQueue} {buffer : List UInt8} (h : q.writeCopy buffer = some q') :
    q.count < q.cap ∧ q'.count = q.count + 1 ∧ q'.itemSize = q.itemSize ∧ q'.cap = q.cap ∧
      q'.head = q.head ∧ q'.slotBytes = Function.update q.slotBytes ((q.head + q.count) % q.cap)
        (overlay q.itemSize (q.slotBytes ((q.head + q.count) % q.cap)) buffer) := by
  unfold writeCopy at h
  split at h
  · cases h
  · rename_i hroom
    cases h
    have htake : buffer.take (min buffer.length q.itemSize) = buffer.take q.itemSize := by
      rw [← List.take_take, List.take_of_length_le (List.length_take_le' _ _)]
    have hlen : (buffer.take q.itemSize).length ≤ q.itemSize := List.length_take_le _ _
    refine ⟨by omega, rfl, rfl, rfl, rfl, funext fun i => ?_⟩
    rw [slotBytes, htake]
    by_cases hi : i = (q.head + q.count) % q.cap
    · subst hi
      rw [Function.update_self]
      exact load_store _ _ hlen
    · rw [Function.update_of_ne hi]
      refine load_store_ne _ ?_
      have hdisjoint := slot_disjoint q.itemSize hi
      dsimp only at hdisjoint ⊢
      omega

/-- A read takes the first slot and leaves the slots alone. -/
theorem readCopy_spec {q q' : MsgQueue} {size : Option UInt32} {bytes : List UInt8}
    (h : q.readCopy size = some (bytes, q')) :
    0 < q.count ∧ q'.count = q.count - 1 ∧ q'.itemSize = q.itemSize ∧ q'.cap = q.cap ∧
      q'.head = (q.head + 1) % q.cap ∧ q'.slotBytes = q.slotBytes ∧
      bytes = (q.slotBytes q.head).take (want q.itemSize size) := by
  unfold readCopy at h
  split at h
  · cases h
  · rename_i hcount
    cases h
    exact ⟨Nat.pos_of_ne_zero hcount, rfl, rfl, rfl, rfl, rfl,
      (take_load _ _ (want_le _ _)).symm⟩

/-! ## §4 The invariant -/

structure Inv (itemSize cap : Nat) (blank : Nat → List UInt8) (s : State) : Prop where
  itemSize_eq : s.queue.itemSize = itemSize
  cap_eq : s.queue.cap = cap
  count_le : s.queue.count ≤ s.queue.cap
  balance : s.permits + s.holding + s.between = s.queue.count
  /-- the messages written have been read or are in the slots -/
  counted : s.written.length = s.read.length + s.queue.count
  head_eq : s.queue.head = s.read.length % cap
  slots : s.queue.slotBytes = slotsAfter itemSize cap blank s.written
  delivered : ∀ (j : Nat) (result : Option UInt32 × List UInt8), s.read[j]? = some result →
    Delivers itemSize cap blank s.written j result
  messages : s.writes.filterMap WriteCall.message? ~ s.written
  data : s.reads.filterMap ReadCall.data? ~ s.read
  filled : ∀ size, ReadCall.returned size .unfilled ∉ s.reads

section Inv

variable {itemSize cap : Nat} {blank : Nat → List UInt8} {s t : State}

theorem inv_init {memory : Nat → UInt8} {queueLen maxMsgsize : UInt16} {q : MsgQueue}
    (h : create memory queueLen maxMsgsize = some q) :
    Inv maxMsgsize.toNat queueLen.toNat q.slotBytes (init q) := by
  unfold create at h
  split at h
  · cases h
  · cases h
    exact ⟨rfl, rfl, Nat.zero_le _, rfl, rfl, (Nat.zero_mod _).symm, rfl, nofun, .nil, .nil, nofun⟩

theorem inv_stepWriter (h : Inv itemSize cap blank s) {k : Nat} {c : WriteCall} (hk : s.writes[k]? = some c)
    (hs : s.stepWriter k c = some t) : Inv itemSize cap blank t := by
  cases c with
  | entered buffer =>
    simp only [State.stepWriter] at hs
    split at hs
    · cases hs
      have hbetween : (s.writes.set k (.returned buffer false)).countP WriteCall.between = s.between :=
        Ledger.countP_set_eq _ hk rfl
      refine { h with balance := ?_, messages := ?_ }
      · simp only [State.between, hbetween]
        exact h.balance
      · rw [Ledger.filterMap_set_eq (y := .returned buffer false) _ hk rfl]
        exact h.messages
    · rename_i queue hwrite
      cases hs
      obtain ⟨hroom, hcount, hsize, hcap, hhead, hslots⟩ := writeCopy_spec hwrite
      have hbetween : (s.writes.set k (.stored buffer)).countP WriteCall.between = s.between + 1 :=
        Ledger.countP_set_insert _ hk rfl rfl
      refine ⟨hsize.trans h.itemSize_eq, hcap.trans h.cap_eq, ?_, ?_, ?_, hhead.trans h.head_eq, ?_, ?_, ?_,
        h.data, h.filled⟩
      · rw [hcount, hcap]
        exact hroom
      · have := h.balance
        simp only [State.between, State.holding] at hbetween this ⊢
        omega
      · have := h.counted
        simp only [List.length_append, List.length_singleton]
        omega
      · -- the slot behind the last one is that of the next number
        have hslot : (s.queue.head + s.queue.count) % s.queue.cap = s.written.length % cap := by
          rw [h.cap_eq, h.head_eq, h.counted, Nat.mod_add_mod]
        simp only [slotsAfter_concat]
        rw [hslots, hslot, h.itemSize_eq, h.slots]
      · intro j result hj
        have hlt : j < s.read.length := (List.getElem?_eq_some_iff.mp hj).1
        have hle : j + 1 ≤ s.written.length := by have := h.counted; omega
        have hold := h.delivered j result hj
        rw [Delivers] at hold ⊢
        rw [List.take_append_of_le_length hle]
        exact hold
      · refine (Ledger.filterMap_set_insert WriteCall.message? (y := .stored buffer) hk rfl rfl).trans ?_
        exact (h.messages.cons _).trans (List.perm_append_singleton _ _).symm
  | stored buffer =>
    simp only [State.stepWriter] at hs
    cases hs
    have hbetween := Ledger.countP_set WriteCall.between hk (.returned buffer true)
    refine { h with balance := ?_, messages := ?_ }
    · have := h.balance
      simp only [State.between, State.holding, WriteCall.between] at hbetween this ⊢
      simp only [if_true, Bool.false_eq_true, if_false] at hbetween
      omega
    · rw [Ledger.filterMap_set_eq (y := .returned buffer true) _ hk rfl]
      exact h.messages
  | returned buffer ok => cases hs

/-- A read call moves on without touching the queue. -/
theorem Inv.move (h : Inv itemSize cap blank s) {k permits : Nat} {c c' : ReadCall}
    (hk : s.reads[k]? = some c) (hdata : c'.data? = c.data?)
    (hfilled : ∀ size, c' ≠ .returned size .unfilled)
    (hpermits : permits + (s.reads.set k c').countP ReadCall.holds = s.permits + s.holding) :
    Inv itemSize cap blank { s with permits, reads := s.reads.set k c' } := by
  refine { h with balance := ?_, data := ?_, filled := ?_ }
  · have := h.balance
    simp only [State.holding, State.between] at hpermits this ⊢
    omega
  · rw [Ledger.filterMap_set_eq _ hk hdata]
    exact h.data
  · intro size hmem
    rcases Ledger.mem_set_cases hmem with heq | hmem
    · exact hfilled size heq.symm
    · exact h.filled size hmem

theorem inv_stepReader (h : Inv itemSize cap blank s) {k : Nat} {c : ReadCall} (hk : s.reads[k]? = some c)
    (hs : s.stepReader k c = some t) : Inv itemSize cap blank t := by
  cases c with
  | waiting size =>
    simp only [State.stepReader] at hs
    split at hs
    · rename_i hpermit
      cases hs
      refine h.move hk rfl nofun ?_
      rw [Ledger.countP_set_insert _ hk rfl rfl]
      simp only [State.holding]
      omega
    · cases hs
  | acquired size =>
    have hholding := Ledger.countP_set ReadCall.holds hk (.returned size .nok)
    have hbalance := h.balance
    simp only [ReadCall.holds, if_true, Bool.false_eq_true, if_false] at hholding
    simp only [State.holding, State.between] at hbalance
    simp only [State.stepReader] at hs
    split at hs
    · rename_i hempty
      -- the permit of this reader stands for a message
      unfold readCopy at hempty
      split at hempty
      · omega
      · cases hempty
    · rename_i bytes queue hread
      cases hs
      obtain ⟨hpos, hcount, hsize, hcap, hhead, hslots, hbytes⟩ := readCopy_spec hread
      have hcounted := h.counted
      have hle := h.count_le
      refine ⟨hsize.trans h.itemSize_eq, hcap.trans h.cap_eq, ?_, ?_, ?_, ?_, hslots.trans h.slots, ?_,
        h.messages, ?_, ?_⟩
      · dsimp only
        omega
      · have := Ledger.countP_set ReadCall.holds hk (.returned size (.filled bytes))
        simp only [ReadCall.holds, if_true, Bool.false_eq_true, if_false] at this
        simp only [State.holding, State.between]
        omega
      · simp only [List.length_append, List.length_singleton]
        omega
      · simp only [List.length_append, List.length_singleton]
        rw [hhead, h.cap_eq, h.head_eq, Nat.mod_add_mod]
      · intro j result hj
        rw [List.getElem?_append] at hj
        split at hj
        · exact h.delivered j result hj
        · rename_i hge
          rw [List.getElem?_singleton] at hj
          obtain ⟨hzero, hresult⟩ := Option.ite_none_right_eq_some.mp hj
          cases hresult
          have heq : j = s.read.length := by omega
          -- nothing has been written to the slot since
          rw [Delivers, hbytes, h.slots, h.itemSize_eq, h.head_eq, heq,
            ← slotsAfter_take s.written (n := s.written.length) (by omega) (by rw [← h.cap_eq]; omega),
            List.take_length]
      · refine (Ledger.filterMap_set_insert ReadCall.data? (y := .returned size (.filled bytes))
          hk rfl rfl).trans ?_
        exact (h.data.cons _).trans (List.perm_append_singleton _ _).symm
      · intro size' hmem
        rcases Ledger.mem_set_cases hmem with heq | hmem
        · cases heq
        · exact h.filled size' hmem
  | returned size result => cases hs

theorem inv_step (h : Inv itemSize cap blank s) {act : Action} (hs : step s act = some t) :
    Inv itemSize cap blank t := by
  cases act with
  | write buffer =>
    cases hs
    refine { h with balance := ?_, messages := ?_ }
    · have := h.balance
      simp only [State.between, List.countP_append] at this ⊢
      exact this
    · rw [List.filterMap_append, List.filterMap_cons_none rfl, List.filterMap_nil, List.append_nil]
      exact h.messages
  | read size =>
    cases hs
    refine { h with balance := ?_, data := ?_, filled := ?_ }
    · have := h.balance
      simp only [State.holding, List.countP_append] at this ⊢
      exact this
    · rw [List.filterMap_append, List.filterMap_cons_none rfl, List.filterMap_nil, List.append_nil]
      exact h.data
    · intro size' hmem
      rcases List.mem_append.mp hmem with hmem | hmem
      · exact h.filled size' hmem
      · cases List.mem_singleton.mp hmem
  | writer k =>
    obtain ⟨c, hk, hs⟩ := Option.bind_eq_some_iff.mp hs
    exact inv_stepWriter h hk hs
  | reader k =>
    obtain ⟨c, hk, hs⟩ := Option.bind_eq_some_iff.mp hs
    exact inv_stepReader h hk hs
  | timeout k =>
    obtain ⟨c, hk, hs⟩ := Option.bind_eq_some_iff.mp hs
    cases c with
    | waiting size =>
      cases hs
      refine h.move hk rfl nofun ?_
      rw [Ledger.countP_set_eq (y := .returned size .nok) _ hk rfl]
      rfl
    | acquired | returned => cases hs

end Inv

/-! ## §4 Main results -/

/-- **The run law of a message queue.** Every permit has its message, and the
reads hand out the slots of the messages in the order of the writes, each as its
message has left it: the bytes of the message, and behind them what the slot held
before. -/
theorem queue_run_law (memory : Nat → UInt8) (queueLen maxMsgsize : UInt16) {q : MsgQueue}
    {s : State} {as : List Action} (hcreate : create memory queueLen maxMsgsize = some q)
    (h : Steps step Always (init q) as s) :
    s.queue.count ≤ queueLen.toNat ∧ s.permits + s.holding + s.between = s.queue.count ∧
      s.writes.filterMap WriteCall.message? ~ s.written ∧
      s.reads.filterMap ReadCall.data? ~ s.read ∧
      (∀ size, ReadCall.returned size .unfilled ∉ s.reads) ∧
      s.written.length = s.read.length + s.queue.count ∧
      (∀ (j : Nat) (result : Option UInt32 × List UInt8), s.read[j]? = some result →
        Delivers maxMsgsize.toNat queueLen.toNat q.slotBytes s.written j result) ∧
      ∀ (j : Nat) (message : List UInt8) (result : Option UInt32 × List UInt8),
        s.written[j]? = some message → s.read[j]? = some result →
          result.2.length = want maxMsgsize.toNat result.1 ∧
            result.2.take message.length = message.take (want maxMsgsize.toNat result.1) := by
  have hinv := h.invariant (inv_init hcreate) fun t a u ht _ hs => inv_step ht hs
  refine ⟨?_, hinv.balance, hinv.messages, hinv.data, hinv.filled, hinv.counted, hinv.delivered, ?_⟩
  · rw [← hinv.cap_eq]
    exact hinv.count_le
  · intro j message result hmessage hresult
    have hsize : q.itemSize = maxMsgsize.toNat := (inv_init hcreate).itemSize_eq
    refine (hinv.delivered j result hresult).message (fun i => ?_) hmessage
    rw [slotBytes, length_load, hsize]

/-- A queue for two messages of two bytes: two messages go through, then a short
one is read into a buffer of four bytes. -/
def shortMessageRun : List Action :=
  [.write [1, 2], .writer 0, .writer 0, .read (some 4), .reader 0, .reader 0,
    .write [3], .writer 1, .writer 1, .read (some 4), .reader 1, .reader 1,
    .write [4], .writer 2, .writer 2, .read (some 4), .reader 2, .reader 2]

/-- The short message is read with the second byte of the message before it. -/
theorem queue_run_law_shortMessage : ∃ (q : MsgQueue) (s : State),
    create (fun _ => 0) 2 2 = some q ∧ s.written = [[1, 2], [3], [4]] ∧
      s.read = [(some 4, [1, 2]), (some 4, [3, 0]), (some 4, [4, 2])] ∧
      Delivers 2 2 q.slotBytes s.written 2 (some 4, [4, 2]) := by
  have hcreate : create (fun _ => 0) 2 2 = some ⟨fun _ => 0, 2, 2, 0, 0⟩ := rfl
  have hrun : (run step (init ⟨fun _ => 0, 2, 2, 0, 0⟩) shortMessageRun).map
      (fun s => (s.written, s.read)) =
      some ([[1, 2], [3], [4]], [(some 4, [1, 2]), (some 4, [3, 0]), (some 4, [4, 2])]) := by
    decide +kernel
  obtain ⟨s, hs, hlast⟩ := Option.map_eq_some_iff.mp hrun
  obtain ⟨hwritten, hread⟩ := Prod.mk.inj hlast
  obtain ⟨-, -, -, -, -, -, hdelivers, -⟩ := queue_run_law _ 2 2 hcreate (Steps.of_run hs)
  exact ⟨_, s, hcreate, hwritten, hread, hdelivers 2 _ (by rw [hread]; rfl)⟩

/-- A message whose writer has not reached `up` is counted and has no permit; and
a message of one byte is read as two, the second of an earlier message. -/
theorem queue_run_law_misstated :
    (¬ ∀ (memory : Nat → UInt8) (queueLen maxMsgsize : UInt16) (q : MsgQueue) (s : State)
        (as : List Action), create memory queueLen maxMsgsize = some q →
        Steps step Always (init q) as s →
          s.permits + s.holding = s.queue.count + s.between) ∧
      ¬ ∀ (memory : Nat → UInt8) (queueLen maxMsgsize : UInt16) (q : MsgQueue) (s : State)
        (as : List Action), create memory queueLen maxMsgsize = some q →
        Steps step Always (init q) as s →
          ∀ (i : Nat) (message : List UInt8) (result : Option UInt32 × List UInt8),
            s.written[i]? = some message → s.read[i]? = some result →
            message.length ≤ want maxMsgsize.toNat result.1 → result.2 = message := by
  have hcreate : create (fun _ => 0) 2 2 = some ⟨fun _ => 0, 2, 2, 0, 0⟩ := rfl
  constructor
  · intro h
    have hrun : (run step (init ⟨fun _ => 0, 2, 2, 0, 0⟩) [.write [1, 2], .writer 0]).map
        (fun s => (s.permits + s.holding, s.queue.count + s.between)) = some (0, 2) := by
      decide +kernel
    obtain ⟨s, hs, hlast⟩ := Option.map_eq_some_iff.mp hrun
    obtain ⟨hleft, hright⟩ := Prod.mk.inj hlast
    have heq := h _ 2 2 _ s _ hcreate (Steps.of_run hs)
    rw [hleft, hright] at heq
    cases heq
  · intro h
    have hrun : (run step (init ⟨fun _ => 0, 2, 2, 0, 0⟩) shortMessageRun).map
        (fun s => (s.written[2]?, s.read[2]?)) = some (some [4], some (some 4, [4, 2])) := by
      decide +kernel
    obtain ⟨s, hs, hlast⟩ := Option.map_eq_some_iff.mp hrun
    obtain ⟨hmessage, hresult⟩ := Prod.mk.inj hlast
    have heq := h _ 2 2 _ s _ hcreate (Steps.of_run hs) 2 _ _ hmessage hresult (by decide)
    cases heq

end HisiRiscv.Osal.MsgQueue
