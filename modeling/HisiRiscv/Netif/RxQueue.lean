/-
HisiRiscv.Netif.RxQueue — what comes out of the receive queue.

Frames come out in the order in which they went in, and a pop hands out as
much of one as its destination takes. A slot may still hold the end of an
earlier, longer frame, which its length cuts off. A frame of at most `mtu`
bytes is either accepted or counted as dropped, and a longer one is not
even looked at.

  §1 Slots.
  §2 The critical sections.
  §3 The invariant.
  §4 Main results.
-/
import Mathlib.Data.List.Forall2
import HisiRiscv.Lib.Ring
import HisiRiscv.Netif.Device

namespace HisiRiscv.Netif

open HisiRiscv.Machine

/-! ## §1 Slots -/

theorem take_copyFromSlice (buf src : List UInt8) : (copyFromSlice buf src).take src.length = src :=
  List.take_left

theorem length_copyFromSlice (buf src : List UInt8) :
    src.length ≤ (copyFromSlice buf src).length := by
  unfold copyFromSlice
  rw [List.length_append]
  exact Nat.le_add_right _ _

namespace Bridge

/-- The frame that a slot holds. -/
def frameAt (b : Bridge) (slot : Nat) : List UInt8 := (b.rx.getD slot []).take (b.rxLen.getD slot 0)

/-- The frames waiting, oldest first. -/
def queued (b : Bridge) : List (List UInt8) := Ring.window b.frameAt rxDepth b.rxHead b.rxCount

structure Ok (b : Bridge) : Prop where
  rx : b.rx.length = rxDepth
  rxLen : b.rxLen.length = rxDepth
  head : b.rxHead < rxDepth
  count : b.rxCount ≤ rxDepth
  fits : ∀ slot, b.rxLen.getD slot 0 ≤ (b.rx.getD slot []).length

theorem ok_new : new.Ok where
  rx := rfl
  rxLen := rfl
  head := by decide
  count := by decide
  fits slot := by
    have hzero : new.rxLen.getD slot 0 = 0 := by
      unfold new
      rw [List.getD_eq_getElem?_getD, List.getElem?_replicate]
      split <;> rfl
    rw [hzero]
    exact Nat.zero_le _

section

variable {b b' : Bridge}

/-- Nothing that the queue consists of changes. -/
theorem Ok.congr (h : b.Ok) (hrx : b'.rx = b.rx) (hlen : b'.rxLen = b.rxLen)
    (hhead : b'.rxHead = b.rxHead) (hcount : b'.rxCount = b.rxCount) : b'.Ok :=
  ⟨hrx ▸ h.rx, hlen ▸ h.rxLen, hhead ▸ h.head, hcount ▸ h.count, by rw [hrx, hlen]; exact h.fits⟩

theorem queued_congr (hrx : b'.rx = b.rx) (hlen : b'.rxLen = b.rxLen) (hhead : b'.rxHead = b.rxHead)
    (hcount : b'.rxCount = b.rxCount) : b'.queued = b.queued := by
  unfold queued frameAt
  rw [hrx, hlen, hhead, hcount]

@[simp] theorem length_queued (b : Bridge) : b.queued.length = b.rxCount := Ring.length_window ..

/-! ## §2 The critical sections -/

/-- Storing a frame changes one slot. -/
theorem Ok.slot_lt (h : b.Ok) : (b.rxHead + b.rxCount) % rxDepth < b.rx.length := by
  rw [h.rx]
  exact Nat.mod_lt _ (by decide)

theorem enqueue_self (h : b.Ok) (frame : List UInt8) :
    ((b.enqueue frame).rx.getD ((b.rxHead + b.rxCount) % rxDepth) [] =
        copyFromSlice (b.rx.getD ((b.rxHead + b.rxCount) % rxDepth) []) frame) ∧
      (b.enqueue frame).rxLen.getD ((b.rxHead + b.rxCount) % rxDepth) 0 = frame.length := by
  have hlt := h.slot_lt
  have hlt' : (b.rxHead + b.rxCount) % rxDepth < b.rxLen.length := by
    rw [h.rxLen]
    exact Nat.mod_lt _ (by decide)
  unfold enqueue
  refine ⟨?_, ?_⟩
  · rw [List.getD_eq_getElem?_getD, List.getElem?_modify_eq, List.getD_eq_getElem?_getD,
      List.getElem?_eq_getElem hlt]
    rfl
  · rw [List.getD_eq_getElem?_getD, List.getElem?_set_self hlt']
    rfl

theorem enqueue_ne (frame : List UInt8) {slot : Nat} (hne : slot ≠ (b.rxHead + b.rxCount) % rxDepth) :
    (b.enqueue frame).rx.getD slot [] = b.rx.getD slot [] ∧
      (b.enqueue frame).rxLen.getD slot 0 = b.rxLen.getD slot 0 := by
  unfold enqueue
  refine ⟨?_, ?_⟩
  · rw [List.getD_eq_getElem?_getD, List.getElem?_modify_ne _ _ (Ne.symm hne),
      ← List.getD_eq_getElem?_getD]
  · rw [List.getD_eq_getElem?_getD, List.getElem?_set_ne (Ne.symm hne),
      ← List.getD_eq_getElem?_getD]

theorem Ok.enqueue (h : b.Ok) (frame : List UInt8) (hroom : b.rxCount < rxDepth) :
    (b.enqueue frame).Ok where
  rx := (List.length_modify ..).trans h.rx
  rxLen := (List.length_set ..).trans h.rxLen
  head := h.head
  count := hroom
  fits slot := by
    by_cases hslot : slot = (b.rxHead + b.rxCount) % rxDepth
    · obtain ⟨hrx, hlen⟩ := enqueue_self h frame
      rw [hslot, hrx, hlen]
      exact length_copyFromSlice _ _
    · obtain ⟨hrx, hlen⟩ := enqueue_ne frame hslot
      rw [hrx, hlen]
      exact h.fits slot

/-- A frame that is stored is the last one. -/
theorem queued_enqueue (h : b.Ok) (frame : List UInt8) (hroom : b.rxCount < rxDepth) :
    (b.enqueue frame).queued = b.queued ++ [frame] := by
  have hkeep : ∀ slot < rxDepth, slot ≠ (b.rxHead + b.rxCount) % rxDepth →
      (b.enqueue frame).frameAt slot = b.frameAt slot := by
    intro slot _ hslot
    obtain ⟨hrx, hlen⟩ := enqueue_ne frame hslot
    unfold frameAt
    rw [hrx, hlen]
  have hframe : (b.enqueue frame).frameAt ((b.rxHead + b.rxCount) % rxDepth) = frame := by
    obtain ⟨hrx, hlen⟩ := enqueue_self h frame
    unfold frameAt
    rw [hrx, hlen]
    exact take_copyFromSlice _ _
  refine (Ring.window_push hroom hkeep).trans ?_
  rw [hframe]
  rfl

/-- A pop removes the first frame, and copies as much of it as fits. -/
theorem rxPop_spec (h : b.Ok) {into into' : List UInt8} {copied : Nat}
    (hpop : b.rxPop into = some (copied, into', b')) :
    b'.Ok ∧ b'.rxCount < b.rxCount ∧ b'.rxDropped = b.rxDropped ∧
      b'.rxHighWatermark = b.rxHighWatermark ∧
      ∃ frame, b.queued = frame :: b'.queued ∧ into'.take copied = frame.take into.length := by
  obtain ⟨hcount, hpop⟩ := Option.ite_none_left_eq_some.mp hpop
  obtain ⟨rfl, rfl, rfl⟩ : _ ∧ _ ∧ _ := by
    have hpair := Prod.mk.inj (Option.some.inj hpop)
    exact ⟨hpair.1, Prod.mk.inj hpair.2⟩
  have hpos : 0 < b.rxCount := Nat.pos_of_ne_zero hcount
  refine ⟨⟨h.rx, h.rxLen, Nat.mod_lt _ (by decide), ?_, h.fits⟩, Nat.sub_lt hpos Nat.one_pos, rfl,
    rfl, _, Ring.window_pop _ h.head hpos, ?_⟩
  · exact (Nat.sub_le ..).trans h.count
  · have hfits := h.fits b.rxHead
    have hlen : ((b.rx.getD b.rxHead []).take (min (b.rxLen.getD b.rxHead 0) into.length)).length =
        min (b.rxLen.getD b.rxHead 0) into.length := by
      rw [List.length_take]
      omega
    have htake := take_copyFromSlice into
      ((b.rx.getD b.rxHead []).take (min (b.rxLen.getD b.rxHead 0) into.length))
    rw [hlen] at htake
    rw [htake, frameAt, List.take_take, Nat.min_comm]

end

end Bridge

/-! ## §3 The invariant -/

structure Queue (s : State) : Prop where
  ok : s.bridge.Ok
  fifo : ∃ frames, s.accepted = frames ++ s.bridge.queued ∧
    List.Forall₂ (fun r frame => r.copied = frame.take r.room) s.returned frames
  order : s.accepted.Sublist s.pushed
  all : s.pushed.Perm (s.accepted ++ s.rejected)
  dropped : s.bridge.rxDropped.toNat = min s.rejectedNow (2 ^ 32 - 1)
  watermark : s.bridge.rxHighWatermark ∈ s.counts
  bound : ∀ n ∈ s.counts, n ≤ s.bridge.rxHighWatermark
  current : s.bridge.rxCount ∈ s.counts

section Queue

variable {s t : State}

theorem queue_init : Queue init where
  ok := Bridge.ok_new
  fifo := ⟨[], rfl, .nil⟩
  order := .slnil
  all := .refl _
  dropped := rfl
  watermark := List.mem_singleton_self _
  bound n hn := by
    rw [List.mem_singleton.mp hn]
    exact Nat.zero_le _
  current := List.mem_singleton_self _

/-- Neither the queue nor the history changes. -/
theorem Queue.congr (h : Queue s) (hrx : t.bridge.rx = s.bridge.rx)
    (hlen : t.bridge.rxLen = s.bridge.rxLen) (hhead : t.bridge.rxHead = s.bridge.rxHead)
    (hcount : t.bridge.rxCount = s.bridge.rxCount) (hdropped : t.bridge.rxDropped = s.bridge.rxDropped)
    (hwatermark : t.bridge.rxHighWatermark = s.bridge.rxHighWatermark)
    (hhistory : (t.pushed, t.accepted, t.rejected, t.returned, t.rejectedNow, t.counts) =
      (s.pushed, s.accepted, s.rejected, s.returned, s.rejectedNow, s.counts)) : Queue t := by
  simp only [Prod.mk.injEq] at hhistory
  obtain ⟨hpushed, haccepted, hrejected, hreturned, hnow, hcounts⟩ := hhistory
  refine ⟨h.ok.congr hrx hlen hhead hcount, ?_, ?_, ?_, ?_, ?_, ?_, ?_⟩
  · rw [haccepted, Bridge.queued_congr hrx hlen hhead hcount, hreturned]
    exact h.fifo
  · rw [haccepted, hpushed]
    exact h.order
  · rw [haccepted, hpushed, hrejected]
    exact h.all
  · rw [hdropped, hnow]
    exact h.dropped
  · rw [hwatermark, hcounts]
    exact h.watermark
  · rw [hwatermark, hcounts]
    exact h.bound
  · rw [hcount, hcounts]
    exact h.current

theorem toNat_saturatingSucc {n : UInt32} {m : Nat} (h : n.toNat = min m (2 ^ 32 - 1)) :
    (saturatingSucc n).toNat = min (m + 1) (2 ^ 32 - 1) := by
  unfold saturatingSucc
  split
  · rename_i hmax
    have hmax : n.toNat = 0xffffffff := congrArg UInt32.toNat hmax
    omega
  · rename_i hne
    have hlt : n.toNat ≠ 0xffffffff := fun heq => hne (UInt32.toNat_inj.mp heq)
    rw [UInt32.toNat_add, UInt32.toNat_one, Nat.mod_eq_of_lt (by omega)]
    omega

/-- No count is above the watermark. -/
theorem Queue.bound_append (h : Queue s) {n mark : Nat} (hmark : s.bridge.rxHighWatermark ≤ mark)
    (hn : n ≤ mark) : ∀ m ∈ s.counts ++ [n], m ≤ mark := by
  intro m hm
  rcases List.mem_append.mp hm with hm | hm
  · exact (h.bound m hm).trans hmark
  · rw [List.mem_singleton.mp hm]
    exact hn

/-- `rx_push` finds the queue full. -/
theorem Queue.reject (h : Queue s) {b : Bridge} {frame : List UInt8} (hok : b.Ok)
    (hqueued : b.queued = s.bridge.queued) (hcount : b.rxCount = s.bridge.rxCount)
    (hdropped : b.rxDropped = saturatingSucc s.bridge.rxDropped)
    (hwatermark : b.rxHighWatermark = s.bridge.rxHighWatermark) :
    Queue { s with
      bridge := b
      pushed := s.pushed ++ [frame]
      rejected := s.rejected ++ [frame]
      rejectedNow := s.rejectedNow + 1
      counts := s.counts ++ [b.rxCount] } where
  ok := hok
  fifo := by
    rw [hqueued]
    exact h.fifo
  order := h.order.trans (List.sublist_append_left _ _)
  all := by
    dsimp only
    rw [← List.append_assoc]
    exact h.all.append_right _
  dropped := by
    dsimp only
    rw [hdropped]
    exact toNat_saturatingSucc h.dropped
  watermark := by
    dsimp only
    rw [hwatermark]
    exact List.mem_append_left _ h.watermark
  bound := by
    dsimp only
    rw [hwatermark, hcount]
    exact h.bound_append (Nat.le_refl _) (h.bound _ h.current)
  current := List.mem_append_right _ List.mem_cons_self

/-- `rx_push` stores a frame. -/
theorem Queue.accept (h : Queue s) {b : Bridge} {frame : List UInt8} (hok : b.Ok)
    (hqueued : b.queued = s.bridge.queued ++ [frame]) (hdropped : b.rxDropped = s.bridge.rxDropped)
    (hwatermark : b.rxHighWatermark = max s.bridge.rxHighWatermark b.rxCount) :
    Queue { s with
      bridge := b
      pushed := s.pushed ++ [frame]
      accepted := s.accepted ++ [frame]
      counts := s.counts ++ [b.rxCount] } where
  ok := hok
  fifo := by
    obtain ⟨frames, haccepted, hreturned⟩ := h.fifo
    refine ⟨frames, ?_, hreturned⟩
    dsimp only
    rw [hqueued, haccepted, List.append_assoc]
  order := h.order.append (List.Sublist.refl _)
  all := by
    refine (h.all.append_right [frame]).trans ?_
    dsimp only
    rw [List.append_assoc, List.append_assoc]
    exact List.perm_append_comm.append_left _
  dropped := by
    dsimp only
    rw [hdropped]
    exact h.dropped
  watermark := by
    -- the new count is the watermark, or below it
    dsimp only
    rw [hwatermark]
    rcases Nat.le_total s.bridge.rxHighWatermark b.rxCount with hle | hle
    · rw [Nat.max_eq_right hle]
      exact List.mem_append_right _ List.mem_cons_self
    · rw [Nat.max_eq_left hle]
      exact List.mem_append_left _ h.watermark
  bound := by
    dsimp only
    rw [hwatermark]
    exact h.bound_append (Nat.le_max_left _ _) (Nat.le_max_right _ _)
  current := List.mem_append_right _ List.mem_cons_self

/-- `rx_push`. -/
theorem Queue.push (h : Queue s) (frame : List UInt8) : Queue (s.push frame) := by
  have hok : (s.bridge.observe frame).Ok := h.ok.congr rfl rfl rfl rfl
  unfold State.push Bridge.rxPush
  split
  · exact h
  · dsimp only
    split
    · rename_i hfull
      rw [if_pos (show rxDepth ≤ (s.bridge.observe frame).rxCount from hfull)]
      exact h.reject (hok.congr rfl rfl rfl rfl) rfl rfl rfl rfl
    · rename_i hroom
      have hroom : ¬rxDepth ≤ (s.bridge.observe frame).rxCount := hroom
      rw [if_neg hroom]
      have hlt := Nat.lt_of_not_le hroom
      exact h.accept (hok.enqueue frame hlt) (Bridge.queued_enqueue hok frame hlt) rfl rfl

/-- `rx_pop` finds a frame. -/
theorem Queue.pop (h : Queue s) {into into' : List UInt8} {copied : Nat} {b : Bridge}
    (hpop : s.bridge.rxPop into = some (copied, into', b)) :
    Queue (s.popped b into.length (into'.take copied)) := by
  obtain ⟨hok, hlt, hdropped, hwatermark, frame, hqueued, hcopied⟩ := Bridge.rxPop_spec h.ok hpop
  obtain ⟨frames, haccepted, hreturned⟩ := h.fifo
  refine ⟨hok, ⟨frames ++ [frame], ?_, ?_⟩, h.order, h.all, ?_, ?_, ?_, ?_⟩
  · unfold State.popped
    dsimp only
    rw [haccepted, hqueued, List.append_assoc]
    rfl
  · exact List.rel_append hreturned (.cons hcopied .nil)
  · exact (congrArg UInt32.toNat hdropped).trans h.dropped
  · exact hwatermark ▸ List.mem_append_left _ h.watermark
  · exact hwatermark ▸ h.bound_append (Nat.le_refl _) (hlt.le.trans (h.bound _ h.current))
  · exact List.mem_append_right _ List.mem_cons_self

theorem queue_step (h : Queue s) {act : Action} (hs : step s act = some t) : Queue t := by
  cases act with
  | push frame =>
    cases hs
    exact h.push frame
  | takeReceived out =>
    cases hs
    unfold State.takeReceived
    split
    · exact h
    · rename_i hpop
      exact h.pop hpop
  | reset =>
    cases hs
    refine ⟨h.ok.congr rfl rfl rfl rfl, h.fifo, h.order, h.all, rfl, ?_, ?_, ?_⟩
    · exact List.mem_singleton_self _
    · intro n hn
      exact (List.mem_singleton.mp hn).le
    · exact List.mem_singleton_self _
  | setTxSink sink | receive =>
    cases hs
    exact h.congr rfl rfl rfl rfl rfl rfl rfl
  | transmit =>
    simp only [step] at hs
    split at hs <;> cases hs
    · exact h
    · exact h.congr rfl rfl rfl rfl rfl rfl rfl
  | call k =>
    obtain ⟨r, -, hs⟩ := Option.bind_eq_some_iff.mp hs
    cases r with
    | entered | claimed =>
      simp only [State.stepReceive] at hs
      split at hs <;> cases hs <;> exact h.congr rfl rfl rfl rfl rfl rfl rfl
    | rollingBack | emptied =>
      cases hs
      exact h.congr rfl rfl rfl rfl rfl rfl rfl
    | popping =>
      simp only [State.stepReceive] at hs
      split at hs
      · cases hs
        exact h.congr rfl rfl rfl rfl rfl rfl rfl
      · rename_i hpop
        cases hs
        exact (h.pop hpop).congr rfl rfl rfl rfl rfl rfl rfl
    | returned => cases hs
  | rxConsume k | rx k | rxDrop k =>
    obtain ⟨token, -, hs⟩ := Option.bind_eq_some_iff.mp hs
    cases token <;> cases hs <;> exact h.congr rfl rfl rfl rfl rfl rfl rfl
  | txConsume k len | tx k | txDrop k =>
    obtain ⟨token, -, hs⟩ := Option.bind_eq_some_iff.mp hs
    cases token <;> cases hs <;> exact h.congr rfl rfl rfl rfl rfl rfl rfl
  | txFill k data =>
    obtain ⟨token, -, hs⟩ := Option.bind_eq_some_iff.mp hs
    cases token with
    | writing len =>
      obtain ⟨-, hs⟩ := Option.ite_none_right_eq_some.mp hs
      cases hs
      exact h.congr rfl rfl rfl rfl rfl rfl rfl
    | live | emitting | sinking | clearing | cleared | dropped => cases hs

/-! ## §4 Main results -/

/-- **The receive queue.** The frames accepted are those returned, each as far as
the destination takes it, and then those queued, in the order in which they were
pushed; the queue is never longer than its depth; the watermark is the largest
of its lengths; and every other frame of at most `mtu` bytes was counted. A
pop returns a frame whenever one is queued, and a longer frame changes nothing. -/
theorem rx_queue_law {as : List Action} {s : State} (h : Steps step Always init as s) :
    (∃ frames, s.accepted = frames ++ s.bridge.queued ∧
        List.Forall₂ (fun r frame => r.copied = frame.take r.room) s.returned frames) ∧
      s.accepted.Sublist s.pushed ∧ s.pushed.Perm (s.accepted ++ s.rejected) ∧
      s.bridge.rxQueueDiagnostics.pending = s.bridge.queued.length ∧
      s.bridge.rxQueueDiagnostics.pending ≤ rxDepth ∧
      (s.bridge.rxQueueDiagnostics.highWatermark ∈ s.counts ∧
        ∀ n ∈ s.counts, n ≤ s.bridge.rxQueueDiagnostics.highWatermark) ∧
      s.bridge.rxQueueDiagnostics.dropped.toNat = min s.rejectedNow (2 ^ 32 - 1) ∧
      (∀ into : List UInt8, s.bridge.queued ≠ [] → (s.bridge.rxPop into).isSome = true) ∧
      ∀ frame : List UInt8, mtu < frame.length → step s (.push frame) = some s := by
  have hinv := h.invariant queue_init fun _ _ _ ht _ hs => queue_step ht hs
  refine ⟨hinv.fifo, hinv.order, hinv.all, (Bridge.length_queued _).symm, hinv.ok.count,
    ⟨hinv.watermark, hinv.bound⟩, hinv.dropped, fun into hne => ?_, fun frame hlong => ?_⟩
  · have hsome : s.bridge.rxCount ≠ 0 := fun hzero =>
      hne (List.eq_nil_of_length_eq_zero ((Bridge.length_queued _).trans hzero))
    rw [Bridge.rxPop, if_neg hsome]
    rfl
  have hsame : s.bridge.rxPush frame = s.bridge := if_pos hlong
  simp only [step, State.push, hsame, if_pos hlong]

end Queue

/-- Five frames are pushed, of which the last finds no room; two are taken, the
first into one byte; and a sixth is pushed. -/
def wrapsAround : List Action :=
  [.push [1, 2, 3], .push [4, 5], .push [6], .push [7], .push [8], .takeReceived [0],
    .takeReceived [0, 0, 0, 0], .push [9, 10]]

theorem rx_queue_law_sample : ∃ s : State,
    (s.returned, s.bridge.queued) = ([⟨1, [1]⟩, ⟨4, [4, 5]⟩], [[6], [7], [9, 10]]) ∧
      (∃ frames, s.accepted = frames ++ s.bridge.queued) ∧
      s.bridge.rxQueueDiagnostics.dropped.toNat = min s.rejectedNow (2 ^ 32 - 1) := by
  have hrun : (run step init wrapsAround).map (fun s => (s.returned, s.bridge.queued)) =
      some ([⟨1, [1]⟩, ⟨4, [4, 5]⟩], [[6], [7], [9, 10]]) := by decide +kernel
  obtain ⟨s, hs, hlast⟩ := Option.map_eq_some_iff.mp hrun
  obtain ⟨⟨frames, haccepted, -⟩, -, -, -, -, -, hdropped, -⟩ := rx_queue_law (Steps.of_run hs)
  exact ⟨s, hlast, ⟨frames, haccepted⟩, hdropped⟩

end HisiRiscv.Netif
