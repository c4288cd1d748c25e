/-
HisiRiscv.Supplicant.EapolTransport — from the driver's EAPOL queue to hostap.

`drain_eapol` takes frames out of the driver's queue and hands source and payload of each to
hostap. The frames are looked at in the order in which they have arrived, each of them once; what is
handed over is what the EAPOL frames among them carry, whatever the budgets of the polls are and
whatever else the polls and the callbacks do. So everything that a peer has sent with `send_eapol`
comes through, if it fits into the receive buffer (`delivered_in_order`): the 800 bytes of a largest payload do
not fit there behind the header.

Translation notes. The driver's queue is first in, first out, and `IOCTL_RECEIVE_EAPOL` answers
0xffff when it is empty. It may fail with any other status at any time; then it has taken no frame,
and what it leaves in the buffer and in the length is arbitrary. What the ioctl does with a frame
that is longer than the buffer is not known, so that only frames that fit arrive here.

History variables: `arrivals` and `taken` list the frames that have come into the queue and out of it, `fed` the
pairs that hostap was called with.

  §1 Sending.
  §2 The machine.
  §3 One frame.
  §4 The invariant.
  §5 Main result.
-/
import HisiRiscv.Supplicant.Poll

namespace HisiRiscv.Supplicant.EapolTransport

open HisiRiscv.Machine
open HisiRiscv.ByteBuffer (copyAt copyAt_append)
open HisiRiscv.Supplicant.Poll (Pc)

/-! ## §1 Sending -/

def maxEapolPayloadLen : ℕ := 800

def eapolEthertype : List UInt8 := [0x88, 0x8e]

def buildEapolFrame (destination source : Vector UInt8 6) (payload : List UInt8) : Option (List UInt8) :=
  if payload.isEmpty ∨ maxEapolPayloadLen < payload.length then none
  else
    let storage : Vector UInt8 (ethernetHeaderLen + maxEapolPayloadLen) := Vector.replicate _ 0
    let storage := copyAt storage 0 destination.toList
    let storage := copyAt storage 6 source.toList
    let storage := copyAt storage 12 eapolEthertype
    let storage := copyAt storage ethernetHeaderLen payload
    some (storage.toList.take (ethernetHeaderLen + payload.length))

/-- The frame that `send_eapol` gives to the driver. The driver pointer may be another than ours, the two other pointers
may be null, and `get_own_address` may fail. -/
def sendEapol (ours : Bool) (destination : Option (Vector UInt8 6)) (payload : Option (List UInt8))
    (ownAddress : Option (Vector UInt8 6)) : Option (List UInt8) :=
  if !ours then none
  else
    match destination, payload with
    | some destination, some payload =>
        if payload.length = 0 ∨ maxEapolPayloadLen < payload.length then none
        else ownAddress.bind fun source => buildEapolFrame destination source payload
    | _, _ => none

/-! ## §2 The machine -/

structure State (sys : RadioSys) where
  poll : Poll.State sys
  /-- The driver's queue, and the buffer and the length of the last receive. -/
  driver : List (List UInt8)
  buffer : Vector UInt8 maxEapolRxFrameLen
  length : UInt32
  arrivals : List (List UInt8)
  taken : List (List UInt8)
  fed : List (List UInt8 × List UInt8)

def init (sys : RadioSys) : State sys where
  poll := Poll.init sys
  driver := []
  buffer := Vector.replicate _ 0
  length := 0
  arrivals := []
  taken := []
  fed := []

inductive Action where
  /-- A frame comes into the queue. -/
  | arrives (frame : List UInt8)
  /-- `IOCTL_RECEIVE_EAPOL` returns 0 or 0xffff. -/
  | receive
  /-- `IOCTL_RECEIVE_EAPOL` returns another status. -/
  | receiveFails (status : Int32) (length : UInt32) (buffer : Vector UInt8 maxEapolRxFrameLen)
  /-- Any other step. -/
  | other (a : Poll.Action)

def isReceive : Poll.Action → Bool
  | .receive _ _ _ => true
  | _ => false

/-- Before `hisi_wpa_feed_eapol`. -/
def feeding : Pc → Bool
  | .feedEapol _ _ => true
  | _ => false

variable {sys : RadioSys}

namespace State

/-- `source` and `payload` of the frame in the buffer. -/
def received (s : State sys) : List UInt8 × List UInt8 :=
  ((s.buffer.toList.drop 6).take 6, (s.buffer.toList.take s.length.toNat).drop ethernetHeaderLen)

/-- The frame that is about to be fed. -/
def inHand (s : State sys) : List (List UInt8 × List UInt8) := if feeding s.poll.pc then [s.received] else []

def receive (s : State sys) : Option (State sys) :=
  match s.driver with
  | [] => do
    let buffer := Vector.replicate _ 0
    let length := UInt32.ofNat maxEapolRxFrameLen
    let poll ← Poll.step s.poll (.receive 0xffff length buffer)
    return { s with poll, buffer, length }
  | frame :: driver => do
    let buffer := copyAt (Vector.replicate _ 0) 0 frame
    let length := UInt32.ofNat frame.length
    let poll ← Poll.step s.poll (.receive 0 length buffer)
    return { s with poll, driver, buffer, length, taken := s.taken ++ [frame] }

def receiveFails (s : State sys) (status : Int32) (length : UInt32)
    (buffer : Vector UInt8 maxEapolRxFrameLen) : Option (State sys) :=
  if status = 0 ∨ status = 0xffff then none
  else (Poll.step s.poll (.receive status length buffer)).map fun poll => { s with poll, buffer, length }

end State

def step (s : State sys) : Action → Option (State sys)
  | .arrives frame =>
      if frame.length ≤ maxEapolRxFrameLen then
        some { s with driver := s.driver ++ [frame], arrivals := s.arrivals ++ [frame] }
      else none
  | .receive => s.receive
  | .receiveFails status length buffer => s.receiveFails status length buffer
  | .other a =>
      if isReceive a then none
      else
        (Poll.step s.poll a).map fun poll =>
          { s with
            poll
            fed := if feeding s.poll.pc && !feeding poll.pc then s.fed ++ [s.received] else s.fed }

/-! ## §3 One frame -/

def isEapol (frame : List UInt8) : Bool :=
  ethernetHeaderLen < frame.length && (frame.drop 12).take 2 == eapolEthertype

/-- What a frame carries. -/
def view (frame : List UInt8) : List UInt8 × List UInt8 :=
  ((frame.drop 6).take 6, frame.drop ethernetHeaderLen)

theorem buildEapolFrame_eq {destination source : Vector UInt8 6} {payload : List UInt8} (hne : payload ≠ [])
    (hle : payload.length ≤ maxEapolPayloadLen) :
    buildEapolFrame destination source payload =
      some (destination.toList ++ source.toList ++ eapolEthertype ++ payload) := by
  have hcopy : ∀ storage : Vector UInt8 (ethernetHeaderLen + maxEapolPayloadLen),
      copyAt (copyAt (copyAt (copyAt storage 0 destination.toList) 6 source.toList) 12 eapolEthertype)
        ethernetHeaderLen payload = copyAt storage 0 (destination.toList ++ source.toList ++ eapolEthertype ++ payload) := by
    intro storage
    rw [copyAt_append, copyAt_append, copyAt_append]
    simp only [List.length_append, Vector.length_toList, Nat.zero_add]
    rfl
  have hlen : (destination.toList ++ source.toList ++ eapolEthertype ++ payload).length =
      ethernetHeaderLen + payload.length := by
    simp only [List.length_append, Vector.length_toList]
    rfl
  unfold buildEapolFrame
  rw [if_neg (by simp [hne, Nat.not_lt.mpr hle])]
  simp only
  rw [hcopy, ← hlen,
    take_copyAt_zero _ _ (by rw [hlen]; exact Nat.add_le_add_left hle _)]

section Frame

variable {frame : List UInt8}

theorem toList_buffer (h : frame.length ≤ maxEapolRxFrameLen) :
    (copyAt (Vector.replicate maxEapolRxFrameLen 0) 0 frame).toList =
      frame ++ List.replicate (maxEapolRxFrameLen - frame.length) 0 := by
  rw [ByteBuffer.toList_copyAt _ _ _ (by omega), Vector.toList_replicate, List.drop_replicate, Nat.zero_add]
  rfl

theorem toNat_length (h : frame.length ≤ maxEapolRxFrameLen) : (UInt32.ofNat frame.length).toNat = frame.length := by
  unfold maxEapolRxFrameLen at h
  rw [UInt32.toNat_ofNat', Nat.mod_eq_of_lt (by omega)]

theorem ethertype_buffer (buffer : Vector UInt8 maxEapolRxFrameLen) :
    (buffer.toList.drop 12).take 2 = [buffer[12], buffer[13]] := by
  rw [List.drop_eq_getElem_cons (by rw [Vector.length_toList]; decide),
    List.drop_eq_getElem_cons (by rw [Vector.length_toList]; decide)]
  simp

/-- What lies in the frame is read from the buffer. -/
theorem buffer_window (h : frame.length ≤ maxEapolRxFrameLen) (start count : ℕ) (hend : start + count ≤ frame.length) :
    ((copyAt (Vector.replicate maxEapolRxFrameLen 0) 0 frame).toList.drop start).take count =
      (frame.drop start).take count := by
  rw [toList_buffer h, List.drop_append_of_le_length (by omega), List.take_append_of_le_length]
  rw [List.length_drop]
  omega

/-- The checks on the buffer are checks on the frame. -/
theorem eapolFrameValid_eq (h : frame.length ≤ maxEapolRxFrameLen) :
    eapolFrameValid (UInt32.ofNat frame.length) (copyAt (Vector.replicate _ 0) 0 frame) = isEapol frame := by
  unfold eapolFrameValid isEapol
  rw [toNat_length h]
  by_cases hlen : ethernetHeaderLen < frame.length
  · rw [← buffer_window h 12 2 hlen.le, ethertype_buffer]
    simp [eapolEthertype, hlen, h]
  · simp [hlen]

/-- The buffer gives what the frame carries. -/
theorem received_eq {s : State sys} (h : frame.length ≤ maxEapolRxFrameLen) (hlen : ethernetHeaderLen < frame.length)
    (hbuffer : s.buffer = copyAt (Vector.replicate _ 0) 0 frame) (hlength : s.length = UInt32.ofNat frame.length) :
    s.received = view frame := by
  unfold ethernetHeaderLen at hlen
  have htake := buffer_window h 0 frame.length (Nat.zero_add _).le
  rw [List.drop_zero, List.drop_zero, List.take_length] at htake
  rw [State.received, hbuffer, hlength, toNat_length h, htake, buffer_window h 6 6 (by omega)]
  rfl

end Frame

/-! ## §4 The invariant -/

structure Inv (s : State sys) : Prop where
  arrivals : s.arrivals = s.taken ++ s.driver
  fits : ∀ frame ∈ s.driver, frame.length ≤ maxEapolRxFrameLen
  fed : s.fed ++ s.inHand = (s.taken.filter isEapol).map view

section Steps

variable {s t : State sys}

theorem inv_init : Inv (init sys) where
  arrivals := rfl
  fits _ h := nomatch h
  fed := rfl

/-- No step of the runner but a receive leads to a feed. -/
theorem feeding_of_advance {p q : Poll.State sys} {status : Int32} (hs : p.advance status = some q) :
    feeding q.pc = false := by
  cases hpc : p.pc with
  | idle | receive | hostap =>
    simp only [Poll.State.advance, hpc] at hs
    cases hs
  | overflow k g =>
    simp only [Poll.State.advance, hpc] at hs
    split at hs <;> cases hs
    · rfl
    · cases k <;> rfl
  | take k g b =>
    simp only [Poll.State.advance, hpc] at hs
    cases hs
    unfold Poll.State.stepTake
    split
    · cases k <;> rfl
    · split
      · cases k <;> rfl
      · simp only
        split <;> rfl
  | clear g b =>
    simp only [Poll.State.advance, hpc] at hs
    split at hs <;> cases hs <;> rfl
  | feed k g b =>
    simp only [Poll.State.advance, hpc] at hs
    cases hs
    unfold Poll.State.stepFeed
    simp only
    split <;> rfl
  | swap g b =>
    simp only [Poll.State.advance, hpc] at hs
    cases hs
    unfold Poll.State.stepSwap
    simp only
    split <;> rfl
  | feedEapol g b =>
    simp only [Poll.State.advance, hpc] at hs
    cases hs
    unfold Poll.State.stepFeedEapol
    split
    · rfl
    · split <;> rfl
  | discard =>
    simp only [Poll.State.advance, hpc] at hs
    split at hs <;> cases hs
    · exact congrArg feeding hpc
    · rfl

theorem feeding_of_step {p q : Poll.State sys} {a : Poll.Action} (ha : isReceive a = false)
    (hs : Poll.step p a = some q) (hq : feeding q.pc = true) : feeding p.pc = true := by
  cases Poll.step_cases hs with
  | advance h =>
    rw [feeding_of_advance h] at hq
    cases hq
  | receive => cases ha
  | poll | cancelCapture | hostapReturn => cases hq
  | refuse | announce | resultRefused | resultQueued | resultTruncated | scanDone | notify | beginCapture | startScan
  | ioctlReturn | setPort => exact hq

theorem feeding_of_receive {p q : Poll.State sys} {status : Int32} {length : UInt32}
    {buffer : Vector UInt8 maxEapolRxFrameLen} (hs : Poll.step p (.receive status length buffer) = some q) :
    feeding p.pc = false ∧ feeding q.pc = (status == 0 && eapolFrameValid length buffer) := by
  cases Poll.step_cases hs with
  | refuse hact => cases hact
  | announce e hact => cases hact
  | receive hpc =>
    refine ⟨by rw [hpc]; rfl, ?_⟩
    unfold Poll.State.stepReceive classifyEapolReceive
    by_cases hzero : status = 0
    · rw [if_pos hzero]
      simp only
      split
      · rename_i hvalid
        simp [hzero, hvalid, feeding]
      · rename_i hvalid
        simp [hvalid, feeding, Poll.State.return_]
    · rw [if_neg hzero]
      have hstatus : (status == 0) = false := beq_eq_false_iff_ne.mpr hzero
      rw [hstatus, Bool.false_and]
      split
      · rfl
      · rfl
      · rename_i h
        split at h <;> cases h

theorem inHand_of_not_feeding (h : feeding s.poll.pc = false) : s.inHand = [] := if_neg (by rw [h]; exact Bool.false_ne_true)

/-- The ioctl takes the oldest frame, or finds none. -/
theorem inv_receive (h : Inv s) (hs : s.receive = some t) : Inv t := by
  unfold State.receive at hs
  split at hs
  · obtain ⟨poll, hpoll, hs⟩ := Option.bind_eq_some_iff.mp hs
    cases hs
    obtain ⟨hbefore, hafter⟩ := feeding_of_receive hpoll
    refine ⟨h.arrivals, h.fits, ?_⟩
    have hfed := h.fed
    rw [inHand_of_not_feeding hbefore] at hfed
    rw [inHand_of_not_feeding hafter]
    exact hfed
  · rename_i frame driver hdriver
    obtain ⟨poll, hpoll, hs⟩ := Option.bind_eq_some_iff.mp hs
    cases hs
    have hfit : frame.length ≤ maxEapolRxFrameLen := h.fits frame (hdriver ▸ List.mem_cons_self)
    obtain ⟨hbefore, hafter⟩ := feeding_of_receive hpoll
    have hfed := h.fed
    rw [inHand_of_not_feeding hbefore, List.append_nil] at hfed
    rw [eapolFrameValid_eq hfit] at hafter
    refine ⟨by simp [h.arrivals, hdriver], fun f hf => h.fits f (hdriver ▸ List.mem_cons_of_mem _ hf), ?_⟩
    rw [List.filter_append, List.map_append, ← hfed]
    congr 1
    cases heapol : isEapol frame with
    | false =>
      rw [heapol] at hafter
      rw [inHand_of_not_feeding hafter]
      simp [heapol]
    | true =>
      rw [heapol] at hafter
      have hlen : ethernetHeaderLen < frame.length := by
        simp only [isEapol, Bool.and_eq_true, decide_eq_true_eq] at heapol
        exact heapol.1
      have hfeeds : feeding poll.pc = true := hafter
      rw [State.inHand, if_pos hfeeds, received_eq hfit hlen rfl rfl]
      simp [heapol]

/-- A receive that fails ends the poll with nothing in hand. -/
theorem inv_receiveFails (h : Inv s) {status : Int32} {length : UInt32}
    {buffer : Vector UInt8 maxEapolRxFrameLen} (hs : s.receiveFails status length buffer = some t) : Inv t := by
  obtain ⟨hstatus, hs⟩ := Option.ite_none_left_eq_some.mp hs
  obtain ⟨poll, hpoll, rfl⟩ := Option.map_eq_some_iff.mp hs
  obtain ⟨hbefore, hafter⟩ := feeding_of_receive hpoll
  have hzero : (status == 0) = false := beq_eq_false_iff_ne.mpr fun h => hstatus (.inl h)
  rw [hzero, Bool.false_and] at hafter
  have hfed := h.fed
  rw [inHand_of_not_feeding hbefore] at hfed
  refine ⟨h.arrivals, h.fits, ?_⟩
  rw [inHand_of_not_feeding hafter]
  exact hfed

theorem inv_step (h : Inv s) {a : Action} (hs : step s a = some t) : Inv t := by
  cases a with
  | arrives frame =>
    obtain ⟨hfit, hs⟩ := Option.ite_none_right_eq_some.mp hs
    cases hs
    refine ⟨by simp [h.arrivals], fun f hf => ?_, h.fed⟩
    rcases List.mem_append.mp hf with hf | hf
    · exact h.fits f hf
    · exact List.mem_singleton.mp hf ▸ hfit
  | receive => exact inv_receive h hs
  | receiveFails status length buffer => exact inv_receiveFails h hs
  | other a =>
    obtain ⟨ha, hs⟩ := Option.ite_none_left_eq_some.mp hs
    rw [Bool.not_eq_true] at ha
    obtain ⟨poll, hpoll, rfl⟩ := Option.map_eq_some_iff.mp hs
    refine ⟨h.arrivals, h.fits, ?_⟩
    have hfed := h.fed
    cases hbefore : feeding s.poll.pc with
    | false =>
      have hafter : feeding poll.pc = false := by
        by_contra hafter
        exact absurd (feeding_of_step ha hpoll (Bool.not_eq_false _ ▸ hafter)) (by rw [hbefore]; exact Bool.false_ne_true)
      rw [inHand_of_not_feeding hbefore] at hfed
      rw [inHand_of_not_feeding hafter]
      exact hfed
    | true =>
      have hin : s.inHand = [s.received] := if_pos hbefore
      rw [hin] at hfed
      cases hafter : feeding poll.pc with
      | false =>
        rw [inHand_of_not_feeding hafter]
        simpa using hfed
      | true =>
        rw [State.inHand, if_pos hafter]
        simp only [Bool.not_true, Bool.and_false, Bool.false_eq_true, if_false]
        exact hfed

end Steps

/-! ## §5 Main result -/

/-- A message of a peer: its address and the payload. -/
structure Message where
  source : Vector UInt8 6
  payload : List UInt8

/-- What a peer sends to this station arrives, and fits. -/
def Sent (own : Vector UInt8 6) (messages : List Message) (arrivals : List (List UInt8)) : Prop :=
  List.Forall₂ (fun m frame => sendEapol true (some own) (some m.payload) (some m.source) = some frame) messages arrivals

theorem view_of_sendEapol {own : Vector UInt8 6} {m : Message} {frame : List UInt8}
    (h : sendEapol true (some own) (some m.payload) (some m.source) = some frame) :
    isEapol frame = true ∧ view frame = (m.source.toList, m.payload) := by
  simp only [sendEapol, Bool.not_true, Bool.false_eq_true, if_false, Option.bind_some] at h
  obtain ⟨hlength, h⟩ := Option.ite_none_left_eq_some.mp h
  obtain ⟨hne, hle⟩ := not_or.mp hlength
  have hpos : 0 < m.payload.length := Nat.pos_of_ne_zero hne
  rw [buildEapolFrame_eq (List.ne_nil_of_length_pos hpos) (Nat.le_of_not_lt hle)] at h
  cases h
  have hown : own.toList.length = 6 := Vector.length_toList
  have hsource : m.source.toList.length = 6 := Vector.length_toList
  have hhead : (own.toList ++ m.source.toList).length = 12 := by rw [List.length_append, hown, hsource]
  have hall : (own.toList ++ m.source.toList ++ eapolEthertype).length = ethernetHeaderLen := by
    rw [List.length_append, hhead]
    rfl
  refine ⟨?_, ?_⟩
  · rw [isEapol, List.length_append, hall, List.append_assoc, List.drop_left' hhead]
    simp only [eapolEthertype, List.cons_append, List.nil_append, List.take_succ_cons, List.take_zero, BEq.rfl,
      Bool.and_true, decide_eq_true_eq]
    omega
  · rw [view, List.drop_left' hall, List.append_assoc, List.append_assoc, List.drop_left' hown, List.take_left' hsource]

theorem views_of_sent {own : Vector UInt8 6} {messages : List Message} {arrivals : List (List UInt8)}
    (h : Sent own messages arrivals) :
    (∀ frame ∈ arrivals, isEapol frame = true) ∧
      arrivals.map view = messages.map fun m => (m.source.toList, m.payload) := by
  induction h with
  | nil => exact ⟨fun _ hframe => (nomatch hframe), rfl⟩
  | cons hframe _ ih =>
    obtain ⟨heapol, hview⟩ := view_of_sendEapol hframe
    refine ⟨fun frame hmem => ?_, by rw [List.map_cons, List.map_cons, ih.2, hview]⟩
    rcases List.mem_cons.mp hmem with rfl | hmem
    · exact heapol
    · exact ih.1 frame hmem

/-- Hostap is handed what the EAPOL frames carry, in the order in which they have arrived and each of them once; so
the messages of a peer all come through. -/
theorem delivered_in_order {as : List Action} {s : State sys} (h : Steps step Always (init sys) as s) :
    s.arrivals = s.taken ++ s.driver ∧ s.fed ++ s.inHand = (s.taken.filter isEapol).map view ∧
      ∀ own messages, Sent own messages s.arrivals →
        s.fed ++ s.inHand ++ s.driver.map view = messages.map fun m => (m.source.toList, m.payload) := by
  have hinv : Inv s := h.invariant inv_init fun _ _ _ hI _ hs => inv_step hI hs
  refine ⟨hinv.arrivals, hinv.fed, fun own messages hsent => ?_⟩
  obtain ⟨heapol, hviews⟩ := views_of_sent hsent
  have htaken : s.taken.filter isEapol = s.taken :=
    List.filter_eq_self.mpr fun frame hframe => heapol frame (hinv.arrivals ▸ List.mem_append_left _ hframe)
  rw [hinv.fed, htaken, ← List.map_append, ← hinv.arrivals, hviews]

/-! ### Two messages and a budget of two -/

def ownAddress : Vector UInt8 6 := #v[2, 0, 0, 0, 1, 0]

def first : Message := ⟨#v[2, 0, 0, 0, 0, 9], [2, 3, 0, 95]⟩

def second : Message := ⟨#v[2, 0, 0, 0, 0, 9], [1, 1]⟩

def frameOf (m : Message) : List UInt8 := ownAddress.toList ++ m.source.toList ++ eapolEthertype ++ m.payload

/-- The first poll ends with an error of the ioctl, the second drains one frame, and the other message stays in the
queue. -/
def twoMessages : List Action :=
  [.arrives (frameOf first), .other .eapolNotify, .arrives (frameOf second), .other (.poll 2)] ++
    List.replicate 9 (.other (.advance 0)) ++
    [.receiveFails (-1) 800 (Vector.replicate _ 7), .other .eapolNotify, .other (.poll 2)] ++
    List.replicate 9 (.other (.advance 0)) ++ [.receive, .other (.advance 0), .other (.hostapReturns ⟨0, 0⟩)]

theorem run_twoMessages :
    (run step (init ⟨2304, 1⟩) twoMessages).map (fun s => (s.arrivals, s.fed, s.driver)) =
      some ([frameOf first, frameOf second], [(first.source.toList, first.payload)], [frameOf second]) := by
  decide +kernel

theorem delivered_in_order_twoMessages :
    ∃ s, run step (init ⟨2304, 1⟩) twoMessages = some s ∧
      s.fed ++ s.inHand ++ s.driver.map view = [first, second].map fun m => (m.source.toList, m.payload) := by
  obtain ⟨s, hrun, hs⟩ := Option.map_eq_some_iff.mp run_twoMessages
  have hsent : Sent ownAddress [first, second] s.arrivals := by
    rw [show s.arrivals = _ from congrArg Prod.fst hs]
    exact .cons (by decide +kernel) (.cons (by decide +kernel) .nil)
  exact ⟨s, hrun, (delivered_in_order (Steps.of_run hrun)).2.2 ownAddress _ hsent⟩

end HisiRiscv.Supplicant.EapolTransport
