/-
HisiRiscv.Supplicant.Queues — the four slot queues of
`upstream_supplicant.rs` as layouts.

Each layout lists the payload cells of its slot type, the writes of its
`enqueue` body in program order (a `copy_from_slice` is one write a byte)
and the accessors of its guard. `MAX_SCAN_IE_LEN` and `ABI_VERSION` are
constants of the `ws63_radio_sys` crate, which is not part of the
repository; they are the fields of `RadioSys`.

The checks in `accepts` are the ones that count an event as dropped before
a sequence number is taken: the length checks of `MgmtRxQueue::enqueue`
and `LinkEventQueue::enqueue`, none for `ExternalAuthQueue`, and for the
scan queue the descriptor check of `enqueue_result` (`enqueue_done` passes
it by construction).
-/
import HisiRiscv.Lib.ByteBuffer
import HisiRiscv.Supplicant.Slots

namespace HisiRiscv.Supplicant

open HisiRiscv.ByteBuffer

/-- The constants of `ws63_radio_sys::supplicant` the queues use. -/
structure RadioSys where
  maxScanIeLen : Nat
  abiVersion : UInt32

def maxMgmtFrameLen : Nat := 768
def mgmtRxQueueDepth : Nat := 8
def scanEventQueueDepth : Nat := 33
def linkEventQueueDepth : Nat := 4
def externalAuthQueueDepth : Nat := 2
def maxAssociationIeLen : Nat := 768

abbrev Bssid := Vector UInt8 6

/-! ## Byte copies into a slot -/

/-- The writes of `buffer[..src.len()].copy_from_slice(src)`, one a byte;
`put` stores a byte of the buffer into the cells. -/
def copyWrites {β : Type} (put : Nat → UInt8 → β → β) (src : List UInt8) : List (β → β) :=
  (List.range src.length).map fun i => put i src[i]!

/-- Byte writes that only touch one buffer of the cells amount to a copy
into that buffer. -/
theorem applyWrites_copyWrites {β : Type} {n : Nat} (build : Vector UInt8 n → β)
    (put : Nat → UInt8 → β → β) (hput : ∀ i b buf, put i b (build buf) = build (buf.set! i b))
    (src : List UInt8) (buf : Vector UInt8 n) :
    applyWrites (copyWrites put src) (build buf) = build (copyAt buf 0 src) := by
  have hloop : ∀ (is : List Nat) (buf : Vector UInt8 n),
      applyWrites (is.map fun i => put i src[i]!) (build buf) =
        build (is.foldl (fun buf i => buf.set! i src[i]!) buf) := by
    intro is
    induction is with
    | nil => intro buf; rfl
    | cons i is ih =>
      intro buf
      simp only [List.map_cons, applyWrites, List.foldl_cons, hput]
      exact ih _
  have hcopy := foldl_set!_eq_copyAt (fun i => src[i]!) 0 buf src.length
  simp only [Nat.zero_add] at hcopy
  have hsrc : (List.range src.length).map (fun i => src[i]!) = src := by
    apply List.ext_getElem (by simp)
    intro i h₁ h₂
    rw [List.getElem_map, List.getElem_range, getElem!_pos]
  rw [copyWrites, hloop, hcopy, hsrc]

/-- The prefix a copy fills is the source of the copy. -/
theorem take_copyAt_zero {n : Nat} (buf : Vector UInt8 n) (src : List UInt8) (h : src.length ≤ n) :
    (copyAt buf 0 src).toList.take src.length = src := by
  have htake := take_copyAt buf 0 src (by omega)
  rwa [Nat.zero_add, List.take_zero, List.nil_append] at htake

theorem applyWrites_append {β : Type} (ws vs : List (β → β)) (c : β) :
    applyWrites (ws ++ vs) c = applyWrites vs (applyWrites ws c) :=
  List.foldl_append

/-! ## `MgmtRxQueue` -/

structure MgmtMeta where
  frequencyMhz : UInt32
  rssiDbm : Int32
  frameLen : Nat

structure MgmtCells where
  metadata : MgmtMeta
  frame : Vector UInt8 maxMgmtFrameLen

/-- The arguments of `MgmtRxQueue::enqueue`. -/
structure MgmtEvent where
  frequencyMhz : UInt32
  rssiDbm : Int32
  frame : List UInt8
  deriving DecidableEq

def mgmtRxQueue : Layout where
  Event := MgmtEvent
  Cells := MgmtCells
  depth := mgmtRxQueueDepth
  blank := ⟨⟨0, 0, 0⟩, Vector.replicate _ 0⟩
  accepts e := !(e.frame.isEmpty || e.frame.length > maxMgmtFrameLen)
  writes e :=
    (fun c => { c with metadata := ⟨e.frequencyMhz, e.rssiDbm, e.frame.length⟩ }) ::
      copyWrites (fun i b c => { c with frame := c.frame.set! i b }) e.frame
  read c := ⟨c.metadata.frequencyMhz, c.metadata.rssiDbm, c.frame.toList.take c.metadata.frameLen⟩
  read_writes := by
    intro e c hacc
    have hlen : e.frame.length ≤ maxMgmtFrameLen := by
      simp only [Bool.not_eq_true', Bool.or_eq_false_iff, decide_eq_false_iff_not] at hacc
      omega
    rw [applyWrites, List.foldl_cons]
    rw [← applyWrites, applyWrites_copyWrites
      (fun buf => (⟨⟨e.frequencyMhz, e.rssiDbm, e.frame.length⟩, buf⟩ : MgmtCells))
      (fun i b c => { c with frame := c.frame.set! i b }) (fun _ _ _ => rfl)]
    simp only [take_copyAt_zero _ _ hlen]

/-! ## `ScanEventQueue` -/

def scanEventResult : UInt8 := 1
def scanEventDone : UInt8 := 2

structure ScanMeta where
  kind : UInt8
  capabilities : UInt16
  flags : UInt32
  bssid : Bssid
  frequencyMhz : Int32
  beaconInterval : UInt16
  quality : Int32
  levelMbm : Int32
  ageMs : UInt32
  ieLen : Nat
  beaconIeLen : Nat
  status : Int32
  deriving DecidableEq

structure ScanCells (sys : RadioSys) where
  metadata : ScanMeta
  ies : Vector UInt8 sys.maxScanIeLen

/-- The arguments of `ScanEventQueue::enqueue`. -/
structure ScanEvent where
  metadata : ScanMeta
  ies : List UInt8
  deriving DecidableEq

def ScanMeta.zero : ScanMeta :=
  ⟨0, 0, 0, Vector.replicate 6 0, 0, 0, 0, 0, 0, 0, 0, 0⟩

/-- The event `enqueue_scan_result` queues. -/
def ScanEvent.result (metadata : ScanMeta) (ies : List UInt8) : ScanEvent :=
  ⟨{ metadata with kind := scanEventResult, status := 0 }, ies⟩

/-- The terminal event `enqueue_done` queues. -/
def ScanEvent.done (status : Int32) : ScanEvent :=
  ⟨{ ScanMeta.zero with kind := scanEventDone, status := status }, []⟩

def ScanEvent.isDone (e : ScanEvent) : Bool := e.metadata.kind == scanEventDone

/-- `crate::wifi::MAX_SCAN_RESULTS`, the cap of a scan transaction. -/
def maxScanResults : Nat := 32

def scanEventQueue (sys : RadioSys) : Layout where
  Event := ScanEvent
  Cells := ScanCells sys
  depth := scanEventQueueDepth
  blank := ⟨ScanMeta.zero, Vector.replicate _ 0⟩
  accepts e :=
    (e.metadata.kind == scanEventResult || e.metadata.kind == scanEventDone) &&
      e.metadata.ieLen + e.metadata.beaconIeLen == e.ies.length &&
      e.ies.length ≤ sys.maxScanIeLen
  writes e :=
    (fun c => { c with metadata := e.metadata }) ::
      copyWrites (fun i b c => { c with ies := c.ies.set! i b }) e.ies
  read c := ⟨c.metadata, c.ies.toList.take (c.metadata.ieLen + c.metadata.beaconIeLen)⟩
  read_writes := by
    intro e c hacc
    simp only [Bool.and_eq_true, beq_iff_eq, decide_eq_true_eq] at hacc
    rw [applyWrites, List.foldl_cons]
    rw [← applyWrites, applyWrites_copyWrites (fun buf => (⟨e.metadata, buf⟩ : ScanCells sys))
      (fun i b c => { c with ies := c.ies.set! i b }) (fun _ _ _ => rfl)]
    simp only [hacc.1.2, take_copyAt_zero _ _ hacc.2]

/-! ## `LinkEventQueue` -/

def linkEventAssociate : UInt8 := 1
def linkEventDisconnect : UInt8 := 2

structure LinkMeta where
  kind : UInt8
  statusOrReason : UInt16
  frequencyMhz : UInt16
  bssid : Bssid
  firstLen : Nat
  secondLen : Nat
  deriving DecidableEq

structure LinkCells where
  metadata : LinkMeta
  first : Vector UInt8 maxAssociationIeLen
  second : Vector UInt8 maxAssociationIeLen

/-- The arguments of `LinkEventQueue::enqueue`. -/
structure LinkEvent where
  metadata : LinkMeta
  first : List UInt8
  second : List UInt8
  deriving DecidableEq

def linkEventQueue : Layout where
  Event := LinkEvent
  Cells := LinkCells
  depth := linkEventQueueDepth
  blank := ⟨⟨0, 0, 0, Vector.replicate _ 0, 0, 0⟩, Vector.replicate _ 0, Vector.replicate _ 0⟩
  accepts e :=
    e.first.length == e.metadata.firstLen && e.second.length == e.metadata.secondLen &&
      e.first.length ≤ maxAssociationIeLen && e.second.length ≤ maxAssociationIeLen
  writes e :=
    ((fun c => { c with metadata := e.metadata }) ::
      copyWrites (fun i b c => { c with first := c.first.set! i b }) e.first) ++
      copyWrites (fun i b c => { c with second := c.second.set! i b }) e.second
  read c := ⟨c.metadata, c.first.toList.take c.metadata.firstLen,
    c.second.toList.take c.metadata.secondLen⟩
  read_writes := by
    intro e c hacc
    simp only [Bool.and_eq_true, beq_iff_eq, decide_eq_true_eq] at hacc
    obtain ⟨⟨⟨hfirst, hsecond⟩, hlen₁⟩, hlen₂⟩ := hacc
    rw [applyWrites_append, applyWrites, applyWrites, List.foldl_cons]
    rw [← applyWrites, ← applyWrites,
      applyWrites_copyWrites (fun buf => (⟨e.metadata, buf, c.second⟩ : LinkCells))
        (fun i b c => { c with first := c.first.set! i b }) (fun _ _ _ => rfl),
      applyWrites_copyWrites (fun buf => (⟨e.metadata, copyAt c.first 0 e.first, buf⟩ : LinkCells))
        (fun i b c => { c with second := c.second.set! i b }) (fun _ _ _ => rfl)]
    simp only [← hfirst, ← hsecond, take_copyAt_zero _ _ hlen₁, take_copyAt_zero _ _ hlen₂]

/-! ## `ExternalAuthQueue` -/

structure ExternalAuthEvent where
  abiVersion : UInt32
  action : UInt8
  ssidLen : UInt8
  bssid : Bssid
  status : UInt16
  keyMgmtSuite : UInt32
  pmkidPresent : UInt8
  reserved : Vector UInt8 3
  ssid : Vector UInt8 32
  pmkid : Vector UInt8 16
  deriving DecidableEq

def externalAuthQueue (sys : RadioSys) : Layout where
  Event := ExternalAuthEvent
  Cells := ExternalAuthEvent
  depth := externalAuthQueueDepth
  blank := ⟨sys.abiVersion, 0, 0, Vector.replicate _ 0, 0, 0, 0, Vector.replicate _ 0,
    Vector.replicate _ 0, Vector.replicate _ 0⟩
  accepts _ := true
  writes e := [fun _ => e]
  read c := c
  read_writes := fun _ _ _ => rfl

/-! ## The family -/

inductive QueueKind where
  | mgmt
  | scan
  | link
  | externalAuth
  deriving DecidableEq

def QueueKind.layout (sys : RadioSys) : QueueKind → Layout
  | .mgmt => mgmtRxQueue
  | .scan => scanEventQueue sys
  | .link => linkEventQueue
  | .externalAuth => externalAuthQueue sys

end HisiRiscv.Supplicant
