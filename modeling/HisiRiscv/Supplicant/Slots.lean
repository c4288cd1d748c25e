/-
HisiRiscv.Supplicant.Slots — the slot queues of `upstream_supplicant.rs`.

`MgmtRxQueue`, `ScanEventQueue`, `LinkEventQueue` and `ExternalAuthQueue`
are one data structure four times: an array of slots whose state byte
passes FREE → WRITING → READY → READING → FREE, a sequence counter and a
drop counter. A `Layout` says what distinguishes one from another: the
payload cells, the events a producer copies into them, the checks made
before a slot is claimed and the single-cell writes of the copy. Its last
field is the law that makes it a layout: what the guard's accessors read
is what was written, whatever the cells held before.

Translation notes. `next_sequence` is kept unreduced (`Nat`); a slot keeps
the unreduced number as its `ticket`, and every load of `slot.sequence`
goes through `Slot.sequence`, its low 32 bits. `dropped` wraps. Slots are
indexed by `Fin depth`.

  §1 Slots and queues.
  §2 One uninterrupted call of `enqueue`, `take_oldest` and `drop`.
  §3 The contents of a queue.
-/
import HisiRiscv.Lib.SerialNumber
import Mathlib.Logic.Function.Basic

namespace HisiRiscv.Supplicant

/-! ## §1 Slots and queues -/

/-- `SLOT_FREE`, `SLOT_WRITING`, `SLOT_READY`, `SLOT_READING`. -/
inductive SlotState where
  | free
  | writing
  | ready
  | reading
  deriving DecidableEq

/-- One slot: the state byte, the sequence number and the payload cells. -/
structure Slot (β : Type) where
  state : SlotState
  ticket : Nat
  cells : β

/-- `slot.sequence.load()`. -/
def Slot.sequence {β : Type} (slot : Slot β) : UInt32 := UInt32.ofNat slot.ticket

/-- Carry out single-cell writes in program order. -/
def applyWrites {β : Type} (ws : List (β → β)) (c : β) : β := ws.foldl (fun c w => w c) c

/-- What distinguishes one slot queue from another. -/
structure Layout where
  /-- What one call of `enqueue` copies. -/
  Event : Type
  /-- The payload cells of one slot. -/
  Cells : Type
  depth : Nat
  blank : Cells
  /-- The checks made before a sequence number is allocated. -/
  accepts : Event → Bool
  /-- The writes a producer makes while it owns the slot. -/
  writes : Event → List (Cells → Cells)
  /-- What the accessors of the consumer's guard return. -/
  read : Cells → Event
  read_writes : ∀ e c, accepts e = true → read (applyWrites (writes e) c) = e

/-- The shared state of one queue. -/
structure Queue (L : Layout) where
  nextSequence : Nat
  dropped : UInt32
  slots : Fin L.depth → Slot L.Cells

namespace Queue

variable {L : Layout}

/-- `MgmtRxQueue::new` and its three siblings. -/
def new (L : Layout) : Queue L where
  nextSequence := 0
  dropped := 0
  slots := fun _ => ⟨.free, 0, L.blank⟩

/-- Change one slot. -/
def modify (q : Queue L) (i : Fin L.depth) (f : Slot L.Cells → Slot L.Cells) : Queue L :=
  { q with slots := Function.update q.slots i (f (q.slots i)) }

@[simp] theorem modify_nextSequence (q : Queue L) (i : Fin L.depth) (f) :
    (q.modify i f).nextSequence = q.nextSequence := rfl

@[simp] theorem modify_dropped (q : Queue L) (i : Fin L.depth) (f) :
    (q.modify i f).dropped = q.dropped := rfl

@[simp] theorem modify_self (q : Queue L) (i : Fin L.depth) (f) :
    (q.modify i f).slots i = f (q.slots i) := Function.update_self ..

theorem modify_ne (q : Queue L) {i j : Fin L.depth} (f) (h : j ≠ i) :
    (q.modify i f).slots j = q.slots j := Function.update_of_ne h ..

theorem modify_slots (q : Queue L) (i j : Fin L.depth) (f) :
    (q.modify i f).slots j = if j = i then f (q.slots i) else q.slots j :=
  Function.update_apply ..

/-- `self.dropped.fetch_add(1)`. -/
def bumpDropped (q : Queue L) : Queue L := { q with dropped := q.dropped + 1 }

/-- `self.next_sequence.fetch_add(1)`. -/
def bumpSequence (q : Queue L) : Queue L := { q with nextSequence := q.nextSequence + 1 }

@[simp] theorem bumpDropped_nextSequence (q : Queue L) :
    q.bumpDropped.nextSequence = q.nextSequence := rfl

@[simp] theorem bumpDropped_slots (q : Queue L) : q.bumpDropped.slots = q.slots := rfl

@[simp] theorem bumpSequence_nextSequence (q : Queue L) :
    q.bumpSequence.nextSequence = q.nextSequence + 1 := rfl

@[simp] theorem bumpSequence_slots (q : Queue L) : q.bumpSequence.slots = q.slots := rfl

@[simp] theorem bumpSequence_dropped (q : Queue L) : q.bumpSequence.dropped = q.dropped := rfl

/-- One iteration of the selection loop on a READY slot:
`if oldest.is_none_or(|(_, current)| sequence_before(sequence, current))`. -/
def consider {n : Nat} (oldest : Option (Fin n × UInt32)) (i : Fin n) (sequence : UInt32) :
    Option (Fin n × UInt32) :=
  match oldest with
  | none => some (i, sequence)
  | some (j, current) =>
      if SerialNumber.before sequence current then some (i, sequence) else some (j, current)

/-! ## §2 Uninterrupted calls -/

/-- `has_pending`. -/
def hasPending (q : Queue L) : Bool :=
  (List.finRange L.depth).any fun i => (q.slots i).state != .free

/-- The first slot whose FREE → WRITING exchange succeeds. -/
def firstFree (q : Queue L) : Option (Fin L.depth) :=
  (List.finRange L.depth).find? fun i => (q.slots i).state == .free

/-- `enqueue`, run without interruption. -/
def enqueue (q : Queue L) (e : L.Event) : Queue L × Bool :=
  if L.accepts e then
    match q.firstFree with
    | some i =>
        (q.bumpSequence.modify i fun slot =>
          ⟨.ready, q.nextSequence, applyWrites (L.writes e) slot.cells⟩, true)
    | none => (q.bumpSequence.bumpDropped, false)
  else (q.bumpDropped, false)

/-- The selection loop of `take_oldest_slot`. -/
def oldest (q : Queue L) : Option (Fin L.depth × UInt32) :=
  (List.finRange L.depth).foldl
    (fun oldest i =>
      if (q.slots i).state = .ready then consider oldest i (q.slots i).sequence else oldest) none

/-- `take_oldest`, run without interruption: the slot now READING. -/
def takeOldest (q : Queue L) : Option (Fin L.depth) :=
  if (List.finRange L.depth).any fun i => (q.slots i).state == .writing then none
  else q.oldest.map Prod.fst

/-- The READY → READING exchange of a successful `take_oldest`. -/
def markReading (q : Queue L) (i : Fin L.depth) : Queue L :=
  q.modify i fun slot => { slot with state := .reading }

/-- `Drop` of the guard. -/
def release (q : Queue L) (i : Fin L.depth) : Queue L :=
  q.modify i fun slot => { slot with state := .free }

/-- The guard's accessors. -/
def payload (q : Queue L) (i : Fin L.depth) : L.Event := L.read (q.slots i).cells

/-! ## §3 The contents of a queue -/

/-- What a READY slot holds: its number and what the accessors will return. -/
def entry (slot : Slot L.Cells) : Option (Nat × L.Event) :=
  if slot.state = .ready then some (slot.ticket, L.read slot.cells) else none

/-- The slots that are not FREE and whose number satisfies `p`. -/
def occupied (q : Queue L) (p : Nat → Bool) : Nat :=
  (List.ofFn q.slots).countP fun slot => slot.state != .free && p slot.ticket

/-- The events stored in the queue, in slot order. -/
def stored (q : Queue L) : List (Nat × L.Event) := (List.ofFn q.slots).filterMap entry

end Queue

end HisiRiscv.Supplicant
