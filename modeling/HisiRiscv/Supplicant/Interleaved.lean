/-
HisiRiscv.Supplicant.Interleaved — concurrent calls on one slot queue.

Any number of `enqueue` calls and one consumer run on the same `Queue`;
one step is one atomic operation or one write of a payload cell. A call
and the consumer are program counters with their locals. `MgmtRxQueue`
has its own copy of `take_oldest`; the other three queues share
`take_oldest_slot`. The two bodies load, compare and exchange in the same
order, so `Consumer.step` models both.

`calls` keeps returned calls, in the order in which they started.
`taken` and `fresh` are history variables: what the READY → READING
exchanges found in their slots, and the numbers published since the
selection loop of the current `take_oldest` began.

  §1 One `enqueue` call.
  §2 The consumer.
  §3 The machine.
-/
import HisiRiscv.Lib.Machine
import HisiRiscv.Supplicant.Queues

namespace HisiRiscv.Supplicant

open HisiRiscv.Machine

variable {L : Layout}

/-! ## §1 One `enqueue` call -/

/-- The program counter of an `enqueue` call. -/
inductive Call (L : Layout) where
  /-- Before the checks and `next_sequence.fetch_add`. -/
  | start (e : L.Event)
  /-- Before the FREE → WRITING exchange on slot `i`. -/
  | claim (e : L.Event) (ticket i : Nat)
  /-- Owning slot `i`, with the cell writes `rest` to do. -/
  | write (e : L.Event) (ticket : Nat) (i : Fin L.depth) (rest : List (L.Cells → L.Cells))
  /-- Before the store of READY. -/
  | publish (e : L.Event) (ticket : Nat) (i : Fin L.depth)
  | returned (e : L.Event) (ticket : Option Nat) (ok : Bool)

namespace Call

def step (q : Queue L) : Call L → Option (Queue L × Call L)
  | start e =>
      if L.accepts e then some (q.bumpSequence, claim e q.nextSequence 0)
      else some (q.bumpDropped, returned e none false)
  | claim e ticket i =>
      if h : i < L.depth then
        if (q.slots ⟨i, h⟩).state = .free then
          some (q.modify ⟨i, h⟩ fun slot => { slot with state := .writing },
            write e ticket ⟨i, h⟩ (L.writes e))
        else some (q, claim e ticket (i + 1))
      else some (q.bumpDropped, returned e (some ticket) false)
  | write e ticket i (w :: rest) =>
      some (q.modify i fun slot => { slot with cells := w slot.cells }, write e ticket i rest)
  | write e ticket i [] =>
      some (q.modify i fun slot => { slot with ticket := ticket }, publish e ticket i)
  | publish e ticket i =>
      some (q.modify i fun slot => { slot with state := .ready }, returned e (some ticket) true)
  | returned _ _ _ => none

/-- The sequence number a call has allocated. -/
def ticket? : Call L → Option Nat
  | start _ => none
  | claim _ t _ | write _ t _ _ | publish _ t _ => some t
  | returned _ t _ => t

/-- The slot a call owns. -/
def slot? : Call L → Option (Fin L.depth)
  | write _ _ i _ | publish _ _ i => some i
  | start _ | claim _ _ _ | returned _ _ _ => none

/-- The number and the event of a call that returned true. -/
def accepted? : Call L → Option (Nat × L.Event)
  | returned e (some t) true => some (t, e)
  | _ => none

/-- The call returned false. -/
def refused : Call L → Bool
  | returned _ _ false => true
  | _ => false

/-- The number a call has allocated and neither published nor given up. -/
def inFlight? : Call L → Option Nat
  | claim _ t _ | write _ t _ _ | publish _ t _ => some t
  | start _ | returned _ _ _ => none

/-- The call has not returned. -/
def unfinished : Call L → Bool
  | returned _ _ _ => false
  | start _ | claim _ _ _ | write _ _ _ _ | publish _ _ _ => true

/-- The number the next step of the call publishes. -/
def publishes : Call L → List Nat
  | publish _ t _ => [t]
  | _ => []

end Call

/-! ## §2 The consumer -/

/-- The program counter of the consumer of a queue of `n` slots. -/
inductive Consumer (n : Nat) where
  | idle
  /-- Before the load of state `i` in the WRITING check. -/
  | check (i : Nat)
  /-- Before the load of state `i` in the selection loop. -/
  | scan (i : Nat) (oldest : Option (Fin n × UInt32))
  /-- Slot `i` was READY; before the load of its sequence number. -/
  | load (i : Fin n) (oldest : Option (Fin n × UInt32))
  /-- Before the READY → READING exchange. -/
  | exchange (i : Fin n)
  /-- The guard of slot `i` is alive. -/
  | holding (i : Fin n)
  deriving DecidableEq

/-- The slot whose guard is alive. -/
def Consumer.slot? {n : Nat} : Consumer n → Option (Fin n)
  | holding i => some i
  | idle | check _ | scan _ _ | load _ _ | exchange _ => none

/-- A step of the consumer: idle, it calls `take_oldest`; with a guard, it drops it. -/
def Consumer.step (q : Queue L) : Consumer L.depth → Queue L × Consumer L.depth
  | idle => (q, check 0)
  | check i =>
      if h : i < L.depth then
        if (q.slots ⟨i, h⟩).state = .writing then (q, idle) else (q, check (i + 1))
      else (q, scan 0 none)
  | scan i oldest =>
      if h : i < L.depth then
        if (q.slots ⟨i, h⟩).state = .ready then (q, load ⟨i, h⟩ oldest) else (q, scan (i + 1) oldest)
      else
        match oldest with
        | none => (q, idle)
        | some (j, _) => (q, exchange j)
  | load i oldest => (q, scan (i + 1) (Queue.consider oldest i (q.slots i).sequence))
  | exchange j =>
      if (q.slots j).state = .ready then (q.markReading j, holding j) else (q, idle)
  | holding j => (q.release j, idle)

/-! ## §3 The machine -/

namespace Interleaved

inductive Action (L : Layout) where
  /-- A new `enqueue` call. -/
  | call (e : L.Event)
  /-- One step of call number `a`. -/
  | producer (a : Nat)
  | consumer

structure State (L : Layout) where
  queue : Queue L
  calls : List (Call L)
  consumer : Consumer L.depth
  /-- What each READY → READING exchange found: the number and the cells. -/
  taken : List (Nat × L.Cells)
  /-- The numbers published since the selection loop began. -/
  fresh : List Nat

def init (L : Layout) : State L := ⟨Queue.new L, [], .idle, [], []⟩

/-- The consumer's step with its history. -/
def State.consume (s : State L) : State L :=
  let (queue, consumer) := s.consumer.step s.queue
  { s with
    queue, consumer
    taken :=
      match consumer with
      | .holding j => s.taken ++ [((s.queue.slots j).ticket, (s.queue.slots j).cells)]
      | _ => s.taken
    fresh :=
      match consumer with
      | .scan 0 none => []
      | _ => s.fresh }

def step (s : State L) : Action L → Option (State L)
  | .call e => some { s with calls := s.calls ++ [.start e] }
  | .producer a => do
      let c ← s.calls[a]?
      let (queue, c') ← c.step s.queue
      pure { s with queue, calls := s.calls.set a c', fresh := s.fresh ++ c.publishes }
  | .consumer => some s.consume

/-- The calls that returned true: number and event. -/
def State.accepted (s : State L) : List (Nat × L.Event) := s.calls.filterMap Call.accepted?

/-- What the consumer's guards exposed. -/
def State.delivered (s : State L) : List (Nat × L.Event) :=
  s.taken.map fun (t, c) => (t, L.read c)

/-- The slots owned by the calls. -/
def State.owned (s : State L) : List (Fin L.depth) := s.calls.filterMap Call.slot?

/-- The numbers allocated by the calls. -/
def State.tickets (s : State L) : List Nat := s.calls.filterMap Call.ticket?

/-- The calls that returned false. -/
def State.refusals (s : State L) : Nat := s.calls.countP Call.refused

end Interleaved

end HisiRiscv.Supplicant
