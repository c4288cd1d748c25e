/-
HisiRiscv.Osal.MsgQueue — the message queue of `osal_queue.rs`.

A ring of fixed-size slots in one heap allocation and a counting semaphore
that readers wait on. Any number of `osal_msg_queue_write_copy` and
`osal_msg_queue_read_copy` calls run on one queue; one step is one
critical section or one operation on the semaphore.

Translation notes. A call with a null handle or buffer returns `OSAL_NOK`
at once and is left out. The semaphore of `hisi_rf_rtos_driver` is not
part of the repository; it is a number of permits: `up` adds one,
`down_timeout` takes one or gives up. A buffer is the list of its
`buffer_size` bytes. The allocation starts with whatever the heap held.

History variables: `written` lists the buffers whose bytes a critical
section has stored, `read` the sizes asked for and the bytes handed out,
both in the order of the critical sections.

  §1 The queue.
  §2 The calls.
  §3 The machine.
-/
import HisiRiscv.Lib.Machine

namespace HisiRiscv.Osal

/-! ## §1 The queue -/

/-- `ring` is the memory from the start of the allocation on. -/
structure MsgQueue where
  ring : Nat → UInt8
  itemSize : Nat
  cap : Nat
  head : Nat
  count : Nat

namespace MsgQueue

/-- `osal_msg_queue_create`, with the contents of the allocation. -/
def create (memory : Nat → UInt8) (queueLen maxMsgsize : UInt16) : Option MsgQueue :=
  if queueLen = 0 ∨ maxMsgsize = 0 then none
  else some
    { ring := memory
      itemSize := maxMsgsize.toNat
      cap := queueLen.toNat
      head := 0
      count := 0 }

/-- `copy_nonoverlapping(src, ring + start, src.len())`. -/
def store (ring : Nat → UInt8) (start : Nat) (src : List UInt8) (i : Nat) : UInt8 :=
  if start ≤ i then src.getD (i - start) (ring i) else ring i

/-- The bytes `ring[start..start + n]`. -/
def load (ring : Nat → UInt8) (start n : Nat) : List UInt8 :=
  (List.range n).map fun i => ring (start + i)

/-- The critical section of `osal_msg_queue_write_copy`. -/
def writeCopy (q : MsgQueue) (buffer : List UInt8) : Option MsgQueue :=
  if q.cap ≤ q.count then none
  else
    let n := min buffer.length q.itemSize
    let slot := (q.head + q.count) % q.cap
    some { q with
      ring := store q.ring (slot * q.itemSize) (buffer.take n)
      count := q.count + 1 }

/-- How many bytes a read copies; no size is a null `buffer_size`. -/
def want (itemSize : Nat) (bufferSize : Option UInt32) : Nat :=
  match bufferSize with
  | none => itemSize
  | some size => min size.toNat itemSize

/-- The critical section of `osal_msg_queue_read_copy`: the bytes copied, the
number of which goes to `*buffer_size`. -/
def readCopy (q : MsgQueue) (bufferSize : Option UInt32) : Option (List UInt8 × MsgQueue) :=
  if q.count = 0 then none
  else
    some (load q.ring (q.head * q.itemSize) (want q.itemSize bufferSize),
      { q with head := (q.head + 1) % q.cap, count := q.count - 1 })

/-! ## §2 The calls -/

/-- A call of `osal_msg_queue_write_copy`. -/
inductive WriteCall where
  /-- Before the critical section. -/
  | entered (buffer : List UInt8)
  /-- Before `items.up()`. -/
  | stored (buffer : List UInt8)
  | returned (buffer : List UInt8) (ok : Bool)
  deriving DecidableEq

/-- What a read returns: `OSAL_NOK`, or `OSAL_OK` with the buffer left alone or filled. -/
inductive ReadResult where
  | nok
  | unfilled
  | filled (bytes : List UInt8)
  deriving DecidableEq

/-- A call of `osal_msg_queue_read_copy`. -/
inductive ReadCall where
  /-- In `down_timeout`. -/
  | waiting (size : Option UInt32)
  /-- Before the critical section. -/
  | acquired (size : Option UInt32)
  | returned (size : Option UInt32) (result : ReadResult)
  deriving DecidableEq

/-- The message is stored and its permit not yet there. -/
def WriteCall.between : WriteCall → Bool
  | stored _ => true
  | entered _ | returned _ _ => false

/-- The buffer of a call that has stored its message. -/
def WriteCall.message? : WriteCall → Option (List UInt8)
  | stored buffer | returned buffer true => some buffer
  | entered _ | returned _ false => none

/-- The permit is taken and the message not yet. -/
def ReadCall.holds : ReadCall → Bool
  | acquired _ => true
  | waiting _ | returned _ _ => false

/-- The size asked for and the bytes read, once a read has filled its buffer. -/
def ReadCall.data? : ReadCall → Option (Option UInt32 × List UInt8)
  | returned size (.filled bytes) => some (size, bytes)
  | waiting _ | acquired _ | returned _ .nok | returned _ .unfilled => none

/-! ## §3 The machine -/

structure State where
  queue : MsgQueue
  permits : Nat
  writes : List WriteCall
  reads : List ReadCall
  written : List (List UInt8)
  read : List (Option UInt32 × List UInt8)

def init (queue : MsgQueue) : State where
  queue
  permits := 0
  writes := []
  reads := []
  written := []
  read := []

inductive Action where
  /-- A new call. -/
  | write (buffer : List UInt8)
  | read (size : Option UInt32)
  /-- A step of write call or read call number `k`. -/
  | writer (k : Nat)
  | reader (k : Nat)
  /-- The wait of read call number `k` gives up. -/
  | timeout (k : Nat)

namespace State

/-- The writers between their critical section and `up`. -/
def between (s : State) : Nat := s.writes.countP WriteCall.between

/-- The readers that have acquired a permit. -/
def holding (s : State) : Nat := s.reads.countP ReadCall.holds

def stepWriter (s : State) (k : Nat) : WriteCall → Option State
  | .entered buffer =>
      match s.queue.writeCopy buffer with
      | none => some { s with writes := s.writes.set k (.returned buffer false) }
      | some queue =>
          some { s with
            queue
            writes := s.writes.set k (.stored buffer)
            written := s.written ++ [buffer] }
  | .stored buffer =>
      some { s with permits := s.permits + 1, writes := s.writes.set k (.returned buffer true) }
  | .returned _ _ => none

def stepReader (s : State) (k : Nat) : ReadCall → Option State
  | .waiting size =>
      if 0 < s.permits then
        some { s with permits := s.permits - 1, reads := s.reads.set k (.acquired size) }
      else none
  | .acquired size =>
      match s.queue.readCopy size with
      | none => some { s with reads := s.reads.set k (.returned size .unfilled) }
      | some (bytes, queue) =>
          some { s with
            queue
            reads := s.reads.set k (.returned size (.filled bytes))
            read := s.read ++ [(size, bytes)] }
  | .returned _ _ => none

def stepTimeout (s : State) (k : Nat) : ReadCall → Option State
  | .waiting size => some { s with reads := s.reads.set k (.returned size .nok) }
  | .acquired _ | .returned _ _ => none

end State

def step (s : State) : Action → Option State
  | .write buffer => some { s with writes := s.writes ++ [.entered buffer] }
  | .read size => some { s with reads := s.reads ++ [.waiting size] }
  | .writer k => s.writes[k]?.bind (s.stepWriter k)
  | .reader k => s.reads[k]?.bind (s.stepReader k)
  | .timeout k => s.reads[k]?.bind (s.stepTimeout k)

end MsgQueue

end HisiRiscv.Osal
