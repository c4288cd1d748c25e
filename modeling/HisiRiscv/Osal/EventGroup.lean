/-
HisiRiscv.Osal.EventGroup — the event groups of `osal_queue.rs`.

A bit mask and a table of waiting readers. A reader that finds its bits
unset pins a semaphore in its stack frame, enters the address into the
table and waits; a writer sets bits, copies the addresses of the readers
whose condition holds, and calls `up` on each after the critical section.
Any number of `osal_event_read`, `osal_event_write` and `osal_event_clear`
calls run on one group; one step is one critical section, one operation on
a semaphore or one reading of the clock.

Translation notes. The semaphore of `hisi_rf_rtos_driver` is not part of
the repository; it is a number of permits at an address, from `try_init` to
`destroy`. A wait may give up at any time: `down_timeout` times out or
fails. A frame may be anywhere, but not on top of a live semaphore. A call
on a null handle returns at once and is left out, and so are the counters
that only `event_diagnostics` reads.

History variables: a semaphore carries a serial number and the number of
the read call it belongs to; a pointer that a writer has copied carries the
serial number of the semaphore that was there, and the bits the writer
compared.

  §1 The group.
  §2 The calls.
  §3 The machine.
-/
import HisiRiscv.Lib.Machine

namespace HisiRiscv.Osal.EventGroup

open HisiRiscv.Machine

/-! ## §1 The group -/

def waitmodeAnd : UInt32 := 4
def waitmodeClr : UInt32 := 1
def maxEventWaiters : Nat := 8

def osalOk : Int32 := 0
def osalNok : Int32 := 1

/-- No semaphore is address 0. -/
structure EventWaiter where
  semaphore : Nat
  mask : UInt32
  mode : UInt32
  deriving DecidableEq

def EventWaiter.empty : EventWaiter := ⟨0, 0, 0⟩

structure Group where
  bits : UInt32
  waiters : List EventWaiter

/-- `osal_event_init`. -/
def Group.new : Group := ⟨0, List.replicate maxEventWaiters .empty⟩

def eventMatches (bits mask mode : UInt32) : Option UInt32 :=
  let matched := bits &&& mask
  let satisfied :=
    if mode &&& waitmodeAnd ≠ 0 then matched == mask && mask != 0 else matched != 0
  if satisfied then some matched else none

namespace Group

/-- `poll_event`: the bits matched, which are cleared if the mode says so. -/
def pollEvent (g : Group) (mask mode : UInt32) : Option (UInt32 × Group) :=
  (eventMatches g.bits mask mode).map fun matched =>
    (matched, if mode &&& waitmodeClr ≠ 0 then { g with bits := g.bits &&& ~~~matched } else g)

/-- Entering a waiter, if there is a free entry. -/
def register (g : Group) (waiter : EventWaiter) : Option Group :=
  (g.waiters.findIdx? fun w => w.semaphore == 0).map fun i =>
    { g with waiters := g.waiters.set i waiter }

/-- `unregister_waiter`. -/
def unregister (g : Group) (semaphore : Nat) : Group :=
  match g.waiters.findIdx? fun w => w.semaphore == semaphore with
  | none => g
  | some i => { g with waiters := g.waiters.set i .empty }

/-- The semaphores a writer copies. -/
def satisfied (g : Group) : List Nat :=
  (g.waiters.filter fun w =>
    w.semaphore != 0 && (eventMatches g.bits w.mask w.mode).isSome).map EventWaiter.semaphore

end Group

/-! ## §2 The calls -/

structure Semaphore where
  permits : Nat
  serial : Nat
  owner : Nat
  deriving DecidableEq

/-- The program counter of a read call. -/
inductive ReadPc where
  /-- Before the first critical section of the loop. -/
  | polling
  /-- The condition did not hold; before the check of the deadline. -/
  | unmatched
  /-- The semaphore is initialised; before the critical section that registers it. -/
  | pinned (semaphore : Nat)
  /-- In `down_timeout`. -/
  | waiting (semaphore : Nat)
  /-- Before `unregister_waiter`. -/
  | woken (semaphore : Nat) (acquired : Bool)
  /-- Before `destroy`; then the call returns, or polls again. -/
  | leaving (semaphore : Nat) (result : Option Int32)
  | returned (result : Int32)
  deriving DecidableEq

/-- A call of `osal_event_read`. -/
structure Reader where
  mask : UInt32
  mode : UInt32
  forever : Bool
  deadline : UInt64
  pc : ReadPc
  deriving DecidableEq

/-- The semaphore in the frame of a read call. -/
def ReadPc.semaphore? : ReadPc → Option Nat
  | pinned p | waiting p | woken p _ | leaving p _ => some p
  | polling | unmatched | returned _ => none

/-- The semaphore is in the table. -/
def ReadPc.registered : ReadPc → Bool
  | waiting _ | woken _ _ => true
  | polling | unmatched | pinned _ | leaving _ _ | returned _ => false

/-- A pointer a writer has copied. -/
structure Copied where
  pointer : Nat
  serial : Option Nat
  bits : UInt32
  deriving DecidableEq

/-- A call of `osal_event_write`. -/
inductive Writer where
  /-- Before the critical section. -/
  | entered (mask : UInt32)
  /-- With the semaphores still to signal. -/
  | waking (pointers : List Copied)
  | returned (result : Int32)
  deriving DecidableEq

/-- The pointers on which the call will still call `up`. -/
def Writer.pointers : Writer → List Copied
  | waking ps => ps
  | entered _ | returned _ => []

/-! ## §3 The machine -/

structure State where
  group : Group
  /-- The live semaphores. -/
  semaphores : Nat → Option Semaphore
  readers : List Reader
  writers : List Writer
  /-- The next serial number. -/
  serial : Nat

def init : State where
  group := .new
  semaphores := fun _ => none
  readers := []
  writers := []
  serial := 0

inductive Action where
  /-- A new call; a read call takes a reading of the clock. -/
  | read (mask timeoutMs mode : UInt32) (now : UInt64)
  | write (mask : UInt32)
  | clear (mask : UInt32)
  /-- A step of read call number `k`. -/
  | reader (k : Nat)
  /-- The check of the deadline at time `now`, then `try_init` of a semaphore at an address. -/
  | pin (k : Nat) (now : UInt64) (semaphore : Nat) (ok : Bool)
  /-- The wait of read call number `k` ends without a permit. -/
  | giveUp (k : Nat)
  /-- A step of write call number `k`. -/
  | writer (k : Nat)
  /-- An `up` of write call number `k` fails. -/
  | upFails (k : Nat)
  deriving DecidableEq

namespace State

/-- Read call number `k` goes on at `pc`. -/
def goto (s : State) (k : Nat) (r : Reader) (pc : ReadPc) : State :=
  { s with readers := s.readers.set k { r with pc } }

/-- The critical section that registers a semaphore. -/
def stepRegister (s : State) (k : Nat) (r : Reader) (p : Nat) : State :=
  match s.group.pollEvent r.mask r.mode with
  | some (matched, group) => { s with group }.goto k r (.leaving p (some matched.toInt32))
  | none =>
      match s.group.register ⟨p, r.mask, r.mode⟩ with
      | none => s.goto k r (.leaving p (some osalNok))
      | some group => { s with group }.goto k r (.waiting p)

/-- `down_timeout` gets a permit. -/
def stepDown (s : State) (k : Nat) (r : Reader) (p : Nat) : Option State :=
  match s.semaphores p with
  | none => none
  | some sem =>
      if 0 < sem.permits then
        some ({ s with
          semaphores :=
            Function.update s.semaphores p (some { sem with permits := sem.permits - 1 }) }.goto
          k r (.woken p true))
      else none

def stepReader (s : State) (k : Nat) (r : Reader) : Option State :=
  match r.pc with
  | .polling =>
      match s.group.pollEvent r.mask r.mode with
      | some (matched, group) => some ({ s with group }.goto k r (.returned matched.toInt32))
      | none => some (s.goto k r .unmatched)
  | .pinned p => some (s.stepRegister k r p)
  | .waiting p => s.stepDown k r p
  | .woken p acquired =>
      some ({ s with group := s.group.unregister p }.goto k r
        (.leaving p (if acquired then none else some osalNok)))
  | .leaving p result =>
      some ({ s with semaphores := Function.update s.semaphores p none }.goto k r
        (match result with
          | none => .polling
          | some value => .returned value))
  | .unmatched | .returned _ => none

def stepPin (s : State) (k : Nat) (r : Reader) (now : UInt64) (p : Nat) (ok : Bool) :
    Option State :=
  if r.pc = .unmatched then
    if !r.forever ∧ r.deadline ≤ now then some (s.goto k r (.returned 0))
    else if p = 0 ∨ (s.semaphores p).isSome then none
    else if ok then
      some ({ s with
        semaphores := Function.update s.semaphores p (some ⟨0, s.serial, k⟩)
        serial := s.serial + 1 }.goto k r (.pinned p))
    else some (s.goto k r (.returned osalNok))
  else none

def stepGiveUp (s : State) (k : Nat) (r : Reader) : Option State :=
  match r.pc with
  | .waiting p => some (s.goto k r (.woken p false))
  | .polling | .unmatched | .pinned _ | .woken _ _ | .leaving _ _ | .returned _ => none

/-- `up`; on a dead semaphore it would write into a foreign frame. -/
def up (s : State) (p : Nat) : State :=
  { s with
    semaphores := Function.update s.semaphores p
      ((s.semaphores p).map fun sem => { sem with permits := sem.permits + 1 }) }

/-- The critical section of `osal_event_write`. -/
def stepSet (s : State) (k : Nat) (mask : UInt32) : State :=
  let group := { s.group with bits := s.group.bits ||| mask }
  { s with
    group
    writers := s.writers.set k (.waking (group.satisfied.map fun p =>
      ⟨p, (s.semaphores p).map Semaphore.serial, group.bits⟩)) }

def stepWriter (s : State) (k : Nat) : Writer → Option State
  | .entered mask => some (s.stepSet k mask)
  | .waking [] => some { s with writers := s.writers.set k (.returned osalOk) }
  | .waking (c :: rest) =>
      some { s.up c.pointer with writers := s.writers.set k (.waking rest) }
  | .returned _ => none

def stepUpFails (s : State) (k : Nat) : Writer → Option State
  | .waking (_ :: _) => some { s with writers := s.writers.set k (.returned osalNok) }
  | .entered _ | .waking [] | .returned _ => none

end State

def step (s : State) : Action → Option State
  | .read mask timeoutMs mode now =>
      some { s with
        readers := s.readers ++
          [⟨mask, mode, timeoutMs == 0xffffffff, now + timeoutMs.toUInt64, .polling⟩] }
  | .write mask => some { s with writers := s.writers ++ [.entered mask] }
  | .clear mask => some { s with group := { s.group with bits := s.group.bits &&& ~~~mask } }
  | .reader k => s.readers[k]?.bind (s.stepReader k)
  | .pin k now p ok => s.readers[k]?.bind fun r => s.stepPin k r now p ok
  | .giveUp k => s.readers[k]?.bind (s.stepGiveUp k)
  | .writer k => s.writers[k]?.bind (s.stepWriter k)
  | .upFails k => s.writers[k]?.bind (s.stepUpFails k)

end HisiRiscv.Osal.EventGroup
