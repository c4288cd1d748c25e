/-
HisiRiscv.Osal.Timer — the software timers of `timer.rs`.

A table of 32 slots, each of which may hold a deadline for an `OsalTimer`
of the caller. Any number of `osal_timer_init`, `osal_timer_mod`,
`osal_timer_stop` and `osal_timer_destroy` calls run against any number of
`local_timer_timeout_proc` drivers; one step is one critical section, one
access to an `OsalTimer`, one reading of the clock, or the invocation of a
handler. A handler runs until its driver takes the next step; the calls it
makes are calls like any others.

Translation notes. An `OsalTimer` is known by its address, and 0 is null.
Its handler is the address of a function. `osal_timer_init` may also fail
because the worker task cannot be started. `due` of the driver holds pairs
whose second component is always 0; it is a list of addresses here.
`next_delay_ms` changes nothing and is left out, and so are the
diagnostics.

History variables: a slot knows the timer it was allocated for; `arms`
lists the timers of the successful `osal_timer_mod` calls, and a slot and
a due entry know the number of theirs; `deadlineOf` is the deadline the
last of them has set, clock reading plus interval; `cancelled` says that a
stop or destroy call has returned since; `fired` lists the invocations,
each with the clock and the timer's deadline at that moment.

  §1 Slots.
  §2 Calls.
  §3 Drivers.
  §4 The machine.
-/
import HisiRiscv.Lib.Machine

namespace HisiRiscv.Osal.Timer

/-! ## §1 Slots -/

def maxTimers : Nat := 32

def osalOk : Int32 := 0
def osalNok : Int32 := 1

/-- The caller's object; `timer` is the slot's index plus 1, or 0. -/
structure OsalTimer where
  timer : Nat
  handler : Option Nat
  data : UInt32
  interval : UInt32

structure Slot where
  used : Bool
  active : Bool
  periodic : Bool
  timer : Nat
  deadline : UInt64
  interval : UInt64
  owner : Option Nat
  arm : Nat
  deriving DecidableEq

def Slot.empty : Slot := ⟨false, false, false, 0, 0, 0, none, 0⟩

/-- An entry of the due list. -/
structure Due where
  timer : Nat
  arm : Nat
  deriving DecidableEq

namespace Slot

/-- The loop body of the driver finds the slot due. -/
def expired (now : UInt64) (slot : Slot) : Bool :=
  slot.used && slot.active && decide (slot.deadline ≤ now)

def due? (now : UInt64) (slot : Slot) : Option Due :=
  if slot.expired now then some ⟨slot.timer, slot.arm⟩ else none

/-- What the loop body leaves in the slot. -/
def expire (now : UInt64) (slot : Slot) : Slot :=
  if slot.expired now then
    if slot.periodic then { slot with deadline := now + slot.interval }
    else { slot with active := false }
  else slot

end Slot

/-! ## §2 Calls -/

/-- A call and its program counter. -/
inductive Call where
  /-- `osal_timer_init`: before the checks, before `alloc_slot`, before the store of
  the handle, before the critical section that stores timer and interval. -/
  | init (timer : Nat)
  | allocating (timer : Nat)
  | publishing (timer slot : Nat)
  | binding (timer slot : Nat)
  /-- `osal_timer_mod`: before `slot_of`, before the store of the interval and the
  reading of the clock, before the critical section. -/
  | mod (timer : Nat) (interval : UInt32)
  | arming (timer : Nat) (interval : UInt32) (slot : Nat)
  | storing (timer : Nat) (interval : UInt32) (slot : Nat) (now : UInt64)
  /-- `osal_timer_stop`: before `slot_of`, before the critical section. -/
  | stop (timer : Nat)
  | stopping (timer slot : Nat)
  /-- `osal_timer_destroy`: before `slot_of`, before the critical section, before the
  store of the null handle. -/
  | destroy (timer : Nat)
  | destroying (timer slot : Nat)
  | forgetting (timer : Nat)
  | returned (timer : Nat) (result : Int32)
  deriving DecidableEq

namespace Call

def timer : Call → Nat
  | init t | allocating t | publishing t _ | binding t _ | mod t _ | arming t _ _ | storing t _ _ _
  | stop t | stopping t _ | destroy t | destroying t _ | forgetting t | returned t _ => t

/-- An init or destroy call that has not returned. -/
def sole : Call → Bool
  | init _ | allocating _ | publishing _ _ | binding _ _ | destroy _ | destroying _ _
  | forgetting _ => true
  | mod _ _ | arming _ _ _ | storing _ _ _ _ | stop _ | stopping _ _ | returned _ _ => false

def unfinished : Call → Bool
  | returned _ _ => false
  | init _ | allocating _ | publishing _ _ | binding _ _ | mod _ _ | arming _ _ _ | storing _ _ _ _
  | stop _ | stopping _ _ | destroy _ | destroying _ _ | forgetting _ => true

end Call

/-! ## §3 Drivers -/

/-- A call of `local_timer_timeout_proc`. -/
inductive Driver where
  | entered
  /-- Before the critical section. -/
  | collecting (now : UInt64)
  /-- Before the next entry of the due list is read. -/
  | firing (due : List Due)
  /-- Handler and data are read; before the handler is invoked. -/
  | calling (e : Due) (handler : Nat) (data : UInt32) (rest : List Due)
  /-- In the handler. -/
  | running (rest : List Due)
  | returned
  deriving DecidableEq

/-- The entries whose handler has not been invoked. -/
def Driver.due : Driver → List Due
  | firing due => due
  | calling e _ _ rest => e :: rest
  | running rest => rest
  | entered | collecting _ | returned => []

/-- The timer that the next step reads, or whose handler it invokes. -/
def Driver.touches? : Driver → Option Nat
  | firing (e :: _) => if e.timer = 0 then none else some e.timer
  | calling e _ _ _ => some e.timer
  | firing [] | running _ | entered | collecting _ | returned => none

/-- An invocation of a handler. -/
structure Fired where
  timer : Nat
  handler : Nat
  data : UInt32
  arm : Nat
  clock : UInt64
  deadline : Option Nat
  deriving DecidableEq

/-! ## §4 The machine -/

structure State where
  slots : List Slot
  objects : Nat → OsalTimer
  clock : UInt64
  calls : List Call
  drivers : List Driver
  arms : List Nat
  deadlineOf : Nat → Option Nat
  cancelled : Nat → Bool
  fired : List Fired

/-- Before the first call: no object is registered. -/
def init (objects : Nat → OsalTimer) (clock : UInt64) : State where
  slots := List.replicate maxTimers .empty
  objects := fun t => { objects t with timer := 0 }
  clock
  calls := []
  drivers := []
  arms := []
  deadlineOf := fun _ => none
  cancelled := fun _ => false
  fired := []

inductive Action where
  /-- A new call. -/
  | initCall (timer : Nat)
  | modCall (timer : Nat) (interval : UInt32)
  | stopCall (timer : Nat)
  | destroyCall (timer : Nat)
  /-- A step of call number `k`. -/
  | call (k : Nat)
  /-- In call number `k` the worker task cannot be started. -/
  | workerFails (k : Nat)
  /-- A new driver. -/
  | drive
  /-- A step of driver number `k`. -/
  | driver (k : Nat)
  /-- The clock moves on. -/
  | tick (clock : UInt64)
  deriving DecidableEq

namespace State

/-- `slot_of`. -/
def slotOf (s : State) (timer : Nat) : Option Nat :=
  let handle := (s.objects timer).timer
  if timer = 0 ∨ handle = 0 ∨ maxTimers < handle then none else some (handle - 1)

def goto (s : State) (k : Nat) (c : Call) : State := { s with calls := s.calls.set k c }

/-- A write to an object. -/
def modifyObject (s : State) (timer : Nat) (f : OsalTimer → OsalTimer) : State :=
  { s with objects := Function.update s.objects timer (f (s.objects timer)) }

/-- A write to a slot. -/
def modifySlot (s : State) (i : Nat) (f : Slot → Slot) : State :=
  { s with slots := s.slots.modify i f }

/-- A stop or destroy call returns. -/
def cancel (s : State) (timer : Nat) : State :=
  { s with cancelled := Function.update s.cancelled timer true }

/-- The critical section of `osal_timer_mod`. -/
def arm (s : State) (timer : Nat) (interval : UInt32) (i : Nat) (now : UInt64) : State :=
  { s.modifySlot i fun slot =>
      { slot with
        interval := interval.toUInt64
        deadline := now + interval.toUInt64
        active := true
        periodic := false
        arm := s.arms.length } with
    arms := s.arms ++ [timer]
    deadlineOf := Function.update s.deadlineOf timer (some (now.toNat + interval.toNat))
    cancelled := Function.update s.cancelled timer false }

def stepCall (s : State) (k : Nat) : Call → Option State
  | .init t =>
      let object := s.objects t
      if t = 0 ∨ object.handler = none ∨ object.timer ≠ 0 ∨ object.interval = 0 then
        some (s.goto k (.returned t osalNok))
      else some (s.goto k (.allocating t))
  | .allocating t =>
      match s.slots.findIdx? fun slot => !slot.used with
      | none => some (s.goto k (.returned t osalNok))
      | some i =>
          some ((s.modifySlot i fun _ => { Slot.empty with used := true, owner := some t }).goto k
            (.publishing t i))
  | .publishing t i =>
      some ((s.modifyObject t fun object => { object with timer := i + 1 }).goto k (.binding t i))
  | .binding t i =>
      some ((s.modifySlot i fun slot =>
        { slot with timer := t, interval := (s.objects t).interval.toUInt64 }).goto k
        (.returned t osalOk))
  | .mod t interval =>
      if interval = 0 then some (s.goto k (.returned t osalNok))
      else
        match s.slotOf t with
        | none => some (s.goto k (.returned t osalNok))
        | some i => some (s.goto k (.arming t interval i))
  | .arming t interval i =>
      some ((s.modifyObject t fun object => { object with interval }).goto k
        (.storing t interval i s.clock))
  | .storing t interval i now =>
      match s.slots[i]? with
      | none => none
      | some slot =>
          if slot.used then some ((s.arm t interval i now).goto k (.returned t osalOk))
          else some (s.goto k (.returned t osalNok))
  | .stop t =>
      match s.slotOf t with
      | none => some ((s.cancel t).goto k (.returned t osalNok))
      | some i => some (s.goto k (.stopping t i))
  | .stopping t i =>
      match s.slots[i]? with
      | none => none
      | some slot =>
          some (((s.modifySlot i fun slot => { slot with active := false }).cancel t).goto k
            (.returned t (if slot.active then 1 else 0)))
  | .destroy t =>
      match s.slotOf t with
      | none => some ((s.cancel t).goto k (.returned t osalOk))
      | some i => some (s.goto k (.destroying t i))
  | .destroying t i => some ((s.modifySlot i fun _ => .empty).goto k (.forgetting t))
  | .forgetting t =>
      some (((s.modifyObject t fun object => { object with timer := 0 }).cancel t).goto k
        (.returned t osalOk))
  | .returned _ _ => none

def stepWorkerFails (s : State) (k : Nat) : Call → Option State
  | .allocating t => some (s.goto k (.returned t osalNok))
  | .init _ | .publishing _ _ | .binding _ _ | .mod _ _ | .arming _ _ _ | .storing _ _ _ _ | .stop _
  | .stopping _ _ | .destroy _ | .destroying _ _ | .forgetting _ | .returned _ _ => none

def driverGoto (s : State) (k : Nat) (d : Driver) : State := { s with drivers := s.drivers.set k d }

def stepDriver (s : State) (k : Nat) : Driver → Option State
  | .entered => some (s.driverGoto k (.collecting s.clock))
  | .collecting now =>
      some ({ s with slots := s.slots.map (Slot.expire now) }.driverGoto k
        (.firing (s.slots.filterMap (Slot.due? now))))
  | .firing [] => some (s.driverGoto k .returned)
  | .firing (e :: rest) =>
      let object := s.objects e.timer
      match if e.timer = 0 then none else object.handler with
      | none => some (s.driverGoto k (.firing rest))
      | some handler => some (s.driverGoto k (.calling e handler object.data rest))
  | .calling e handler data rest =>
      some ({ s with
        fired := s.fired ++
          [(⟨e.timer, handler, data, e.arm, s.clock, s.deadlineOf e.timer⟩ : Fired)] }.driverGoto k
        (.running rest))
  | .running rest => some (s.driverGoto k (.firing rest))
  | .returned => none

end State

def step (s : State) : Action → Option State
  | .initCall t => some { s with calls := s.calls ++ [.init t] }
  | .modCall t interval => some { s with calls := s.calls ++ [.mod t interval] }
  | .stopCall t => some { s with calls := s.calls ++ [.stop t] }
  | .destroyCall t => some { s with calls := s.calls ++ [.destroy t] }
  | .call k => s.calls[k]?.bind (s.stepCall k)
  | .workerFails k => s.calls[k]?.bind (s.stepWorkerFails k)
  | .drive => some { s with drivers := s.drivers ++ [.entered] }
  | .driver k => s.drivers[k]?.bind (s.stepDriver k)
  | .tick clock => if s.clock ≤ clock then some { s with clock } else none

end HisiRiscv.Osal.Timer
