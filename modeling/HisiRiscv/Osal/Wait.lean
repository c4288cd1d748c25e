/-
HisiRiscv.Osal.Wait — the wait objects of `osal_wait.rs`.

A semaphore with no permits. A wait call evaluates its predicate, takes a
permit if it does not hold, and evaluates it again; `osal_wait_wakeup`
releases one permit. Any number of wait calls run against any number of
wakeups and of writes to the state that the predicates read. One step is
one evaluation of a predicate, one operation on the semaphore or one
reading of the clock.

Translation notes. The semaphore of `hisi_rf_rtos_driver` is not part of
the repository; it is a number of permits, and there is none behind a null
handle. `down` may fail at any time, and `down_timeout` may time out at
any time. A predicate is read-only, and is given with its parameter. A
write that changes what a predicate of a wait in progress says comes with
a wakeup. The object is neither initialised again nor destroyed during a
run. The diagnostics are left out.

  §1 Calls.
  §2 The machine.
  §3 Quiescence.
-/
import HisiRiscv.Lib.Machine
import Mathlib.Algebra.Group.Nat.Defs

namespace HisiRiscv.Osal.Wait

def osalOk : Int32 := 0
def osalFailure : Int32 := -1

/-! ## §1 Calls -/

/-- The function that is called. -/
inductive Kind where
  | interruptible
  | uninterruptible
  | timeoutInterruptible (timeoutMs : UInt32)
  deriving DecidableEq

inductive Pc where
  /-- Before the check of the handle. -/
  | entered
  /-- Before the predicate is evaluated. -/
  | checking
  /-- It did not hold; before the check of the deadline. -/
  | unready
  /-- In `down` or `down_timeout`. -/
  | blocked
  /-- It held; before the reading of the clock. -/
  | ready
  | returned (result : Int32)
  deriving DecidableEq

/-- A wait call. -/
structure Waiter (P : Type*) where
  kind : Kind
  func : Option P
  deadline : UInt64
  pc : Pc
  deriving DecidableEq

def isForever (timeoutMs : UInt32) : Bool := timeoutMs == 0xffffffff

def waitSuccessResult (forever : Bool) (deadline now : UInt64) : Int32 :=
  if forever then 1 else Int32.ofNat (max 1 (min (deadline.toNat - now.toNat) 2147483647))

namespace Waiter

variable {P S : Type*}

def goto (w : Waiter P) (pc : Pc) : Waiter P := { w with pc }

/-- From the check of the handle, which is not null, to the loop. -/
def enter (w : Waiter P) (clock : UInt64) : Waiter P :=
  match w.kind with
  | .interruptible | .uninterruptible => w.goto .checking
  | .timeoutInterruptible timeoutMs =>
      if !isForever timeoutMs ∧ 2147483647 < timeoutMs.toNat then w.goto (.returned osalFailure)
      else if w.func.isNone then
        w.goto (.returned (if isForever timeoutMs then 2147483647 else timeoutMs.toInt32))
      else
        { w with
          deadline := UInt64.ofNat (min (clock.toNat + timeoutMs.toNat) (2 ^ 64 - 1))
          pc := .checking }

/-- The predicate holds. -/
def holds (eval : P → S → Int32) (shared : S) (w : Waiter P) : Bool :=
  match w.func with
  | none => true
  | some predicate => eval predicate shared != 0

/-- After the evaluation of the predicate. -/
def checked (w : Waiter P) (holds : Bool) : Waiter P :=
  match w.kind with
  | .interruptible | .uninterruptible => w.goto (if holds then .returned osalOk else .blocked)
  | .timeoutInterruptible timeoutMs =>
      if timeoutMs = 0 then w.goto (.returned (if holds then 1 else 0))
      else if holds then w.goto .ready
      else w.goto (if isForever timeoutMs then .blocked else .unready)

/-- The predicate did not hold, and will not be evaluated before a permit or a
timeout comes. -/
def stale (w : Waiter P) : Bool :=
  match w.pc with
  | .unready | .blocked => true
  | .entered | .checking | .ready | .returned _ => false

def unfinished (w : Waiter P) : Bool :=
  match w.pc with
  | .returned _ => false
  | .entered | .checking | .unready | .blocked | .ready => true

/-- The result in state `ready`. -/
def success (w : Waiter P) (now : UInt64) : Int32 :=
  match w.kind with
  | .interruptible | .uninterruptible => osalOk
  | .timeoutInterruptible timeoutMs => waitSuccessResult (isForever timeoutMs) w.deadline now

/-- `down_timeout` can time out. -/
def timed (w : Waiter P) : Bool :=
  match w.kind with
  | .interruptible | .uninterruptible => false
  | .timeoutInterruptible timeoutMs => !isForever timeoutMs

end Waiter

/-- A call of `osal_wait_wakeup`. -/
inductive Wakeup where
  /-- Before the check of the handle. -/
  | entered
  /-- Before `up`. -/
  | signalling
  | returned
  deriving DecidableEq

def Wakeup.pending : Wakeup → Bool
  | entered | signalling => true
  | returned => false

/-! ## §2 The machine -/

structure State (S P : Type*) where
  shared : S
  /-- The permits of the semaphore; none if the handle is null. -/
  semaphore : Option Nat
  clock : UInt64
  waiters : List (Waiter P)
  wakeups : List Wakeup
  deriving DecidableEq

inductive Action (S P : Type*) where
  /-- A new call. -/
  | wait (kind : Kind) (func : Option P)
  | wakeup
  /-- A write, which a wakeup follows. -/
  | write (shared : S)
  /-- A write that changes no predicate of a wait in progress. -/
  | quietWrite (shared : S)
  /-- A step of wait call number `k`. -/
  | waiter (k : Nat)
  /-- The `down_timeout` of wait call number `k` times out. -/
  | timesOut (k : Nat)
  /-- The `down` of wait call number `k` fails. -/
  | downFails (k : Nat)
  /-- A step of wakeup call number `k`. -/
  | waker (k : Nat)
  | tick (clock : UInt64)
  deriving DecidableEq

section Machine

variable {S P : Type*}

def init (shared : S) (semaphore : Option Nat) (clock : UInt64) : State S P :=
  ⟨shared, semaphore, clock, [], []⟩

namespace State

def goto (s : State S P) (k : Nat) (w : Waiter P) : State S P :=
  { s with waiters := s.waiters.set k w }

def stepWaiter (eval : P → S → Int32) (s : State S P) (k : Nat) (w : Waiter P) :
    Option (State S P) :=
  match w.pc with
  | .entered =>
      match s.semaphore with
      | none => some (s.goto k (w.goto (.returned osalFailure)))
      | some _ => some (s.goto k (w.enter s.clock))
  | .checking => some (s.goto k (w.checked (w.holds eval s.shared)))
  | .unready => some (s.goto k (w.goto (if w.deadline ≤ s.clock then .returned 0 else .blocked)))
  | .blocked =>
      match s.semaphore with
      | none | some 0 => none
      | some (permits + 1) =>
          some ({ s with semaphore := some permits }.goto k (w.goto .checking))
  | .ready => some (s.goto k (w.goto (.returned (w.success s.clock))))
  | .returned _ => none

def stepTimesOut (s : State S P) (k : Nat) (w : Waiter P) : Option (State S P) :=
  if w.pc = .blocked ∧ w.timed then some (s.goto k (w.goto .checking)) else none

def stepDownFails (s : State S P) (k : Nat) (w : Waiter P) : Option (State S P) :=
  if w.pc = .blocked then some (s.goto k (w.goto (.returned osalFailure))) else none

def stepWaker (s : State S P) (k : Nat) : Wakeup → Option (State S P)
  | .entered =>
      some { s with
        wakeups := s.wakeups.set k (if s.semaphore.isNone then .returned else .signalling) }
  | .signalling =>
      some { s with
        semaphore := s.semaphore.map (· + 1)
        wakeups := s.wakeups.set k .returned }
  | .returned => none

end State

def step (eval : P → S → Int32) (s : State S P) : Action S P → Option (State S P)
  | .wait kind func => some { s with waiters := s.waiters ++ [⟨kind, func, 0, .entered⟩] }
  | .wakeup => some { s with wakeups := s.wakeups ++ [.entered] }
  | .write shared => some { s with shared, wakeups := s.wakeups ++ [.entered] }
  | .quietWrite shared =>
      if ∀ w ∈ s.waiters, w.unfinished → w.holds eval shared = w.holds eval s.shared then
        some { s with shared }
      else none
  | .waiter k => s.waiters[k]?.bind (s.stepWaiter eval k)
  | .timesOut k => s.waiters[k]?.bind (s.stepTimesOut k)
  | .downFails k => s.waiters[k]?.bind (s.stepDownFails k)
  | .waker k => s.wakeups[k]?.bind (s.stepWaker k)
  | .tick clock => if s.clock ≤ clock then some { s with clock } else none

/-! ## §3 Quiescence -/

/-- No call in progress can take a step, except by a timeout or a failure. -/
def Quiescent (eval : P → S → Int32) (s : State S P) : Prop :=
  (∀ k, step eval s (.waiter k) = none) ∧ ∀ k, step eval s (.waker k) = none

end Machine

end HisiRiscv.Osal.Wait
