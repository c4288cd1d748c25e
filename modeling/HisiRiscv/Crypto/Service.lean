/-
HisiRiscv.Crypto.Service — the crypto service of `crypto.rs` under any
interleaving of its users.

`install_hardware_crypto` creates a mutex, fills two cells that can be
filled once, and publishes a pointer to the second one. Every hardware
function counts its request, loads the pointer, holds the mutex of the
service for as long as the backend works, and then counts the time and,
if it failed, the failure. One step is one operation on an atomic, on a
cell, on the mutex or on the clock, or the work of the backend.

Translation notes. The mutex of `hisi_rf_rtos_driver` and the backends of
`hisi_crypto_ws63` are not part of the repository. A lock has an owner; an
operation on it that fails changes nothing. A mutex is destroyed only by
the installer that made it. What the backend answers is part of the
action; the bytes it reads and writes are left out. The profile has the
feature `upstream-supplicant-wpa3`.

History variables: a mutex names the installer that created it, a call
lists the updates it has made and keeps the time it has measured, `faults`
lists the operations on a mutex that is destroyed or was never made.

  §1 Counters.
  §2 The hardware functions.
  §3 Installers and calls.
  §4 The machine.
-/
import Mathlib.Algebra.Group.Nat.Defs
import HisiRiscv.Lib.Machine

namespace HisiRiscv.Crypto.Service

/-- `CryptoError` of `hisi_crypto`, as far as this file makes or passes it. -/
inductive CryptoError where
  | unsupported
  | invalidValue
  | backend (code : UInt32)
  deriving DecidableEq

/-! ## §1 Counters -/

/-- The families of static counters. -/
inductive Family where
  | entropy
  | pbkdf2
  | hash
  | mac
  | hashRecovery
  | cipher
  | cipherRecovery
  | p256
  | p256Add
  | p256Field
  | p256FieldMul
  | p256FieldSquare
  | p256FieldPow
  | p256Curve
  | p256CurveInvert
  | p256CurveValidate
  | p256CurveY2
  deriving DecidableEq

/-- `*_REQUESTS` or `*_TESTS`, `*_FAILURES`, `*_TOTAL_MS` and `*_MAX_MS`. -/
structure Counters where
  requests : Family → UInt32
  failures : Family → UInt32
  totalMs : Family → UInt32
  maxMs : Family → UInt32
  entropyBytes : UInt32

def Counters.zero : Counters := ⟨fun _ => 0, fun _ => 0, fun _ => 0, fun _ => 0, 0⟩

/-- A `fetch_add` or `fetch_max`. -/
inductive Update where
  | addRequest (family : Family)
  | addFailure (family : Family)
  | addTotalMs (family : Family) (elapsed : UInt32)
  | maxMs (family : Family) (elapsed : UInt32)
  | addEntropyBytes (length : UInt32)
  deriving DecidableEq

def Counters.apply (c : Counters) : Update → Counters
  | .addRequest family =>
      { c with requests := fun f => if f = family then c.requests f + 1 else c.requests f }
  | .addFailure family =>
      { c with failures := fun f => if f = family then c.failures f + 1 else c.failures f }
  | .addTotalMs family elapsed =>
      { c with totalMs := fun f => if f = family then c.totalMs f + elapsed else c.totalMs f }
  | .maxMs family elapsed =>
      { c with maxMs := fun f => if f = family then max (c.maxMs f) elapsed else c.maxMs f }
  | .addEntropyBytes length => { c with entropyBytes := c.entropyBytes + length }

/-! ## §2 The hardware functions -/

inductive Operation where
  | p256PointMul
  | p256PointAdd
  | p256FieldMul
  | p256FieldSquare
  | p256FieldPow
  | p256ComputeYSquared
  | p256PointValidate
  | p256PointInvert
  | fillEntropy (length : Nat)
  | derivePbkdf2
  | hash
  | mac
  | cipher
  | hashFaultRecovery
  | cipherFaultRecovery
  /-- `with_crypto_service` itself, as `crypto_contention_holder` calls it. -/
  | contentionHolder
  deriving DecidableEq

namespace Operation

/-- The families whose requests and failures the function counts. -/
def families : Operation → List Family
  | p256PointMul => [.p256]
  | p256PointAdd => [.p256, .p256Add]
  | p256FieldMul => [.p256Field, .p256FieldMul]
  | p256FieldSquare => [.p256Field, .p256FieldSquare]
  | p256FieldPow => [.p256Field, .p256FieldPow]
  | p256ComputeYSquared => [.p256Curve, .p256CurveY2]
  | p256PointValidate => [.p256Curve, .p256CurveValidate]
  | p256PointInvert => [.p256Curve, .p256CurveInvert]
  | fillEntropy _ => [.entropy]
  | derivePbkdf2 => [.pbkdf2]
  | hash => [.hash]
  | mac => [.mac]
  | cipher => [.cipher]
  | hashFaultRecovery => [.hashRecovery]
  | cipherFaultRecovery => [.cipherRecovery]
  | contentionHolder => []

/-- The families whose time it counts. -/
def timed : Operation → List Family
  | p256PointMul => [.p256]
  | p256PointAdd => [.p256, .p256Add]
  | p256FieldMul | p256FieldSquare | p256FieldPow => [.p256Field]
  | p256ComputeYSquared | p256PointValidate | p256PointInvert => [.p256Curve]
  | derivePbkdf2 => [.pbkdf2]
  | hash => [.hash]
  | mac => [.mac]
  | cipher => [.cipher]
  | fillEntropy _ | hashFaultRecovery | cipherFaultRecovery | contentionHolder => []

/-- Nothing to do: `fill_hardware_entropy` on an empty slice. -/
def trivial : Operation → Bool
  | fillEntropy length => length == 0
  | _ => false

/-- The updates before the backend is asked. -/
def opening (op : Operation) : List Update := op.families.map .addRequest

/-- The last updates, for a failure or a success. -/
def outcome (op : Operation) (failed : Bool) : List Update :=
  if failed then op.families.map .addFailure
  else match op with
    | fillEntropy length => [.addEntropyBytes (UInt32.ofNat length)]
    | _ => []

/-- The updates after it has answered. -/
def closing (op : Operation) (elapsed : UInt32) (failed : Bool) : List Update :=
  op.timed.flatMap (fun family => [.addTotalMs family elapsed, .maxMs family elapsed]) ++
    op.outcome failed

end Operation

/-- `u32::try_from(now.wrapping_sub(started)).unwrap_or(u32::MAX)`. -/
def elapsedMs (started now : UInt64) : UInt32 :=
  if (now - started).toNat < 2 ^ 32 then (now - started).toUInt32 else 0xffffffff

/-- `Ok(())`, and the boolean of `p256_point_validate_hardware`. -/
inductive Value where
  | unit
  | bool (value : Bool)
  deriving DecidableEq

abbrev Result : Type := Except CryptoError Value

def failed : Result → Bool
  | .ok _ => false
  | .error _ => true

/-! ## §3 Installers and calls -/

/-- A call of `install_hardware_crypto`. -/
inductive Installer where
  /-- In `mutex_create`. -/
  | creating
  /-- Before `CRYPTO_STORAGE.try_init`. -/
  | storage (mutex : Nat)
  /-- Before `CRYPTO_CELL.try_init`. -/
  | cell (mutex : Nat)
  /-- Before the pointer is stored. -/
  | publishing (mutex : Nat)
  /-- In the `mutex_destroy` of a failed attempt. -/
  | destroying (mutex : Nat)
  | returned (result : Except CryptoError Unit)
  deriving DecidableEq

inductive Pc where
  /-- Before the rest of the requests is counted. -/
  | counting (todo : List Update)
  /-- Before the first reading of the clock. -/
  | starting
  /-- Before the pointer is loaded. -/
  | loading (started : UInt64)
  | locking (started : UInt64) (mutex : Nat)
  /-- The backend works. -/
  | operating (started : UInt64) (mutex : Nat)
  | unlocking (started : UInt64) (mutex : Nat) (result : Result)
  /-- Before the second reading of the clock. -/
  | timing (started : UInt64) (result : Result)
  | recording (todo : List Update) (result : Result)
  | returned (result : Result)
  deriving DecidableEq

/-- A call of a hardware function. -/
structure Client where
  operation : Operation
  pc : Pc
  /-- The updates it has made. -/
  made : List Update
  /-- The time it has measured. -/
  spent : UInt32
  deriving DecidableEq

namespace Client

def goto (c : Client) (pc : Pc) : Client := { c with pc }

/-- It makes an update. -/
def make (c : Client) (u : Update) (pc : Pc) : Client := { c with pc, made := c.made ++ [u] }

/-- A function that counts no time does not read the clock. -/
def afterCounting (op : Operation) : Pc := if op.timed = [] then .loading 0 else .starting

/-- The next place once the todo list is known. -/
def countingPc (op : Operation) (todo : List Update) : Pc :=
  if todo = [] then afterCounting op else .counting todo

def recordingPc (todo : List Update) (result : Result) : Pc :=
  if todo = [] then .returned result else .recording todo result

def enter (operation : Operation) : Client :=
  ⟨operation,
    if operation.trivial then .returned (.ok .unit) else countingPc operation operation.opening, [], 0⟩

/-- The time is read a second time. -/
def timedAt (c : Client) (started now : UInt64) (result : Result) : Client :=
  { c with
    pc := recordingPc (c.operation.closing (elapsedMs started now) (failed result)) result
    spent := elapsedMs started now }

/-- With the result of `with_crypto_service`. -/
def answered (c : Client) (started : UInt64) (result : Result) : Client :=
  c.goto
    (if c.operation.timed = [] then
      recordingPc (c.operation.closing 0 (failed result)) result
    else .timing started result)

/-- The mutex it uses, from the load of the pointer to the unlock. -/
def mutex (c : Client) : Option Nat :=
  match c.pc with
  | .locking _ mutex | .operating _ mutex | .unlocking _ mutex _ => some mutex
  | .counting _ | .starting | .loading _ | .timing _ _ | .recording _ _ | .returned _ => none

/-- The mutex it holds. -/
def held (c : Client) : Option Nat :=
  match c.pc with
  | .operating _ mutex | .unlocking _ mutex _ => some mutex
  | .counting _ | .starting | .loading _ | .locking _ _ | .timing _ _ | .recording _ _ | .returned _ =>
      none

def finished (c : Client) : Bool :=
  match c.pc with
  | .returned _ => true
  | .counting _ | .starting | .loading _ | .locking _ _ | .operating _ _ | .unlocking _ _ _
  | .timing _ _ | .recording _ _ => false

end Client

/-! ## §4 The machine -/

structure Mutex where
  live : Bool
  owner : Option Nat
  /-- The installer that created it. -/
  creator : Nat
  deriving DecidableEq

structure State where
  mutexes : List Mutex
  /-- `CRYPTO_STORAGE` is filled. -/
  storage : Bool
  /-- The mutex of the service in `CRYPTO_CELL`. -/
  cell : Option Nat
  /-- `CRYPTO_SERVICE`: the mutex of the service it points to. -/
  service : Option Nat
  counters : Counters
  installers : List Installer
  clients : List Client
  faults : List Nat

def init : State := ⟨[], false, none, none, .zero, [], [], []⟩

inductive Action where
  | install
  | call (operation : Operation)
  /-- `mutex_create` of installer `i`. -/
  | create (i : Nat) (ok : Bool)
  /-- A step of installer `i` that needs no answer. -/
  | installer (i : Nat)
  /-- `mutex_destroy` of installer `i`, whose result is ignored. -/
  | destroy (i : Nat) (ok : Bool)
  /-- A step of call `k` that needs no answer: an update or the load. -/
  | client (k : Nat)
  /-- Call `k` reads the clock. -/
  | clock (k : Nat) (now : UInt64)
  /-- `mutex_lock` of call `k` acquires the mutex, times out or fails. -/
  | acquires (k : Nat)
  | timesOut (k : Nat)
  | lockFails (k : Nat)
  /-- The backend answers call `k`. -/
  | backend (k : Nat) (result : Result)
  | unlock (k : Nat) (ok : Bool)

namespace State

def gotoInstaller (s : State) (i : Nat) (place : Installer) : State :=
  { s with installers := s.installers.set i place }

def gotoClient (s : State) (k : Nat) (c : Client) : State :=
  { s with clients := s.clients.set k c }

/-- An operation on a mutex that is not there is a fault. -/
def touch (s : State) (mutex : Nat) : State :=
  match s.mutexes[mutex]? with
  | some ⟨true, _, _⟩ => s
  | _ => { s with faults := mutex :: s.faults }

def setMutex (s : State) (mutex : Nat) (m : Mutex) : State :=
  { s with mutexes := s.mutexes.set mutex m }

def createMutex (s : State) (i : Nat) (ok : Bool) : State :=
  if ok then
    { s with mutexes := s.mutexes ++ [(⟨true, none, i⟩ : Mutex)] }.gotoInstaller i
      (.storage s.mutexes.length)
  else s.gotoInstaller i (.returned (.error (.backend 0xffff1002)))

def stepInstaller (s : State) (i : Nat) : Installer → Option State
  | .creating | .destroying _ | .returned _ => none
  | .storage mutex =>
      some (if s.storage then s.gotoInstaller i (.destroying mutex)
        else { s with storage := true }.gotoInstaller i (.cell mutex))
  | .cell mutex =>
      match s.cell with
      | some _ => some (s.gotoInstaller i (.destroying mutex))
      | none => some ({ s with cell := some mutex }.gotoInstaller i (.publishing mutex))
  | .publishing mutex =>
      some ({ s with service := some mutex }.gotoInstaller i (.returned (.ok ())))

def destroyMutex (s : State) (i mutex : Nat) (ok : Bool) : State :=
  let touched := (s.touch mutex).gotoInstaller i (.returned (.error .invalidValue))
  match s.mutexes[mutex]? with
  | some m => if ok then touched.setMutex mutex { m with live := false } else touched
  | none => touched

def update (s : State) (u : Update) : State := { s with counters := s.counters.apply u }

/-- A step of call `k` that needs no answer. -/
def stepClient (s : State) (k : Nat) (c : Client) : Option State :=
  match c.pc with
  | .counting (u :: todo) =>
      some ((s.update u).gotoClient k (c.make u (Client.countingPc c.operation todo)))
  | .recording (u :: todo) result =>
      some ((s.update u).gotoClient k (c.make u (Client.recordingPc todo result)))
  | .loading started =>
      match s.service with
      | none => some (s.gotoClient k (c.answered started (.error .unsupported)))
      | some mutex => some (s.gotoClient k (c.goto (.locking started mutex)))
  | .counting [] | .recording [] _ | .starting | .locking _ _ | .operating _ _ | .unlocking _ _ _
  | .timing _ _ | .returned _ => none

def stepClock (s : State) (k : Nat) (now : UInt64) (c : Client) : Option State :=
  match c.pc with
  | .starting => some (s.gotoClient k (c.goto (.loading now)))
  | .timing started result => some (s.gotoClient k (c.timedAt started now result))
  | .counting _ | .loading _ | .locking _ _ | .operating _ _ | .unlocking _ _ _ | .recording _ _
  | .returned _ => none

def stepAcquires (s : State) (k : Nat) (c : Client) : Option State :=
  match c.pc with
  | .locking started mutex =>
      match s.mutexes[mutex]? with
      | some ⟨true, none, creator⟩ =>
          some ((s.setMutex mutex ⟨true, some k, creator⟩).gotoClient k
            (c.goto (.operating started mutex)))
      | _ => none
  | .counting _ | .starting | .loading _ | .operating _ _ | .unlocking _ _ _ | .timing _ _
  | .recording _ _ | .returned _ => none

/-- `mutex_lock` returns without the mutex. -/
def stepLockFails (s : State) (k : Nat) (error : CryptoError) (c : Client) : Option State :=
  match c.pc with
  | .locking started mutex => some ((s.touch mutex).gotoClient k (c.answered started (.error error)))
  | .counting _ | .starting | .loading _ | .operating _ _ | .unlocking _ _ _ | .timing _ _
  | .recording _ _ | .returned _ => none

def stepBackend (s : State) (k : Nat) (result : Result) (c : Client) : Option State :=
  match c.pc with
  | .operating started mutex => some (s.gotoClient k (c.goto (.unlocking started mutex result)))
  | .counting _ | .starting | .loading _ | .locking _ _ | .unlocking _ _ _ | .timing _ _
  | .recording _ _ | .returned _ => none

/-- The result of `with_crypto_service` from those of the operation and the unlock. -/
def unlocked (result : Result) (ok : Bool) : Result :=
  match result with
  | .error error => .error error
  | .ok value => if ok then .ok value else .error (.backend 0xffff1005)

def stepUnlock (s : State) (k : Nat) (ok : Bool) (c : Client) : Option State :=
  match c.pc with
  | .unlocking started mutex result =>
      let after := (s.touch mutex).gotoClient k (c.answered started (unlocked result ok))
      match s.mutexes[mutex]? with
      | some m => some (if ok then after.setMutex mutex { m with owner := none } else after)
      | none => some after
  | .counting _ | .starting | .loading _ | .locking _ _ | .operating _ _ | .timing _ _
  | .recording _ _ | .returned _ => none

def step (s : State) : Action → Option State
  | .install => some { s with installers := s.installers ++ [.creating] }
  | .call operation => some { s with clients := s.clients ++ [Client.enter operation] }
  | .create i ok => if s.installers[i]? = some .creating then some (s.createMutex i ok) else none
  | .installer i => s.installers[i]?.bind (s.stepInstaller i)
  | .destroy i ok =>
      match s.installers[i]? with
      | some (.destroying mutex) => some (s.destroyMutex i mutex ok)
      | _ => none
  | .client k => s.clients[k]?.bind (s.stepClient k)
  | .clock k now => s.clients[k]?.bind (s.stepClock k now)
  | .acquires k => s.clients[k]?.bind (s.stepAcquires k)
  | .timesOut k => s.clients[k]?.bind (s.stepLockFails k (.backend 0xffff1004))
  | .lockFails k => s.clients[k]?.bind (s.stepLockFails k (.backend 0xffff1003))
  | .backend k result => s.clients[k]?.bind (s.stepBackend k result)
  | .unlock k ok => s.clients[k]?.bind (s.stepUnlock k ok)

end State

end HisiRiscv.Crypto.Service
