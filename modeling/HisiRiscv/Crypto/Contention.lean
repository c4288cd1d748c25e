/-
HisiRiscv.Crypto.Contention — the contention self test of `crypto.rs`.

`ws63_crypto_contention_self_test` makes two semaphores and a context that
can be filled once, spawns a holder and a waiter, waits until both have
signalled `done`, destroys the semaphores and reads the results. The
holder takes the crypto service, raises `start` while it holds it, yields,
and hashes once it sees that the waiter has come. The waiter waits for
`start`, says that it has come, and asks for a cipher block. One step is
one operation on a semaphore, on an atomic or on the context, one answer
of the runtime or of the backend, or one step of the crypto service; any
number of self tests and of other calls of the service run against each
other.

Translation notes. The semaphores and tasks of `hisi_rf_rtos_driver` are
not part of the repository: a semaphore is a number of permits, an
operation that fails changes nothing, and a `down` may time out at any
time. No handle is given out twice, so a handle is named by the test that
created the semaphore and its role there. `codeOf` is `CryptoError::code`.
Whether a digest or a cipher block is the expected one is part of the
action. Stack sizes and priorities are left out.

History variables: a test says whether it filled the context and counts
the signals it has taken; the holder says whether it has raised `start`
and what its closure returned, the waiter whether it has got `start` and
whether it has read `holder_releasing` as 0;
`faults` lists the operations on a semaphore that is destroyed or was
never made.

  §1 The parties.
  §2 State.
  §3 Steps of a test.
  §4 Steps of the tasks.
  §5 The machine.
-/
import HisiRiscv.Crypto.Service

namespace HisiRiscv.Crypto.Contention

open Service (CryptoError Result failed)

/-! ## §1 The parties -/

def contentionRuntimeError (code : UInt32) : CryptoError := .backend (0xffff1200 ||| code)

/-- The place of a self test. -/
inductive TestPc where
  | creatingStart
  | creatingDone
  /-- The second semaphore was refused: before the first is destroyed. -/
  | droppingOnly
  | initialising
  /-- The context was already filled: before the two are destroyed. -/
  | droppingStart
  | droppingDone
  | spawningHolder
  | spawningWaiter
  /-- Before the next `done`; `both` if the waiter was spawned. -/
  | awaiting (left : Nat) (both : Bool)
  | destroyingStart
  | destroyingDone
  /-- Before the three loads. -/
  | loadingObserved
  | loadingHolder
  | loadingWaiter
  | succeeding
  | failing (code : UInt32)
  | returned (result : Except CryptoError Unit)
  deriving DecidableEq

structure Semaphore where
  permits : Nat
  live : Bool
  deriving DecidableEq

/-- A self test with the two semaphores it creates. -/
structure Test where
  pc : TestPc
  start : Option Semaphore
  done : Option Semaphore
  /-- It has filled the context. -/
  won : Bool
  /-- The signals it has taken. -/
  taken : Nat
  deriving DecidableEq

inductive Role where
  | start
  | done
  deriving DecidableEq

structure Handle where
  test : Nat
  role : Role
  deriving DecidableEq

namespace Test

def get (t : Test) : Role → Option Semaphore
  | .start => t.start
  | .done => t.done

def put (t : Test) (role : Role) (sem : Option Semaphore) : Test :=
  match role with
  | .start => { t with start := sem }
  | .done => { t with done := sem }

end Test

/-- The end of both tasks, from the counting of a success to the signal. -/
inductive Tail where
  | completing (result : Result)
  | storing (result : Result)
  | signalling (result : Result)
  | finished (result : Result)
  deriving DecidableEq

inductive HolderPc where
  /-- Before `with_crypto_service`. -/
  | entered
  /-- In `with_crypto_service`, before the closure. -/
  | calling
  | yielding
  | checking
  | observing
  | hashing
  | releasing (result : Result) (sameDigest : Bool)
  /-- The closure has returned. -/
  | leaving
  | tail (t : Tail)
  deriving DecidableEq

structure Holder where
  pc : HolderPc
  /-- Its call of the service. -/
  client : Option Nat
  /-- It has raised `start`. -/
  raised : Bool
  /-- What its closure returned. -/
  closure : Option Result
  deriving DecidableEq

inductive WaiterPc where
  | entered
  /-- It has got `start`; before it says so. -/
  | attempting
  /-- Before `cipher_hardware`. -/
  | arrived
  /-- In `cipher_hardware`. -/
  | calling
  /-- Before the load of `holder_releasing`. -/
  | comparing (sameBlock : Bool)
  | tail (t : Tail)
  deriving DecidableEq

structure Waiter where
  pc : WaiterPc
  client : Option Nat
  /-- It has got `start`. -/
  started : Bool
  /-- It has read `holder_releasing` as 0. -/
  early : Bool
  deriving DecidableEq

/-! ## §2 State -/

/-- `CryptoContentionContext`; its handles are those of test number `test`. -/
structure Context where
  test : Nat
  waiterAttempted : UInt32
  holderReleasing : UInt32
  contentionObserved : UInt32
  holderResult : UInt32
  waiterResult : UInt32
  deriving DecidableEq

/-- The five static counters. -/
structure Tally where
  tests : UInt32
  failures : UInt32
  observed : UInt32
  holderCompletions : UInt32
  waiterCompletions : UInt32
  deriving DecidableEq

structure State where
  service : Service.State
  /-- `CRYPTO_CONTENTION_CONTEXT`. -/
  context : Option Context
  tally : Tally
  tests : List Test
  holders : List Holder
  waiters : List Waiter
  faults : List Handle

def init : State := ⟨Service.init, none, ⟨0, 0, 0, 0, 0⟩, [], [], [], []⟩

/-- The answer of the runtime. -/
inductive Reply where
  | ok
  | timesOut
  | fails
  deriving DecidableEq

namespace Semaphore

def usable : Option Semaphore → Bool
  | some sem => sem.live
  | none => false

def permitsOf : Option Semaphore → Nat
  | some sem => sem.permits
  | none => 0

/-- `semaphore_up`: an answer other than `ok` changes nothing. -/
def up (sem : Option Semaphore) (reply : Reply) : Option Semaphore :=
  if reply = .ok ∧ usable sem then some ⟨permitsOf sem + 1, true⟩ else sem

/-- `semaphore_down`: `none` while there is no permit to acquire. -/
def down (sem : Option Semaphore) (reply : Reply) : Option (Option Semaphore) :=
  match reply with
  | .timesOut | .fails => some sem
  | .ok => if usable sem ∧ 0 < permitsOf sem then some (some ⟨permitsOf sem - 1, true⟩) else none

def destroy (sem : Option Semaphore) (reply : Reply) : Option Semaphore :=
  if reply = .ok ∧ usable sem then some ⟨permitsOf sem, false⟩ else sem

end Semaphore

open Semaphore (usable permitsOf)

namespace State

def gotoTest (s : State) (i : Nat) (t : Test) : State := { s with tests := s.tests.set i t }

def gotoHolder (s : State) (i : Nat) (h : Holder) : State := { s with holders := s.holders.set i h }

def gotoWaiter (s : State) (i : Nat) (w : Waiter) : State := { s with waiters := s.waiters.set i w }

/-- An operation on a semaphore that is not there is a fault. -/
def touch (s : State) (handle : Handle) (sem : Option Semaphore) : State :=
  if usable sem then s else { s with faults := handle :: s.faults }

/-! ## §3 Steps of a test -/

/-- The fields of the context that are read; `none` before it is filled. -/
def load (s : State) (field : Context → UInt32) : Option UInt32 := s.context.map field

def stepTest (s : State) (i : Nat) (reply : Reply) (t : Test) : Option State :=
  match t.pc with
  | .creatingStart =>
      some (s.gotoTest i
        (if reply = .ok then { t with pc := .creatingDone, start := some ⟨0, true⟩ }
          else { t with pc := .failing 9 }))
  | .creatingDone =>
      some (s.gotoTest i
        (if reply = .ok then { t with pc := .initialising, done := some ⟨0, true⟩ }
          else { t with pc := .droppingOnly }))
  | .droppingOnly =>
      some ((s.touch ⟨i, .start⟩ t.start).gotoTest i
        { t with pc := .failing 10, start := Semaphore.destroy t.start reply })
  | .initialising =>
      match s.context with
      | none =>
          some ({ s with context := some ⟨i, 0, 0, 0, 0xffffffff, 0xffffffff⟩ }.gotoTest i
            { t with pc := .spawningHolder, won := true })
      | some _ => some (s.gotoTest i { t with pc := .droppingStart })
  | .droppingStart =>
      some ((s.touch ⟨i, .start⟩ t.start).gotoTest i
        { t with pc := .droppingDone, start := Semaphore.destroy t.start reply })
  | .droppingDone =>
      some ((s.touch ⟨i, .done⟩ t.done).gotoTest i
        { t with pc := .failing 11, done := Semaphore.destroy t.done reply })
  | .spawningHolder =>
      some (if reply = .ok then
          { s with holders := s.holders ++ [(⟨.entered, none, false, none⟩ : Holder)] }.gotoTest i
            { t with pc := .spawningWaiter }
        else s.gotoTest i { t with pc := .failing 12 })
  | .spawningWaiter =>
      some (if reply = .ok then
          { s with waiters := s.waiters ++ [(⟨.entered, none, false, false⟩ : Waiter)] }.gotoTest i
            { t with pc := .awaiting 2 true }
        else s.gotoTest i { t with pc := .awaiting 1 false })
  | .awaiting (left + 1) both =>
      (Semaphore.down t.done reply).map fun sem =>
        (s.touch ⟨i, .done⟩ t.done).gotoTest i
          (match reply with
          | .ok => { t with pc := .awaiting left both, done := sem, taken := t.taken + 1 }
          | .timesOut => { t with pc := .failing 14 }
          | .fails => { t with pc := .failing 13 })
  | .awaiting 0 both =>
      some (s.gotoTest i { t with pc := if both then .destroyingStart else .failing 15 })
  | .destroyingStart =>
      some ((s.touch ⟨i, .start⟩ t.start).gotoTest i
        { t with
          pc := if reply = .ok then .destroyingDone else .failing 16
          start := Semaphore.destroy t.start reply })
  | .destroyingDone =>
      some ((s.touch ⟨i, .done⟩ t.done).gotoTest i
        { t with
          pc := if reply = .ok then .loadingObserved else .failing 17
          done := Semaphore.destroy t.done reply })
  | .loadingObserved =>
      (s.load Context.contentionObserved).map fun (value : UInt32) =>
        s.gotoTest i { t with pc := if value = 0 then .failing 18 else .loadingHolder }
  | .loadingHolder =>
      (s.load Context.holderResult).map fun (value : UInt32) =>
        s.gotoTest i { t with pc := if value = 0 then .loadingWaiter else .failing 18 }
  | .loadingWaiter =>
      (s.load Context.waiterResult).map fun (value : UInt32) =>
        s.gotoTest i { t with pc := if value = 0 then .succeeding else .failing 18 }
  | .succeeding =>
      some ({ s with tally := { s.tally with observed := s.tally.observed + 1 } }.gotoTest i
        { t with pc := .returned (.ok ()) })
  | .failing code =>
      some ({ s with tally := { s.tally with failures := s.tally.failures + 1 } }.gotoTest i
        { t with pc := .returned (.error (contentionRuntimeError code)) })
  | .returned _ => none

/-! ## §4 Steps of the tasks -/

def up (s : State) (handle : Handle) (reply : Reply) : State :=
  match s.tests[handle.test]? with
  | some t =>
      (s.touch handle (t.get handle.role)).gotoTest handle.test
        (t.put handle.role (Semaphore.up (t.get handle.role) reply))
  | none => s.touch handle none

def down (s : State) (handle : Handle) (reply : Reply) : Option State :=
  match s.tests[handle.test]? with
  | some t =>
      (Semaphore.down (t.get handle.role) reply).map fun sem =>
        (s.touch handle (t.get handle.role)).gotoTest handle.test (t.put handle.role sem)
  | none => some (s.touch handle none)

def updateContext (s : State) (f : Context → Context) : State :=
  { s with context := s.context.map f }

/-- The place of call `k` of the service. -/
def clientPc (s : State) (k : Nat) : Option Service.Pc := s.service.clients[k]?.map Service.Client.pc

/-- The result of call `k`, once it has returned. -/
def clientResult (s : State) (k : Nat) : Option Result :=
  match s.clientPc k with
  | some (.returned result) => some result
  | _ => none

/-- The closure of call `k` runs. -/
def clientOperates (s : State) (k : Nat) : Bool :=
  match s.clientPc k with
  | some (.operating _ _) => true
  | _ => false

/-- A step of the crypto service. -/
def stepService (s : State) (a : Service.Action) : Option State :=
  (s.service.step a).map fun service => { s with service }

/-- The closure of holder `i` returns. -/
def answerHolder (s : State) (i : Nat) (h : Holder) (k : Nat) (result : Result) : Option State :=
  (s.stepService (.backend k result)).map fun s' =>
    s'.gotoHolder i { h with pc := .leaving, closure := some result }

def code (codeOf : CryptoError → UInt32) : Result → UInt32
  | .ok _ => 0
  | .error error => codeOf error

/-- A step of the end of a task, on the context and on `done`. -/
def stepTail (s : State) (store : UInt32 → Context → Context) (complete : Tally → Tally)
    (codeOf : CryptoError → UInt32) (reply : Reply) : Tail → Option (State × Tail)
  | .completing result =>
      some (if failed result then s else { s with tally := complete s.tally }, .storing result)
  | .storing result => some (s.updateContext (store (code codeOf result)), .signalling result)
  | .signalling result =>
      s.context.map fun context => (s.up ⟨context.test, .done⟩ reply, .finished result)
  | .finished _ => none

def stepHolder (codeOf : CryptoError → UInt32) (s : State) (i : Nat) (reply : Reply) (h : Holder) :
    Option State :=
  match h.pc, h.client with
  | .entered, _ =>
      (s.stepService (.call .contentionHolder)).map fun s' =>
        s'.gotoHolder i { h with pc := .calling, client := some s.service.clients.length }
  | .calling, some k =>
      match s.clientResult k with
      | some result => some (s.gotoHolder i { h with pc := .tail (.completing result) })
      | none =>
          if s.clientOperates k then
            match reply, s.context with
            | .ok, some context =>
                some ((s.up ⟨context.test, .start⟩ .ok).gotoHolder i { h with pc := .yielding, raised := true })
            | _, some context =>
                (s.up ⟨context.test, .start⟩ reply).answerHolder i h k (.error (contentionRuntimeError 1))
            | _, none => none
          else none
  | .yielding, some k =>
      match reply with
      | .ok => some (s.gotoHolder i { h with pc := .checking })
      | .timesOut | .fails => s.answerHolder i h k (.error (contentionRuntimeError 2))
  | .checking, some k =>
      (s.load Context.waiterAttempted).bind fun value =>
        if value = 0 then s.answerHolder i h k (.error (contentionRuntimeError 3))
        else some (s.gotoHolder i { h with pc := .observing })
  | .observing, some _ =>
      some ((s.updateContext fun c => { c with contentionObserved := 1 }).gotoHolder i
        { h with pc := .hashing })
  | .releasing result sameDigest, some k =>
      (s.updateContext fun c => { c with holderReleasing := 1 }).answerHolder i h k
        (match result with
        | .error error => .error error
        | .ok _ => if sameDigest then .ok .unit else .error (contentionRuntimeError 4))
  | .leaving, some k =>
      (s.clientResult k).map fun result => s.gotoHolder i { h with pc := .tail (.completing result) }
  | .tail t, _ =>
      (s.stepTail (fun value c => { c with holderResult := value })
        (fun tally => { tally with holderCompletions := tally.holderCompletions + 1 })
        codeOf reply t).map fun (s', t') => s'.gotoHolder i { h with pc := .tail t' }
  | .hashing, _ | .calling, none | .yielding, none | .checking, none | .observing, none
  | .releasing _ _, none | .leaving, none => none

/-- The backend hashes for holder `i`. -/
def stepHash (s : State) (i : Nat) (result : Result) (sameDigest : Bool) (h : Holder) : Option State :=
  match h.pc with
  | .hashing => some (s.gotoHolder i { h with pc := .releasing result sameDigest })
  | .entered | .calling | .yielding | .checking | .observing | .releasing _ _ | .leaving | .tail _ =>
      none

def waiterFails (s : State) (i : Nat) (w : Waiter) (code : UInt32) : State :=
  s.gotoWaiter i { w with pc := .tail (.completing (.error (contentionRuntimeError code))) }

def stepWaiter (codeOf : CryptoError → UInt32) (s : State) (i : Nat) (reply : Reply) (w : Waiter) :
    Option State :=
  match w.pc with
  | .entered =>
      s.context.bind fun context => (s.down ⟨context.test, .start⟩ reply).map fun s' =>
        match reply with
        | .ok => s'.gotoWaiter i { w with pc := .attempting, started := true }
        | .timesOut => s'.waiterFails i w 6
        | .fails => s'.waiterFails i w 5
  | .attempting =>
      some ((s.updateContext fun c => { c with waiterAttempted := 1 }).gotoWaiter i
        { w with pc := .arrived })
  | .arrived =>
      (s.stepService (.call .cipher)).map fun s' =>
        s'.gotoWaiter i { w with pc := .calling, client := some s.service.clients.length }
  | .calling =>
      match w.client.bind s.clientResult with
      | some (.error error) =>
          some (s.gotoWaiter i { w with pc := .tail (.completing (.error error)) })
      | some (.ok _) | none => none
  | .comparing sameBlock =>
      (s.load Context.holderReleasing).map fun value =>
        if value = 0 then s.waiterFails i { w with early := true } 7
        else if sameBlock then s.gotoWaiter i { w with pc := .tail (.completing (.ok .unit)) }
        else s.waiterFails i w 8
  | .tail t =>
      (s.stepTail (fun value c => { c with waiterResult := value })
        (fun tally => { tally with waiterCompletions := tally.waiterCompletions + 1 })
        codeOf reply t).map fun (s', t') => s'.gotoWaiter i { w with pc := .tail t' }

/-- `cipher_hardware` has answered waiter `i`. -/
def stepCompare (s : State) (i : Nat) (sameBlock : Bool) (w : Waiter) : Option State :=
  match w.pc with
  | .calling =>
      match w.client.bind s.clientResult with
      | some (.ok _) => some (s.gotoWaiter i { w with pc := .comparing sameBlock })
      | some (.error _) | none => none
  | .entered | .attempting | .arrived | .comparing _ | .tail _ => none

/-! ## §5 The machine -/

/-- The closures of the holders are not answered by the environment. -/
def foreign (s : State) : Service.Action → Bool
  | .backend k _ => s.holders.all fun h => h.client != some k
  | .call operation => operation != .contentionHolder
  | _ => true

end State

inductive Action where
  | service (a : Service.Action)
  /-- A new self test. -/
  | test
  | testStep (i : Nat) (reply : Reply)
  | holder (i : Nat) (reply : Reply)
  | hash (i : Nat) (result : Result) (sameDigest : Bool)
  | waiter (i : Nat) (reply : Reply)
  | compare (i : Nat) (sameBlock : Bool)

def step (codeOf : CryptoError → UInt32) (s : State) : Action → Option State
  | .service a => if s.foreign a then s.stepService a else none
  | .test =>
      some { s with
        tests := s.tests ++ [⟨.creatingStart, none, none, false, 0⟩]
        tally := { s.tally with tests := s.tally.tests + 1 } }
  | .testStep i reply => s.tests[i]?.bind (s.stepTest i reply)
  | .holder i reply => s.holders[i]?.bind (s.stepHolder codeOf i reply)
  | .hash i result sameDigest => s.holders[i]?.bind (s.stepHash i result sameDigest)
  | .waiter i reply => s.waiters[i]?.bind (s.stepWaiter codeOf i reply)
  | .compare i sameBlock => s.waiters[i]?.bind (s.stepCompare i sameBlock)

end HisiRiscv.Crypto.Contention
