/-
HisiRiscv.Supplicant.ScanAbort — scan callbacks against the runner's
begin, start, cancel and poll.

The scan queue of `Interleaved` with everything around it that decides
which events enter and leave it: `PORT_STATE`, `NATIVE_SCAN_ACTIVE`,
`accepted_results`, the vendor callbacks `enqueue_scan_result` and
`enqueue_scan_done`, and the runner, which is the only consumer. One step
is one atomic operation, here and in the queue.

Translation notes. The runner's part of `poll` is one `take_oldest` with
the feed of what it returns; a poll is any number of these.
`fetch_update` is one step. `start_scan` is called by hostap from inside
the runner, also while a scan event is being fed, and goes back to where
it was called from. A result whose descriptor is wrong goes to the queue's
own call, which refuses it.

History variables: `cancels` and `cancelled` count the calls of
`cancel_scan_cache_capture` and their returns; a producer keeps the value
of `cancels` at its start; `quiet` says that no producer was past its
check of `NATIVE_SCAN_ACTIVE` when the current `take_oldest` of
`discard_pending` began; `fed` lists the numbers fed to hostap, with the
value of `cancelled` at the time.
-/
import HisiRiscv.Supplicant.Interleaved

namespace HisiRiscv.Supplicant.ScanAbort

open HisiRiscv.Supplicant

/-- The program counter of a callback. -/
inductive Pc where
  /-- Before the load of `PORT_STATE`. -/
  | port
  /-- Before the load (scan done: the swap) of `NATIVE_SCAN_ACTIVE`. -/
  | active
  /-- Before the update of `accepted_results`. -/
  | reserve
  /-- In call `a` of the queue's `enqueue`. -/
  | queued (a : Nat)
  | returned (ok : Bool)
  deriving DecidableEq

structure Producer where
  event : ScanEvent
  began : Nat
  pc : Pc

/-- The program counter of the runner. -/
inductive Runner where
  | idle
  /-- Before the exchange of `NATIVE_SCAN_ACTIVE` in `begin_scan_cache_capture`
  or, with `ioctl`, in `start_scan`. -/
  | claimScan (ioctl : Bool)
  /-- Before `begin_transaction`. -/
  | transaction (ioctl : Bool)
  /-- In the `IOCTL_SCAN` of `start_scan`. -/
  | scanning
  /-- Before the store of `NATIVE_SCAN_ACTIVE` in `cancel_scan_cache_capture`. -/
  | cancelling
  /-- In `discard_pending`. -/
  | discarding
  /-- In the scan loop of `poll`. -/
  | feeding
  deriving DecidableEq

structure State (sys : RadioSys) where
  queue : Interleaved.State (scanEventQueue sys)
  portReady : Bool
  active : Bool
  acceptedResults : Nat
  truncatedResults : UInt32
  producers : List Producer
  runner : Runner
  cancels : Nat
  cancelled : Nat
  quiet : Bool
  fed : List (Nat × Nat)

def init (sys : RadioSys) : State sys where
  queue := Interleaved.init (scanEventQueue sys)
  portReady := true
  active := false
  acceptedResults := 0
  truncatedResults := 0
  producers := []
  runner := .idle
  cancels := 0
  cancelled := 0
  quiet := false
  fed := []

inductive Action where
  /-- A callback begins. -/
  | enqueueScanResult (metadata : ScanMeta) (ies : List UInt8)
  | enqueueScanDone (status : Int32)
  /-- One step of callback number `i`. -/
  | producer (i : Nat)
  /-- The runner calls one of its functions. -/
  | beginScanCacheCapture
  | startScan
  | cancelScanCacheCapture
  | poll
  /-- One step of the runner; `status` is what an ioctl returns. -/
  | runner (status : Int32)
  | setPort (ready : Bool)

variable {sys : RadioSys}

/-- The callback is past its check of `NATIVE_SCAN_ACTIVE` and has not returned. -/
def Producer.underway (q : Interleaved.State (scanEventQueue sys)) (p : Producer) : Bool :=
  match p.pc with
  | .port | .active | .returned _ => false
  | .reserve => true
  | .queued a => q.calls[a]?.any Call.unfinished

/-- The sequence number of a callback's event. -/
def Producer.number (q : Interleaved.State (scanEventQueue sys)) (p : Producer) : Option Nat :=
  match p.pc with
  | .queued a => q.calls[a]?.bind Call.ticket?
  | .port | .active | .reserve | .returned _ => none

namespace State

/-- Where `start_scan` returns to: the feed it was called from, if a guard is alive. -/
def resume (s : State sys) : Runner :=
  if s.queue.consumer.slot?.isSome then .feeding else .idle

/-- The next step of the consumer ends `take_oldest` with `None`. -/
def passEnds (s : State sys) : Bool :=
  s.queue.consumer.slot?.isNone && s.queue.consume.consumer == .idle

def setPc (s : State sys) (i : Nat) (p : Producer) (pc : Pc) : State sys :=
  { s with producers := s.producers.set i { p with pc } }

/-- Callback `i` enters the queue's `enqueue`. -/
def enterQueue (s : State sys) (i : Nat) (p : Producer) : State sys :=
  { s with
    queue := { s.queue with calls := s.queue.calls ++ [.start p.event] }
    producers := s.producers.set i { p with pc := .queued s.queue.calls.length } }

def stepProducer (s : State sys) (i : Nat) (p : Producer) : Option (State sys) :=
  match p.pc with
  | .port => some (s.setPc i p (if s.portReady then .active else .returned false))
  | .active =>
      if s.active then
        if p.event.isDone then some { s.enterQueue i p with active := false }
        else some (s.setPc i p .reserve)
      else some (s.setPc i p (.returned false))
  | .reserve =>
      if (scanEventQueue sys).accepts p.event then
        if s.acceptedResults < maxScanResults then
          some { s.enterQueue i p with acceptedResults := s.acceptedResults + 1 }
        else some { s.setPc i p (.returned true) with truncatedResults := s.truncatedResults + 1 }
      else some (s.enterQueue i p)
  | .queued a => (Interleaved.step s.queue (.producer a)).map fun queue => { s with queue }
  | .returned _ => none

def stepRunner (s : State sys) (status : Int32) : Option (State sys) :=
  match s.runner with
  | .idle => none
  | .claimScan ioctl =>
      if s.active then some { s with runner := s.resume }
      else some { s with active := true, runner := .transaction ioctl }
  | .transaction ioctl =>
      some { s with acceptedResults := 0, runner := if ioctl then .scanning else s.resume }
  | .scanning =>
      some { s with active := if status = 0 then s.active else false, runner := s.resume }
  | .cancelling => some { s with active := false, quiet := false, runner := .discarding }
  | .discarding =>
      some { s with
        queue := s.queue.consume
        quiet :=
          if s.queue.consumer = .idle then s.producers.all fun p => !p.underway s.queue
          else s.quiet
        runner := if s.passEnds then .idle else .discarding
        cancelled := if s.passEnds then s.cancelled + 1 else s.cancelled }
  | .feeding =>
      match s.queue.consumer with
      | .holding j =>
          some { s with
            queue := s.queue.consume
            runner := .idle
            fed := s.fed ++ [((s.queue.queue.slots j).ticket, s.cancelled)] }
      | _ =>
          some { s with
            queue := s.queue.consume
            runner := if s.passEnds then .idle else .feeding }

end State

def step (s : State sys) : Action → Option (State sys)
  | .enqueueScanResult metadata ies =>
      some { s with producers := s.producers ++ [⟨.result metadata ies, s.cancels, .port⟩] }
  | .enqueueScanDone status =>
      some { s with producers := s.producers ++ [⟨.done status, s.cancels, .port⟩] }
  | .producer i => do
      let p ← s.producers[i]?
      s.stepProducer i p
  | .beginScanCacheCapture =>
      if s.runner = .idle then
        some { s with runner := if s.portReady then .claimScan false else .idle }
      else none
  | .startScan =>
      if s.runner = .idle ∨ s.runner = .feeding ∧ s.queue.consumer.slot?.isSome then
        some { s with runner := .claimScan true }
      else none
  | .cancelScanCacheCapture =>
      if s.runner = .idle then some { s with runner := .cancelling, cancels := s.cancels + 1 }
      else none
  | .poll => if s.runner = .idle then some { s with runner := .feeding } else none
  | .runner status => s.stepRunner status
  | .setPort ready => some { s with portReady := ready }

/-! ## The property and the condition -/

/-- No event that was fed belongs to a callback that began before a cancel that
had returned. -/
def NoLeak (s : State sys) : Prop :=
  ∀ x ∈ s.fed, ∀ p ∈ s.producers, p.number s.queue = some x.1 → x.2 ≤ p.began

/-- No callback outlives a cancel: one that began before a cancel does not see
the flag of a later scan, and the `take_oldest` that ends `discard_pending`
begins when no callback is past its check. -/
def Contained (s : State sys) : Action → Prop
  | .producer i => ∀ p ∈ s.producers[i]?, p.pc = .active → p.began < s.cancelled → s.active = false
  | .runner _ => s.runner = .discarding → s.passEnds → s.quiet = true
  | _ => True

instance (s : State sys) : (act : Action) → Decidable (Contained s act)
  | .producer i => inferInstanceAs (Decidable
      (∀ p ∈ s.producers[i]?, p.pc = .active → p.began < s.cancelled → s.active = false))
  | .runner _ => inferInstanceAs (Decidable
      (s.runner = .discarding → s.passEnds → s.quiet = true))
  | .enqueueScanResult _ _ | .enqueueScanDone _ | .beginScanCacheCapture | .startScan
  | .cancelScanCacheCapture | .poll | .setPort _ => inferInstanceAs (Decidable True)

end HisiRiscv.Supplicant.ScanAbort
