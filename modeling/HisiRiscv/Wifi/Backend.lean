/-
HisiRiscv.Wifi.Backend — `Ws63WifiBackend::connect`, `disconnect` and
`poll` with the upstream supplicant.

The backend owns the native supplicant and makes one call after the other.
A control call starts an operation of the C context and then loops: poll
the context, read the event ring until it is empty, look at the clock,
sleep. The C context appends an event whenever it likes, also while no call
is running.

Translation notes. The C context, the clock and the runtime are not part of
the repository: their answers are the arguments of the actions, and of the
ring it is only assumed that `hisi_wpa_next_event` takes the oldest event,
and 0 says that there is none. `supplicant` says whether `initialize` has
stored a `NativeSupplicant`. The network record that `configure` builds is
only passed on to C; of a configuration the fields stay that the backend
reads itself.

History variables: `produced` lists every event ever appended, an entry of
the ring carries its place in that list, and `mark` is how many events there
were when the call entered `NativeSupplicant::connect` or `disconnect`.

  §1 Events and errors.
  §2 How a call ends.
  §3 State and steps.
-/
import HisiRiscv.Supplicant.Poll
import HisiRiscv.Wifi.ScanResult

namespace HisiRiscv.Wifi.Backend

open HisiRiscv.Supplicant (Bssid NativeSupplicantError PollResult QueueKind)

/-! ## §1 Events and errors -/

def nativeEventAuthorized : UInt8 := 3
def nativeEventDisconnected : UInt8 := 4
def nativeEventFailed : UInt8 := 5

inductive NativeConnectEvent where
  | progress
  | authorized
  | disconnected
  | failed
  deriving DecidableEq

def classifyNativeConnectEvent (kind : UInt8) : NativeConnectEvent :=
  if kind = nativeEventAuthorized then .authorized
  else if kind = nativeEventDisconnected then .disconnected
  else if kind = nativeEventFailed then .failed
  else .progress

/-- `ABI_VERSION` and the capacity of `Event::data`. -/
structure EventAbi where
  abiVersion : UInt16
  dataCapacity : Nat

structure Event where
  abiVersion : UInt16
  kind : UInt8
  status : Int32
  dataLen : Nat
  deriving DecidableEq

/-- The checks of `next_event`. -/
def EventAbi.accepts (abi : EventAbi) (e : Event) : Bool :=
  e.abiVersion == abi.abiVersion && e.dataLen ≤ abi.dataCapacity

/-- An event of the ring, with its place in the order of production. -/
structure Entry where
  number : Nat
  event : Event
  deriving DecidableEq

inductive BackendErrorClass where
  /-- `Initialize`. -/
  | init
  | operationTimeout
  | connect
  | other
  | backendTimeout
  deriving DecidableEq

structure BackendError where
  errorClass : BackendErrorClass
  code : UInt32
  deriving DecidableEq

def notInitialized : BackendError := ⟨.init, 0x10000003⟩

/-- The errors of `NativeSupplicant` that the three calls can meet. -/
inductive NativeError where
  | poll (e : NativeSupplicantError)
  | configureFailed (status : Int32)
  | connectFailed (status : Int32)
  | disconnectFailed (status : Int32)
  deriving DecidableEq

/-- `status as u32 & 0xfff`. -/
def low12 (status : Int32) : UInt32 := status.toUInt32 &&& 0xfff

def nativeErrorCode : NativeError → BackendErrorClass × UInt32
  | .poll (.queueOverflow .mgmt count) => (.other, 0x6000 ||| min count 0xfff)
  | .poll (.queueOverflow .scan count) => (.other, 0x8000 ||| min count 0xfff)
  | .poll (.queueOverflow .link count) => (.connect, 0xa000 ||| min count 0xfff)
  | .poll (.queueOverflow .externalAuth count) => (.connect, 0xf000 ||| min count 0xfff)
  | .poll (.feedFailed .mgmt status) => (.other, 0x3000 ||| low12 status)
  | .poll (.feedFailed .scan status) => (.other, 0x7000 ||| low12 status)
  | .poll (.feedFailed .link status) => (.connect, 0x9000 ||| low12 status)
  | .poll (.feedFailed .externalAuth status) => (.connect, 0xe000 ||| low12 status)
  | .poll (.feedEapolFailed status) => (.other, 0x4000 ||| low12 status)
  | .poll (.disconnectFailed status) => (.connect, 0xd000 ||| low12 status)
  | .poll .invalidResult => (.other, 5)
  | .poll (.pollFailed status) => (.other, 0x5000 ||| low12 status)
  | .configureFailed status => (.connect, 0xb000 ||| low12 status)
  | .connectFailed status => (.connect, 0xc000 ||| low12 status)
  | .disconnectFailed status => (.connect, 0xd000 ||| low12 status)

def mapNativeError (e : NativeError) : BackendError :=
  ⟨(nativeErrorCode e).1, 0x57320000 ||| (nativeErrorCode e).2⟩

/-- `hisi_rf_rtos_driver::Error`. -/
inductive RuntimeError where
  | notInstalled
  | alreadyInstalled
  | resourceExhausted
  | noTaskSlots
  | invalidHandle
  | invalidContext
  | timedOut
  | runtime
  | incompatibleContract
  | incompatibleExecutionProfile
  deriving DecidableEq

def runtimeCode : RuntimeError → UInt32
  | .notInstalled => 1
  | .alreadyInstalled => 2
  | .resourceExhausted => 3
  | .noTaskSlots => 4
  | .invalidHandle => 5
  | .invalidContext => 6
  | .timedOut => 7
  | .runtime => 8
  | .incompatibleContract => 9
  | .incompatibleExecutionProfile => 10

/-- The error of a failed `sleep_ms`. -/
def sleepError (e : RuntimeError) : BackendError := ⟨.other, 0x5732e000 ||| runtimeCode e⟩

/-- `context_diagnostic_word` and `diagnostic_word`. -/
structure Diagnostics where
  context : UInt32
  port : UInt32
  deriving DecidableEq

/-- `emit_backend_failure`, less the line it logs. -/
def emitBackendFailure (d : Diagnostics) : UInt32 :=
  (0xd0000000 : UInt32) ||| ((d.context &&& 0x0fff) <<< (16 : UInt32)) ||| (d.port &&& 0xffff)

/-! ## §2 How a call ends -/

structure StationConfig where
  bssid : Bssid
  channel : UInt8
  operationTimeoutMs : UInt32
  deriving DecidableEq

/-- The places where `connect` returns. -/
inductive ConnectExit where
  | notInitialized
  /-- A `?` on a call of the native supplicant. -/
  | native (e : NativeError)
  | authorized (e : Entry)
  | failed (e : Entry) (d : Diagnostics)
  /-- The deadline, when the supplicant has reported a disconnect status. -/
  | disconnected (status : Int32) (d : Diagnostics)
  | deadline (lastEventKind : UInt8) (d : Diagnostics)
  | sleep (e : RuntimeError)
  deriving DecidableEq

def ConnectExit.result (config : StationConfig) : ConnectExit → Except BackendError ConnectionInfo
  | .notInitialized => .error Backend.notInitialized
  | .native e => .error (mapNativeError e)
  | .authorized _ => .ok ⟨config.bssid, channelToFrequency config.channel⟩
  | .failed _ d => .error ⟨.connect, emitBackendFailure d⟩
  | .disconnected _ d => .error ⟨.connect, emitBackendFailure d⟩
  | .deadline lastEventKind d =>
      .error ⟨.operationTimeout,
        (0x80000000 : UInt32) ||| ((lastEventKind.toUInt32 &&& 0x7) <<< (28 : UInt32)) |||
          ((d.context &&& 0x0fff) <<< (16 : UInt32)) ||| d.port⟩
  | .sleep e => .error (sleepError e)

/-- The places where `disconnect` returns. -/
inductive DisconnectExit where
  | notInitialized
  | native (e : NativeError)
  | disconnected (e : Entry)
  | failed (e : Entry)
  | deadline
  | sleep (e : RuntimeError)
  deriving DecidableEq

def DisconnectExit.result : DisconnectExit → Except BackendError Unit
  | .notInitialized => .error Backend.notInitialized
  | .native e => .error (mapNativeError e)
  | .disconnected _ => .ok ()
  | .failed e => .error ⟨.connect, e.event.status.toUInt32⟩
  | .deadline => .error ⟨.backendTimeout, 2⟩
  | .sleep e => .error (sleepError e)

/-- A call that has returned. -/
inductive Return where
  | connect (config : StationConfig) (mark : Nat) (exit : ConnectExit)
  | disconnect (mark : Nat) (exit : DisconnectExit)
  | poll (result : Except BackendError Bool)
  deriving DecidableEq

/-! ## §3 State and steps -/

structure ConnectLocals where
  config : StationConfig
  mark : Nat
  startedAt : UInt64
  lastEventKind : UInt8
  lastDisconnectStatus : Option Int32

structure DisconnectLocals where
  timeoutMs : UInt32
  mark : Nat
  startedAt : UInt64

/-- A control call in its loop, with its local variables. -/
inductive Task where
  | connect (l : ConnectLocals)
  | disconnect (l : DisconnectLocals)

inductive Place where
  | poll
  | next
  | deadline
  | sleep

inductive Pc where
  | idle
  /-- In `hisi_wpa_configure`. -/
  | configure (config : StationConfig)
  /-- In `hisi_wpa_connect`. -/
  | startConnect (config : StationConfig) (mark : Nat)
  /-- In the `hisi_wpa_disconnect` of `disconnect`. -/
  | startDisconnect (timeoutMs : UInt32) (mark : Nat)
  | loop (task : Task) (place : Place)
  /-- In the `hisi_wpa_disconnect` of a `connect` whose time is over. -/
  | giveUp (l : ConnectLocals) (d : Diagnostics)
  /-- In `Ws63WifiBackend::poll`. -/
  | poll

structure State where
  supplicant : Bool
  ring : List Entry
  pc : Pc
  produced : List Event
  returns : List Return

/-- The state after `initialize`, or before it. -/
def start (supplicant : Bool) : State where
  supplicant
  ring := []
  pc := .idle
  produced := []
  returns := []

/-- What a successful `NativeSupplicant::poll` returns. -/
structure PollOutput extends PollResult where
  outputPending : UInt32
  deriving DecidableEq

inductive Action where
  /-- The C context appends an event to its ring. -/
  | append (event : Event)
  | connect (config : StationConfig)
  | disconnect (timeoutMs : UInt32)
  | poll
  | configureReturns (status : Int32)
  /-- The operation has been started, and the clock has been read. -/
  | startReturns (status : Int32) (now : UInt64)
  | pollReturns (result : Except NativeSupplicantError PollOutput)
  /-- `hisi_wpa_next_event` returns `status`. -/
  | nextEvent (status : Int32) (d : Diagnostics)
  | clock (now : UInt64) (d : Diagnostics)
  /-- The `disconnect` of a `connect` whose time is over; its status is ignored. -/
  | giveUpReturns (status : Int32)
  | slept (result : Except RuntimeError Unit)

def Task.mark : Task → Nat
  | .connect l => l.mark
  | .disconnect l => l.mark

/-- The call returns with an error of the native supplicant. -/
def Task.fail (e : NativeError) : Task → Return
  | .connect l => .connect l.config l.mark (.native e)
  | .disconnect l => .disconnect l.mark (.native e)

def Task.sleepFail (e : RuntimeError) : Task → Return
  | .connect l => .connect l.config l.mark (.sleep e)
  | .disconnect l => .disconnect l.mark (.sleep e)

/-- The loop body of `connect` for one event. -/
def ConnectLocals.event (l : ConnectLocals) (e : Entry) (d : Diagnostics) :
    ConnectLocals ⊕ ConnectExit :=
  let seen := { l with lastEventKind := e.event.kind }
  match classifyNativeConnectEvent e.event.kind with
  | .progress => .inl seen
  | .authorized => .inr (.authorized e)
  | .disconnected =>
      .inl (if e.event.status ≠ 0 then { seen with lastDisconnectStatus := some e.event.status }
        else seen)
  | .failed => .inr (.failed e d)

/-- The loop body of `disconnect` for one event. -/
def DisconnectLocals.event (l : DisconnectLocals) (e : Entry) : DisconnectLocals ⊕ DisconnectExit :=
  if e.event.kind = nativeEventDisconnected then .inr (.disconnected e)
  else if e.event.kind = nativeEventFailed then .inr (.failed e)
  else .inl l

/-- The loop goes on, or the call returns. -/
def Task.event (e : Entry) (d : Diagnostics) : Task → Task ⊕ Return
  | .connect l => (l.event e d).map .connect (.connect l.config l.mark)
  | .disconnect l => (l.event e).map .disconnect (.disconnect l.mark)

/-- `monotonic_ms().wrapping_sub(started_at) >= timeout`. -/
def Task.expired (now : UInt64) : Task → Bool
  | .connect l => l.config.operationTimeoutMs.toUInt64 ≤ now - l.startedAt
  | .disconnect l => l.timeoutMs.toUInt64 ≤ now - l.startedAt

def ConnectLocals.deadlineExit (l : ConnectLocals) (d : Diagnostics) : ConnectExit :=
  match l.lastDisconnectStatus with
  | some status => .disconnected status d
  | none => .deadline l.lastEventKind d

def State.finish (s : State) (r : Return) : State :=
  { s with pc := .idle, returns := s.returns ++ [r] }

/-- `NativeSupplicant::next_event`, and the arm of the loop. -/
def State.next (abi : EventAbi) (s : State) (task : Task) (status : Int32) (d : Diagnostics) :
    Option State :=
  if status = 0 then
    if s.ring = [] then some { s with pc := .loop task .deadline } else none
  else if status = 1 then
    match s.ring with
    | [] => none
    | e :: ring =>
        let popped := { s with ring := ring }
        if abi.accepts e.event then
          match task.event e d with
          | .inl task => some { popped with pc := .loop task .next }
          | .inr r => some (popped.finish r)
        else some (popped.finish (task.fail (.poll .invalidResult)))
  else some (s.finish (task.fail (.poll (.pollFailed status))))

def step (abi : EventAbi) (s : State) : Action → Option State
  | .append event =>
      some { s with
        ring := s.ring ++ [⟨s.produced.length, event⟩], produced := s.produced ++ [event] }
  | .connect config =>
      match s.pc with
      | .idle =>
          some (if s.supplicant then { s with pc := .configure config }
            else s.finish (.connect config s.produced.length .notInitialized))
      | _ => none
  | .disconnect timeoutMs =>
      match s.pc with
      | .idle =>
          some (if s.supplicant then { s with pc := .startDisconnect timeoutMs s.produced.length }
            else s.finish (.disconnect s.produced.length .notInitialized))
      | _ => none
  | .poll =>
      match s.pc with
      | .idle => some (if s.supplicant then { s with pc := .poll } else s.finish (.poll (.ok false)))
      | _ => none
  | .configureReturns status =>
      match s.pc with
      | .configure config =>
          some (if status = 0 then { s with pc := .startConnect config s.produced.length }
            else s.finish
              (.connect config s.produced.length (.native (.configureFailed status))))
      | _ => none
  | .startReturns status now =>
      match s.pc with
      | .startConnect config mark =>
          some (if status = 0 then
              { s with pc := .loop (.connect ⟨config, mark, now, 0, none⟩) .poll }
            else s.finish (.connect config mark (.native (.connectFailed status))))
      | .startDisconnect timeoutMs mark =>
          some (if status = 0 then { s with pc := .loop (.disconnect ⟨timeoutMs, mark, now⟩) .poll }
            else s.finish (.disconnect mark (.native (.disconnectFailed status))))
      | _ => none
  | .pollReturns result =>
      match s.pc with
      | .loop task .poll =>
          match result with
          | .ok _ => some { s with pc := .loop task .next }
          | .error e => some (s.finish (task.fail (.poll e)))
      | .poll =>
          match result with
          | .ok output =>
              some (s.finish (.poll (.ok (output.workCompleted != 0 || output.outputPending != 0))))
          | .error e => some (s.finish (.poll (.error (mapNativeError (.poll e)))))
      | _ => none
  | .nextEvent status d =>
      match s.pc with
      | .loop task .next => s.next abi task status d
      | _ => none
  | .clock now d =>
      match s.pc with
      | .loop task .deadline =>
          if task.expired now then
            match task with
            | .connect l => some { s with pc := .giveUp l d }
            | .disconnect l => some (s.finish (.disconnect l.mark .deadline))
          else some { s with pc := .loop task .sleep }
      | _ => none
  | .giveUpReturns _ =>
      match s.pc with
      | .giveUp l d => some (s.finish (.connect l.config l.mark (l.deadlineExit d)))
      | _ => none
  | .slept result =>
      match s.pc with
      | .loop task .sleep =>
          match result with
          | .ok () => some { s with pc := .loop task .poll }
          | .error e => some (s.finish (task.sleepFail e))
      | _ => none

end HisiRiscv.Wifi.Backend
