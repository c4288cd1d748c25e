/-
HisiRiscv.Supplicant.Port — the installation of the port in
`upstream_supplicant.rs`.

`prepare_upstream_supplicant_port` registers the OS hooks and the driver
hooks, once for the lifetime of the firmware. `PORT_STATE` says how far
that has got, and is also the only lock on `DRIVER_CONTEXT`: the call that
takes it from FREE to INSTALLING writes the interface name, and the calls
that find READY compare theirs with it. Any number of calls run; one step
is one operation on `PORT_STATE`, one access to `DRIVER_CONTEXT` or one
call out of the crate.

Translation notes. `RUNNER_WAKE.try_init` and the three functions of the C
boundary are not part of the repository: their answers are arbitrary, and
the error type of the first is a parameter. The hook tables are constants
and are left out.

History variables: a call keeps the answers it was given, and whether it
came when the port was READY.

  §1 The driver context.
  §2 The calls.
  §3 The machine.
-/
import HisiRiscv.Lib.ByteBuffer
import HisiRiscv.Lib.Machine

namespace HisiRiscv.Supplicant.Port

open HisiRiscv.Machine

/-! ## §1 The driver context -/

def portFree : UInt8 := 0
def portInstalling : UInt8 := 1
def portReady : UInt8 := 2
def portPoisoned : UInt8 := 3

def ifnameCapacity : Nat := 17

structure DriverContext where
  ifname : Vector UInt8 ifnameCapacity
  sendActionCookie : UInt64
  deriving DecidableEq

def DriverContext.new : DriverContext := ⟨Vector.replicate ifnameCapacity 0, 0⟩

/-- What `initialize` writes, unless it refuses the name. -/
def DriverContext.initialize (ifname : List UInt8) : Option DriverContext :=
  if ifname.isEmpty ∨ ifnameCapacity ≤ ifname.length ∨ ifname.contains 0 then none
  else some ⟨ByteBuffer.copyAt (Vector.replicate ifnameCapacity 0) 0 ifname, 0⟩

def DriverContext.matches (ctx : DriverContext) (ifname : List UInt8) : Bool :=
  (ctx.ifname.toList.findIdx? (· == 0)).any fun len => ctx.ifname.toList.take len == ifname

/-! ## §2 The calls -/

inductive UpstreamSupplicantPortError (ε : Type) where
  | runtime (e : ε)
  | invalidInterfaceName
  | busy
  | poisoned
  | interfaceConflict
  | abi (code : Int32)
  | rollback (install rollback : Int32)
  deriving DecidableEq

/-- The result of a call. -/
abbrev Outcome (ε : Type) := Except (UpstreamSupplicantPortError ε) Unit

/-- The answers a call was given, as far as it has asked. -/
structure Answers (ε : Type) where
  tryInit : Option (Except ε Unit)
  osInstall : Option Int32
  driverInstall : Option Int32
  osUninstall : Option Int32
  deriving DecidableEq

def Answers.none {ε : Type} : Answers ε := ⟨.none, .none, .none, .none⟩

/-- The program counter of a call, before the operation it is named after. -/
inductive Pc (ε : Type) where
  | tryInit
  | load
  /-- READY was loaded. -/
  | compareName
  /-- FREE was loaded. -/
  | compareExchange
  | initContext
  /-- The name was refused; before the store of FREE. -/
  | refuse
  | osInstall
  /-- The OS hooks were refused; before the store of FREE. -/
  | abandon (code : Int32)
  | driverInstall
  /-- Before the store of READY. -/
  | publish
  | osUninstall (install : Int32)
  /-- The OS hooks are gone; before the store of FREE. -/
  | restore (install : Int32)
  /-- Before the store of POISONED. -/
  | poison (install rollback : Int32)
  | returned (result : Outcome ε)
  deriving DecidableEq

/-- A call of `prepare_upstream_supplicant_port`. -/
structure Call (ε : Type) where
  ifname : List UInt8
  /-- The port was READY when the call began, or when it loaded the state. -/
  late : Bool
  answers : Answers ε
  pc : Pc ε
  deriving DecidableEq

/-- The call has taken the port from FREE and not published the next state. -/
def Pc.exclusive {ε : Type} : Pc ε → Bool
  | initContext | refuse | osInstall | abandon _ | driverInstall | publish | osUninstall _ | restore _
  | poison _ _ => true
  | tryInit | load | compareName | compareExchange | returned _ => false

/-! ## §3 The machine -/

structure State (ε : Type) where
  port : UInt8
  context : DriverContext
  calls : List (Call ε)
  deriving DecidableEq

def init {ε : Type} : State ε where
  port := portFree
  context := .new
  calls := []

inductive Action (ε : Type) where
  | prepareUpstreamSupplicantPort (ifname : List UInt8)
  /-- `try_init` answers call number `k`. -/
  | tryInit (k : Nat) (result : Except ε Unit)
  /-- The C function that call number `k` has called returns. -/
  | answer (k : Nat) (code : Int32)
  /-- Any other step of call number `k`. -/
  | step (k : Nat)
  deriving DecidableEq

namespace State

variable {ε : Type}

/-- Call number `k` goes on at `pc`. -/
def goto (s : State ε) (k : Nat) (c : Call ε) (pc : Pc ε) : State ε :=
  { s with calls := s.calls.set k { c with pc } }

/-- What follows the load of `PORT_STATE`. -/
def afterLoad (port : UInt8) : Pc ε :=
  if port = portReady then .compareName
  else if port = portInstalling then .returned (.error .busy)
  else if port = portPoisoned then .returned (.error .poisoned)
  else if port = portFree then .compareExchange
  else .returned (.error .poisoned)

/-- The result of a call that has loaded READY. -/
def comparison (ctx : DriverContext) (ifname : List UInt8) : Outcome ε :=
  if ctx.matches ifname then .ok () else .error .interfaceConflict

/-- A step of call number `k` that nobody answers. -/
def stepCall (s : State ε) (k : Nat) (c : Call ε) : Option (State ε) :=
  match c.pc with
  | .load =>
      some (s.goto k { c with late := c.late || s.port == portReady } (afterLoad s.port))
  | .compareName => some (s.goto k c (.returned (comparison s.context c.ifname)))
  | .compareExchange =>
      if s.port = portFree then some ({ s with port := portInstalling }.goto k c .initContext)
      else some (s.goto k c (.returned (.error .busy)))
  | .initContext =>
      match DriverContext.initialize c.ifname with
      | none => some (s.goto k c .refuse)
      | some context => some ({ s with context }.goto k c .osInstall)
  | .refuse =>
      some ({ s with port := portFree }.goto k c (.returned (.error .invalidInterfaceName)))
  | .abandon code => some ({ s with port := portFree }.goto k c (.returned (.error (.abi code))))
  | .publish => some ({ s with port := portReady }.goto k c (.returned (.ok ())))
  | .restore install =>
      some ({ s with port := portFree }.goto k c (.returned (.error (.abi install))))
  | .poison install rollback =>
      some ({ s with port := portPoisoned }.goto k c (.returned (.error (.rollback install rollback))))
  | .tryInit | .osInstall | .driverInstall | .osUninstall _ | .returned _ => none

def stepTryInit (s : State ε) (k : Nat) (c : Call ε) (result : Except ε Unit) : Option (State ε) :=
  match c.pc with
  | .tryInit =>
      some (s.goto k { c with answers := { c.answers with tryInit := some result } }
        (match result with
          | .ok () => .load
          | .error e => .returned (.error (.runtime e))))
  | .load | .compareName | .compareExchange | .initContext | .refuse | .osInstall | .abandon _
  | .driverInstall | .publish | .osUninstall _ | .restore _ | .poison _ _ | .returned _ => none

def stepAnswer (s : State ε) (k : Nat) (c : Call ε) (code : Int32) : Option (State ε) :=
  match c.pc with
  | .osInstall =>
      some (s.goto k { c with answers := { c.answers with osInstall := some code } }
        (if code ≠ 0 then .abandon code else .driverInstall))
  | .driverInstall =>
      some (s.goto k { c with answers := { c.answers with driverInstall := some code } }
        (if code = 0 then .publish else .osUninstall code))
  | .osUninstall install =>
      some (s.goto k { c with answers := { c.answers with osUninstall := some code } }
        (if code = 0 then .restore install else .poison install code))
  | .tryInit | .load | .compareName | .compareExchange | .initContext | .refuse | .abandon _ | .publish
  | .restore _ | .poison _ _ | .returned _ => none

end State

variable {ε : Type}

def step (s : State ε) : Action ε → Option (State ε)
  | .prepareUpstreamSupplicantPort ifname =>
      some { s with calls := s.calls ++ [⟨ifname, s.port == portReady, .none, .tryInit⟩] }
  | .tryInit k result => s.calls[k]?.bind fun c => s.stepTryInit k c result
  | .answer k code => s.calls[k]?.bind fun c => s.stepAnswer k c code
  | .step k => s.calls[k]?.bind fun c => s.stepCall k c

end HisiRiscv.Supplicant.Port
