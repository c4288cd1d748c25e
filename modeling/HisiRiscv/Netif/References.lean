/-
HisiRiscv.Netif.References — packet buffers between the driver and the stack.

A buffer of `pbuf_alloc` is freed by the `pbuf_free` that drops its last reference. `transmit` puts a
frame in a buffer of its own and lends it to the driver, which takes a reference if it
keeps the buffer; `driverif_input` takes over a reference of the driver. Calls run in
tasks and are interrupted between any two steps; the updates of the count are critical
sections.

Translation notes. The driver is outside the repository. It may allocate and free buffers, take
references, change payload and bytes and pass buffers up whenever it has a reference or runs in
`drv_send` on a buffer, and it drops no reference that it does not have. `drv_send` is the
address of a function, 0 for none. `osal_kmalloc` answers with null or with an address that is not
in use, at which the bytes are arbitrary. `rx_push` is that of `Netif.Bridge`; here its argument is
recorded. As in `Netif.Pbuf`, null is 0.

History variables: `faults` lists the accesses to buffers that are not there, `sent` the calls of
`drv_send`, and `received` those of `rx_push`.

  §1 State.
  §2 Critical sections.
  §3 Calls.
  §4 The machine.
-/
import Mathlib.Algebra.Group.Nat.Defs
import Mathlib.Logic.Function.Basic
import HisiRiscv.Lib.Machine
import HisiRiscv.Netif.Bridge
import HisiRiscv.Netif.Pbuf

namespace HisiRiscv.Netif.References

/-! ## §1 State -/

def ethPadSize : ℕ := 2

inductive TxError where
  | noInterface
  | noDriver
  | invalidLength
  | noMemory
  deriving DecidableEq

inductive Call where
  /-- `transmit`, called by `vendor_tx_sink` or not. -/
  | transmit (frame : List UInt8) (sink : Bool)
  | driverifInput (p : ℤ)
  | pbufFree (p : ℤ)
  deriving DecidableEq

inductive Return where
  | transmitted (result : Except TxError Unit)
  | accepted
  | freed (n : UInt8)
  deriving DecidableEq

/-- Where a call is. -/
inductive Pc where
  /-- Before `REGISTERED_NETIF` is loaded. -/
  | load
  /-- Before `drv_send` is read. -/
  | driver (netif : ℤ)
  | alloc (netif send : ℤ)
  | copy (netif send p : ℤ)
  | call (netif send p : ℤ)
  /-- In `drv_send`. -/
  | sending (p : ℤ)
  | countFailed (error : TxError)
  /-- Before payload and length are read. -/
  | read (p : ℤ)
  | push (p payload : ℤ) (len : ℕ)
  | countReceived (p : ℤ)
  | countDropped (p : ℤ)
  /-- Before the critical section of `pbuf_free`. -/
  | free (p : ℤ)
  | kfree (p : ℤ)
  | done (r : Return)
  deriving DecidableEq

structure Task where
  call : Call
  pc : Pc
  deriving DecidableEq

structure Buffer where
  pbuf : Pbuf
  /-- The bytes after the header. -/
  area : List UInt8
  deriving DecidableEq

/-- A call of `drv_send`, and what the packet was. -/
structure Sent where
  task : ℕ
  netif : ℤ
  send : ℤ
  frame : List UInt8
  deriving DecidableEq

structure State where
  buffers : ℤ → Option Buffer
  registeredNetif : ℤ
  /-- `drv_send` of the interfaces of the driver. -/
  driverSend : ℤ → ℤ
  tasks : List Task
  /-- The references of the driver. -/
  driver : ℤ → ℕ
  txFailed : UInt32
  rxReceived : UInt32
  rxDropped : UInt32
  faults : List ℤ
  sent : List Sent
  received : List (List UInt8)

def init : State :=
  ⟨fun _ => none, 0, fun _ => 0, [], fun _ => 0, 0, 0, 0, [], [], []⟩

/-- A call has a reference. -/
def Pc.holds (p : ℤ) : Pc → Bool
  | .copy _ _ q | .call _ _ q | .sending q | .read q | .push q _ _ | .countReceived q | .countDropped q
  | .free q => q == p
  | .load | .driver _ | .alloc _ _ | .countFailed _ | .kfree _ | .done _ => false

/-- The references to a buffer. -/
def State.holders (s : State) (p : ℤ) : ℕ := s.driver p + s.tasks.countP fun t => t.pc.holds p

/-- The driver may use the buffer: it has a reference, or was lent one by `transmit`. -/
def State.Access (s : State) (p : ℤ) : Prop := 0 < s.driver p ∨ ∃ t ∈ s.tasks, t.pc = .sending p

instance (s : State) (p : ℤ) : Decidable (s.Access p) := inferInstanceAs (Decidable (_ ∨ _))

/-! ## §2 Critical sections -/

namespace Buffer

variable (p : ℤ) (b : Buffer)

/-- Where an address lies in the area. -/
def offset (address : ℤ) : ℕ := (address - (p + pbufHdr)).toNat

def bytes (address : ℤ) (len : ℕ) : List UInt8 := (b.area.drop (offset p address)).take len

def packet : List UInt8 := b.bytes p b.pbuf.payload b.pbuf.len.toNat

/-- `copy_nonoverlapping` to an address of the area. -/
def overwrite (address : ℤ) (bytes : List UInt8) : Buffer :=
  { b with
    area := b.area.take (offset p address) ++ bytes ++ b.area.drop (offset p address + bytes.length) }

end Buffer

namespace State

variable (s : State)

def fault (p : ℤ) : State := { s with faults := p :: s.faults }

def goto (i : ℕ) (t : Task) (pc : Pc) : State := { s with tasks := s.tasks.set i { t with pc } }

def put (p : ℤ) (b : Option Buffer) : State := { s with buffers := Function.update s.buffers p b }

def spawn (call : Call) (pc : Pc) : State := { s with tasks := s.tasks ++ [⟨call, pc⟩] }

/-- A change of a buffer that has to be there. -/
def access (p : ℤ) (f : Buffer → Buffer) : State :=
  match s.buffers p with
  | none => s.fault p
  | some b => s.put p (some (f b))

/-- `pbuf_alloc`, if `osal_kmalloc` answers with an address. -/
def pbufAlloc (length : UInt16) (address : ℤ) (area : List UInt8) : Option (ℤ × State) :=
  (Netif.pbufAlloc (fun _ => address) length).map fun (p, pbuf) => (p, s.put p (some ⟨pbuf, area⟩))

def pbufRef (p : ℤ) : State :=
  if p = 0 then s
  else s.access p fun b => { b with pbuf := { b.pbuf with refCount := b.pbuf.refCount + 1 } }

/-! ## §3 Calls -/

/-- What a call returns when its `pbuf_free` returns `n`. -/
def result (n : UInt8) : Call → Return
  | .transmit _ _ => .transmitted (.ok ())
  | .driverifInput _ => .accepted
  | .pbufFree _ => .freed n

/-- `transmit` fails. -/
def failed (sink : Bool) (error : TxError) : Pc :=
  if sink then .countFailed error else .done (.transmitted (.error error))

/-- The next step of a call, but for its allocation. -/
def advance (i : ℕ) (t : Task) : Option State :=
  match t.call, t.pc with
  | .transmit frame sink, .load =>
    if frame = [] ∨ 65535 < frame.length then some (s.goto i t (failed sink .invalidLength))
    else if s.registeredNetif = 0 then some (s.goto i t (failed sink .noInterface))
    else some (s.goto i t (.driver s.registeredNetif))
  | .transmit _ sink, .driver netif =>
    if s.driverSend netif = 0 then some (s.goto i t (failed sink .noDriver))
    else some (s.goto i t (.alloc netif (s.driverSend netif)))
  | .transmit frame _, .copy netif send p =>
    some ((s.access p fun b => b.overwrite p b.pbuf.payload frame).goto i t (.call netif send p))
  | .transmit _ _, .call netif send p =>
    match s.buffers p with
    | none => some ((s.fault p).goto i t (.sending p))
    | some b => some ({ s with sent := ⟨i, netif, send, b.packet p⟩ :: s.sent }.goto i t (.sending p))
  | .transmit _ _, .sending p => some (s.goto i t (.free p))
  | .transmit _ _, .countFailed error =>
    some ({ s with txFailed := s.txFailed + 1 }.goto i t (.done (.transmitted (.error error))))
  | .driverifInput _, .read p =>
    match s.buffers p with
    | none => some ((s.fault p).goto i t (.free p))
    | some b =>
      let len := b.pbuf.len.toNat
      if b.pbuf.payload ≠ 0 ∧ ethPadSize < len ∧ len - ethPadSize ≤ mtu then
        some (s.goto i t (.push p (b.pbuf.payload + ethPadSize) (len - ethPadSize)))
      else some (s.goto i t (.countDropped p))
  | .driverifInput _, .push p payload len =>
    match s.buffers p with
    | none => some ((s.fault p).goto i t (.countReceived p))
    | some b =>
      some ({ s with received := b.bytes p payload len :: s.received }.goto i t (.countReceived p))
  | .driverifInput _, .countReceived p =>
    some ({ s with rxReceived := s.rxReceived + 1 }.goto i t (.free p))
  | .driverifInput _, .countDropped p => some ({ s with rxDropped := s.rxDropped + 1 }.goto i t (.free p))
  | call, .free p =>
    match s.buffers p with
    | none => some ((s.fault p).goto i t (.done (result 0 call)))
    | some b =>
      if 1 < b.pbuf.refCount then
        some ((s.put p (some { b with pbuf := { b.pbuf with refCount := b.pbuf.refCount - 1 } })).goto i t
          (.done (result 0 call)))
      else
        some ((s.put p (some { b with pbuf := { b.pbuf with refCount := 0 } })).goto i t (.kfree p))
  | call, .kfree p =>
    match s.buffers p with
    | none => some ((s.fault p).goto i t (.done (result 1 call)))
    | some _ => some ((s.put p none).goto i t (.done (result 1 call)))
  | _, _ => none

/-- `osal_kmalloc` answers a `transmit`. -/
def allocated (i : ℕ) (t : Task) (address : ℤ) (area : List UInt8) : Option State :=
  match t.call, t.pc with
  | .transmit frame sink, .alloc netif send =>
    match s.pbufAlloc (UInt16.ofNat frame.length) address area with
    | none => some (s.goto i t (failed sink .noMemory))
    | some (p, s) => some (s.goto i t (.copy netif send p))
  | _, _ => none

/-- The driver passes a reference on. -/
def surrender (p : ℤ) : State := { s with driver := Function.update s.driver p (s.driver p - 1) }

def obtain (p : ℤ) : State := { s with driver := Function.update s.driver p (s.driver p + 1) }

end State

/-! ## §4 The machine -/

inductive Action where
  | transmit (frame : List UInt8) (sink : Bool)
  | run (i : ℕ)
  /-- `osal_kmalloc` returns to call `i`. -/
  | kmalloc (i : ℕ) (address : ℤ) (area : List UInt8)
  /-- The driver calls. -/
  | alloc (length : UInt16) (address : ℤ) (area : List UInt8)
  | ref (p : ℤ)
  | free (p : ℤ)
  | input (p : ℤ)
  | header (p : ℤ) (headerSize : Int16)
  /-- The driver moves the packet within its area. -/
  | place (p payload : ℤ) (len totLen : UInt16)
  | store (p : ℤ) (offset : ℕ) (byte : UInt8)
  | netifAdd (netif : ℤ)
  | netifRemove (netif : ℤ)
  | install (netif send : ℤ)

/-- `osal_kmalloc` may answer with the address. -/
def State.Fresh (s : State) (length : UInt16) (address : ℤ) (area : List UInt8) : Prop :=
  s.buffers address = none ∧ area.length = pbufTotal length - pbufHdr

instance (s : State) (length : UInt16) (address : ℤ) (area : List UInt8) :
    Decidable (s.Fresh length address area) :=
  inferInstanceAs (Decidable (_ ∧ _))

/-- The packet lies in the area of the buffer. -/
def State.Inside (s : State) (p payload : ℤ) (len : UInt16) : Prop :=
  ∃ b ∈ s.buffers p, p + pbufHdr ≤ payload ∧ payload + len.toNat ≤ p + pbufHdr + b.area.length

instance (s : State) (p payload : ℤ) (len : UInt16) : Decidable (s.Inside p payload len) :=
  match h : s.buffers p with
  | none => isFalse fun ⟨b, hb, _⟩ => by
    rw [h] at hb
    cases hb
  | some b =>
    decidable_of_iff (p + pbufHdr ≤ payload ∧ payload + len.toNat ≤ p + pbufHdr + b.area.length)
      ⟨fun hin => ⟨b, h, hin⟩, fun ⟨b', hb, hin⟩ => by
        rw [h] at hb
        cases hb
        exact hin⟩

/-- The driver writes to a buffer. -/
def State.write (s : State) (p : ℤ) (f : Buffer → Buffer) : Option State :=
  if s.Access p then some (s.access p f) else none

def step (s : State) : Action → Option State
  | .transmit frame sink => some (s.spawn (.transmit frame sink) .load)
  | .run i => (s.tasks[i]?).bind (s.advance i)
  | .kmalloc i address area =>
    match s.tasks[i]? with
    | some ⟨.transmit frame sink, pc⟩ =>
      if s.Fresh (UInt16.ofNat frame.length) address area then
        s.allocated i ⟨.transmit frame sink, pc⟩ address area
      else none
    | _ => none
  | .alloc length address area =>
    if s.Fresh length address area then
      match s.pbufAlloc length address area with
      | none => some s
      | some (p, s) => some (s.obtain p)
    else none
  | .ref p => if p = 0 then some s else if s.Access p then some ((s.pbufRef p).obtain p) else none
  | .free p =>
    if p = 0 then some (s.spawn (.pbufFree p) (.done (.freed 0)))
    else if 0 < s.driver p then some ((s.surrender p).spawn (.pbufFree p) (.free p))
    else none
  | .input p =>
    if p = 0 then some (s.spawn (.driverifInput p) (.done .accepted))
    else if 0 < s.driver p then some ((s.surrender p).spawn (.driverifInput p) (.read p))
    else none
  | .header p headerSize => s.write p fun b => { b with pbuf := (pbufHeader p b.pbuf headerSize).2 }
  | .place p payload len totLen =>
    if s.Inside p payload len then
      s.write p fun b => { b with pbuf := { b.pbuf with payload, len, totLen } }
    else none
  | .store p offset byte => s.write p fun b => { b with area := b.area.set offset byte }
  | .netifAdd netif => some { s with registeredNetif := netif }
  | .netifRemove netif =>
    some (if s.registeredNetif = netif then { s with registeredNetif := 0 } else s)
  | .install netif send => some { s with driverSend := Function.update s.driverSend netif send }

/-- The count does not overflow. -/
def InRange (s : State) (a : Action) : Prop := ∀ p, a = .ref p → s.holders p < 2 ^ 31 - 1

instance (s : State) (a : Action) : Decidable (InRange s a) :=
  match a with
  | .ref p => decidable_of_iff (s.holders p < 2 ^ 31 - 1) ⟨fun h _ hq => by cases hq; exact h, fun h => h p rfl⟩
  | .transmit _ _ | .run _ | .kmalloc _ _ _ | .alloc _ _ _ | .free _ | .input _ | .header _ _ | .place _ _ _ _
  | .store _ _ _ | .netifAdd _ | .netifRemove _ | .install _ _ => isTrue nofun

end HisiRiscv.Netif.References
