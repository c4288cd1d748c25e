/-
HisiRiscv.Crypto.ObjectHeap — the life of the objects of `crypto_sae.rs`.

Numbers, points and contexts are made in blocks of `os_zalloc`, handed to hostap as
pointers, and given back through the `deinit` function of their type. A context also hands out
pointers to its four constants, which lie in its own block and are marked as borrowed. A function
knows what a pointer is from the magic behind it only. One step is one call, with the answer of the
allocator, or a write of the client to memory that is not part of an object.

Over it stands what the client may think of: a store of independent objects, in which a call
replaces one value, and a constant is that of its context (`Store`).

Translation notes. As in `Crypto.ByteObjects`, `hisi_crypto` is a parameter, and an object lies in
memory as a record. `os_zalloc` answers with null or with a zeroed block that is apart from all
others and ends before the last address; the block may be misaligned. What a `drop` wipes is left
out: a freed block is memory that the client writes to. The client calls with null, with
what it was given and has not given back, and with the constants of its contexts, whatever type
a function expects there; the bytes it hands over are part of the action. Functions that
only read objects, or write to a buffer of the client, change no object and are left out.

History variables: `handles` lists what the client was given and has not given back, `faults` the
blocks freed that were not there, and `log` what the functions returned.

  §1 `hisi_crypto`.
  §2 Records.
  §3 State.
  §4 The functions.
  §5 What the client may do.
  §6 The machine.
  §7 Independent objects.
-/
import HisiRiscv.Crypto.BignumRand
import HisiRiscv.Lib.Machine

namespace HisiRiscv.Crypto.Bytes

open HisiRiscv.ByteMemory

/-! ## §1 `hisi_crypto` -/

structure HeapAdapter extends RandomAdapter where
  init : Bignum
  initU32 : UInt32 → Bignum
  forGroup : UInt16 → Option Group
  prime : Group → Bignum
  order : Group → Bignum
  coefficientA : Group → Bignum
  coefficientB : Group → Bignum
  computeYSquared : Group → Bignum → Option Bignum
  computeYSquaredHardware : Field → Option Field

/-- Only group 19 is made, and alignments are powers of two. -/
structure HeapAdapter.Correct (c : HeapAdapter) : Prop where
  forGroup : ∀ id group, c.forGroup id = some group → c.groupId group = c.group19
  bignumAlign : ∃ k, c.bignumCodec.align = 2 ^ k
  groupAlign : ∃ k, c.groupCodec.align = 2 ^ k

/-- The constants of a context. -/
inductive Constant where
  | prime
  | order
  | coefficientA
  | coefficientB
  deriving DecidableEq

def Constant.all : List Constant := [.prime, .order, .coefficientA, .coefficientB]

def Constant.index : Constant → ℕ
  | .prime => 0
  | .order => 1
  | .coefficientA => 2
  | .coefficientB => 3

/-- Where a constant lies in its context. -/
def Constant.offset (c : Adapter) (name : Constant) : ℕ :=
  ecPrimeOffset c + name.index * (bignumLayout c).size

def HeapAdapter.constant (c : HeapAdapter) (group : c.Group) : Constant → c.Bignum
  | .prime => c.prime group
  | .order => c.order group
  | .coefficientA => c.coefficientA group
  | .coefficientB => c.coefficientB group

/-! ## §2 Records -/

section Records

variable (c : Adapter) (m : Memory) (pointer : ℕ)

def putBignum (ownership : UInt32) (value : c.Bignum) : Memory :=
  save c.bignumCodec (save Codec.word (save Codec.word m pointer bignumMagic) (pointer + 4) ownership)
    (pointer + bignumValueOffset c) value

def putPoint (value : c.Point) : Memory :=
  save c.pointCodec (save Codec.word m pointer pointMagic) (pointer + pointValueOffset c) value

def putEc (group : c.Group) (constant : Constant → c.Bignum) : Memory :=
  Constant.all.foldl
    (fun m name => putBignum c m (pointer + name.offset c) borrowed (constant name))
    (save c.groupCodec (save Codec.word m pointer ecMagic) (pointer + ecGroupOffset c) group)

def bignumIsOwned : Bool :=
  aligned (bignumLayout c) pointer && word m pointer == bignumMagic && word m (pointer + 4) == owned

end Records

/-! ## §3 State -/

/-- What a function returned. -/
inductive Return where
  | pointer (pointer : ℕ)
  | status (status : Int32)
  deriving DecidableEq

structure State where
  memory : Memory
  /-- The blocks of `os_zalloc`. -/
  blocks : List Object
  handles : List Object
  faults : List Object
  log : List Return

def State.init (memory : Memory) : State := ⟨memory, [], [], [], []⟩

/-! ## §4 The functions -/

namespace State

variable (c : HeapAdapter) (s : State)

def answer (r : Return) : State := { s with log := r :: s.log }

def osFree (x : Object) : State :=
  if x ∈ s.blocks then { s with blocks := s.blocks.erase x } else { s with faults := x :: s.faults }

/-- `allocate`, if `os_zalloc` answers with the address of `x`. -/
def allocate (x : Object) (record : Memory → Memory) : State :=
  if x.address = 0 then s.answer (.pointer 0)
  else
    let s := { s with
      memory := write s.memory x.address (List.replicate (x.layout c.toAdapter).size 0)
      blocks := x :: s.blocks }
    if aligned (x.layout c.toAdapter) x.address then
      { s with memory := record s.memory, handles := x :: s.handles }.answer (.pointer x.address)
    else (s.osFree x).answer (.pointer 0)

/-- The client gives a pointer back to the `deinit` function of a type. -/
def giveBack (x : Object) : State := { s with handles := s.handles.erase x }

def allocateBignum (block : ℕ) (value : c.Bignum) : State :=
  s.allocate c ⟨.bignum, block⟩ fun m => putBignum c.toAdapter m block owned value

def allocatePoint (block : ℕ) (value : c.Point) : State :=
  s.allocate c ⟨.point, block⟩ fun m => putPoint c.toAdapter m block value

def cryptoBignumInit (block : ℕ) : State := s.allocateBignum c block c.init

def cryptoBignumInitSet (buffer : ℕ) (bytes : List UInt8) (block : ℕ) : State :=
  if c.bignumBytes < bytes.length ∨ bytes.length ≠ 0 ∧ buffer = 0 then s.answer (.pointer 0)
  else
    match c.initSet bytes with
    | none => s.answer (.pointer 0)
    | some value => s.allocateBignum c block value

def cryptoBignumInitUint (value : UInt32) (block : ℕ) : State := s.allocateBignum c block (c.initU32 value)

def cryptoBignumDeinit (pointer : ℕ) : State :=
  (if bignumIsOwned c.toAdapter s.memory pointer then s.osFree ⟨.bignum, pointer⟩ else s).giveBack
    ⟨.bignum, pointer⟩

def cryptoEcInit (group : Int32) (block : ℕ) : State :=
  if group < 0 ∨ 65536 ≤ group then s.answer (.pointer 0)
  else
    match c.forGroup group.toUInt32.toUInt16 with
    | none => s.answer (.pointer 0)
    | some group =>
      s.allocate c ⟨.context, block⟩ fun m => putEc c.toAdapter m block group (c.constant group)

def cryptoEcDeinit (pointer : ℕ) : State :=
  (if (ecGroup c.toAdapter s.memory pointer).isSome then s.osFree ⟨.context, pointer⟩ else s).giveBack
    ⟨.context, pointer⟩

def cryptoEcPointInit (context block : ℕ) : State :=
  match ecGroup c.toAdapter s.memory context with
  | none => s.answer (.pointer 0)
  | some group => s.allocatePoint c block (c.identity group)

def cryptoEcPointDeinit (pointer : ℕ) : State :=
  (if (pointClone c.toAdapter s.memory pointer).isSome then s.osFree ⟨.point, pointer⟩ else s).giveBack
    ⟨.point, pointer⟩

def cryptoEcPointFromBin (context encoded : ℕ) (bytes : List UInt8) (block : ℕ) : State :=
  match ecGroup c.toAdapter s.memory context with
  | none => s.answer (.pointer 0)
  | some group =>
    if encoded = 0 ∨ (checkedRange encoded (p256ElementBytes * 2)).isNone ∨
        rangesOverlap encoded (p256ElementBytes * 2) context (ecLayout c.toAdapter).size ≠ some false then
      s.answer (.pointer 0)
    else
      match c.pointFromXy group (bytes.take p256ElementBytes) (bytes.drop p256ElementBytes) with
      | none => s.answer (.pointer 0)
      | some value => s.allocatePoint c block value

/-- The number that `crypto_ec_point_compute_y_sqr` makes. -/
def computeYSqrValue (group : c.Group) (x : c.Bignum) : Option c.Bignum :=
  match c.bignumToP256Field x with
  | some x => (c.computeYSquaredHardware x).bind fun output => c.initSet (c.asBeBytes output)
  | none => c.computeYSquared group x

def cryptoEcPointComputeYSqr (context x block : ℕ) : State :=
  match ecGroup c.toAdapter s.memory context, bignumClone c.toAdapter s.memory x with
  | some group, some x =>
    match computeYSqrValue c group x with
    | some value => s.allocateBignum c block value
    | none => s.answer (.pointer 0)
  | _, _ => s.answer (.pointer 0)

/-- A function of `ByteObjects` returns. -/
def settle (outcome : Outcome) : State := { s with memory := outcome.2 }.answer (.status outcome.1)

end State

/-! ## §5 What the client may do -/

/-- The pointers of a client with these handles. -/
def pointers (c : Adapter) (handles : List Object) : List ℕ :=
  0 :: handles.flatMap fun x =>
    x.address :: if x.kind = .context then Constant.all.map fun name => x.address + name.offset c else []

/-- The memory is apart from the blocks of the handles. -/
def Away (c : Adapter) (handles : List Object) (address n : ℕ) : Prop :=
  ∀ x ∈ handles, address + n ≤ x.address ∨ x.address + (x.layout c).size ≤ address

instance (c : Adapter) (handles : List Object) (address n : ℕ) : Decidable (Away c handles address n) :=
  inferInstanceAs (Decidable (∀ x ∈ handles, _))

/-- `os_zalloc` may answer with the address of `x`. -/
def Fits (c : Adapter) (handles : List Object) (x : Object) : Prop :=
  x.address = 0 ∨
    x.address + (x.layout c).size < 2 ^ 32 ∧ Away c handles x.address (x.layout c).size

instance (c : Adapter) (handles : List Object) (x : Object) : Decidable (Fits c handles x) :=
  inferInstanceAs (Decidable (_ ∨ _))

def Call.pointers (call : Call) : List ℕ :=
  (call.output :: (call.inputs ++ call.contexts)).map Object.address

inductive Action where
  | bignumInit (block : ℕ)
  | bignumInitSet (buffer : ℕ) (bytes : List UInt8) (block : ℕ)
  | bignumInitUint (value : UInt32) (block : ℕ)
  | bignumDeinit (pointer : ℕ)
  | ecInit (group : Int32) (block : ℕ)
  | ecDeinit (pointer : ℕ)
  | pointInit (context block : ℕ)
  | pointDeinit (pointer : ℕ)
  | pointFromBin (context encoded : ℕ) (bytes : List UInt8) (block : ℕ)
  | pointComputeYSqr (context x block : ℕ)
  | call (operation : Call)
  | rand (result modulus : ℕ) (entropy : Entropy)
  /-- The client writes to memory of its own. -/
  | write (address : ℕ) (bytes : List UInt8)

/-- The block that `os_zalloc` answers with. -/
def Action.block : Action → Option Object
  | .bignumInit block | .bignumInitSet _ _ block | .bignumInitUint _ block
  | .pointComputeYSqr _ _ block => some ⟨.bignum, block⟩
  | .ecInit _ block => some ⟨.context, block⟩
  | .pointInit _ block | .pointFromBin _ _ _ block => some ⟨.point, block⟩
  | .bignumDeinit _ | .ecDeinit _ | .pointDeinit _ | .call _ | .rand _ _ _ | .write _ _ => none

/-- The pointers to objects that the client calls with. -/
def Action.arguments : Action → List ℕ
  | .bignumInit _ | .bignumInitSet _ _ _ | .bignumInitUint _ _ | .ecInit _ _ | .write _ _ => []
  | .bignumDeinit pointer | .ecDeinit pointer | .pointDeinit pointer => [pointer]
  | .pointInit context _ | .pointFromBin context _ _ _ => [context]
  | .pointComputeYSqr context x _ => [context, x]
  | .call operation => operation.pointers
  | .rand result modulus _ => [result, modulus]

/-- The memory of the client that a call is given. -/
def Action.buffer : Action → ℕ × ℕ
  | .pointFromBin _ encoded _ _ => (encoded, if encoded = 0 then 0 else p256ElementBytes * 2)
  | .write address bytes => (address, bytes.length)
  | .bignumInit _ | .bignumInitSet _ _ _ | .bignumInitUint _ _ | .bignumDeinit _ | .ecInit _ _
  | .ecDeinit _ | .pointInit _ _ | .pointDeinit _ | .pointComputeYSqr _ _ _ | .call _ | .rand _ _ _ =>
    (0, 0)

/-- An action that the client and the allocator may take. -/
structure Admits (c : Adapter) (handles : List Object) (a : Action) : Prop where
  block : ∀ x ∈ a.block, Fits c handles x
  arguments : ∀ p ∈ a.arguments, p ∈ Bytes.pointers c handles
  buffer : Away c handles a.buffer.1 a.buffer.2

instance (c : Adapter) (handles : List Object) (a : Action) : Decidable (Admits c handles a) :=
  decidable_of_iff
    ((∀ x ∈ a.block, Fits c handles x) ∧ (∀ p ∈ a.arguments, p ∈ Bytes.pointers c handles) ∧
      Away c handles a.buffer.1 a.buffer.2)
    ⟨fun h => ⟨h.1, h.2.1, h.2.2⟩, fun h => ⟨h.block, h.arguments, h.buffer⟩⟩

/-! ## §6 The machine -/

def State.perform (c : HeapAdapter) (s : State) : Action → State
  | .bignumInit block => s.cryptoBignumInit c block
  | .bignumInitSet buffer bytes block => s.cryptoBignumInitSet c buffer bytes block
  | .bignumInitUint value block => s.cryptoBignumInitUint c value block
  | .bignumDeinit pointer => s.cryptoBignumDeinit c pointer
  | .ecInit group block => s.cryptoEcInit c group block
  | .ecDeinit pointer => s.cryptoEcDeinit c pointer
  | .pointInit context block => s.cryptoEcPointInit c context block
  | .pointDeinit pointer => s.cryptoEcPointDeinit c pointer
  | .pointFromBin context encoded bytes block => s.cryptoEcPointFromBin c context encoded bytes block
  | .pointComputeYSqr context x block => s.cryptoEcPointComputeYSqr c context x block
  | .call operation => s.settle (Bytes.perform c.toAdapter s.memory operation)
  | .rand result modulus entropy => s.settle (c.cryptoBignumRand entropy s.memory result modulus)
  | .write address bytes => { s with memory := ByteMemory.write s.memory address bytes }

def State.step (c : HeapAdapter) (s : State) (a : Action) : Option State :=
  if Admits c.toAdapter s.handles a then some (s.perform c a) else none

/-! ## §7 Independent objects -/

/-- What an object is. -/
inductive Content (c : Adapter) where
  | number (value : c.Bignum)
  | point (value : c.Point)
  | group (group : c.Group)

def Content.kind {c : Adapter} : Content c → Kind
  | .number _ => .bignum
  | .point _ => .point
  | .group _ => .context

structure Entry (c : Adapter) where
  address : ℕ
  content : Content c

def Entry.object {c : Adapter} (e : Entry c) : Object := ⟨e.content.kind, e.address⟩

/-- The objects of a client, by address. -/
structure Store (c : Adapter) where
  entries : List (Entry c)
  log : List Return

namespace Store

variable {c : HeapAdapter} (a : Store c.toAdapter)

def empty : Store c.toAdapter := ⟨[], []⟩

def handles : List Object := a.entries.map Entry.object

/-- The number that an entry has at `p`: its own, or a constant of it. -/
def numberAt (e : Entry c.toAdapter) (p : ℕ) : Option c.Bignum :=
  match e.content with
  | .number value => if e.address = p then some value else none
  | .point _ => none
  | .group group =>
    Constant.all.findSome? fun name =>
      if e.address + name.offset c.toAdapter = p then some (c.constant group name) else none

def pointAt (e : Entry c.toAdapter) (p : ℕ) : Option c.Point :=
  match e.content with
  | .point value => if e.address = p then some value else none
  | .number _ | .group _ => none

def groupAt (e : Entry c.toAdapter) (p : ℕ) : Option c.Group :=
  match e.content with
  | .group group => if e.address = p then some group else none
  | .number _ | .point _ => none

def number (p : ℕ) : Option c.Bignum := a.entries.findSome? fun e => numberAt e p

def point (p : ℕ) : Option c.Point := a.entries.findSome? fun e => pointAt e p

def group (p : ℕ) : Option c.Group := a.entries.findSome? fun e => groupAt e p

def answer (r : Return) : Store c.toAdapter := { a with log := r :: a.log }

/-- A new object, unless there is no room for it. -/
def add (block : ℕ) (content : Option (Content c.toAdapter)) : Store c.toAdapter :=
  match content with
  | none => a.answer (.pointer 0)
  | some content =>
    let e : Entry c.toAdapter := ⟨block, content⟩
    if aligned (e.object.layout c.toAdapter) block then
      { a with entries := e :: a.entries }.answer (.pointer block)
    else a.answer (.pointer 0)

def remove (x : Object) : Store c.toAdapter :=
  { a with entries := a.entries.eraseP fun e => e.object = x }

/-- Only the value of `x` changes. -/
def set (x : Object) (content : Content c.toAdapter) : Store c.toAdapter :=
  { a with entries := a.entries.map fun e => if e.object = x then { e with content } else e }

/-- The result of a call is stored, if there is one and it has a place. -/
def finish (result : ℕ) (content : Option (Content c.toAdapter)) : Store c.toAdapter :=
  match content with
  | none => a.answer (.status (-1))
  | some content =>
    if ⟨content.kind, result⟩ ∈ a.handles then (a.set ⟨content.kind, result⟩ content).answer (.status 0)
    else a.answer (.status (-1))

/-- What a call computes. -/
def operation : Call → Option (Content c.toAdapter)
  | .add x y _ => do return .number (← c.add (← a.number x) (← a.number y))
  | .sub x y _ => do return .number (← c.sub (← a.number x) (← a.number y))
  | .div x y _ => do return .number (← c.div (← a.number x) (← a.number y))
  | .mod x y _ => do return .number (← c.modulo (← a.number x) (← a.number y))
  | .inverse value modulus _ => do
    return .number (← c.inverseValue (← a.number value) (← a.number modulus))
  | .sqrmod value modulus _ => do
    return .number (← c.sqrmodValue (← a.number value) (← a.number modulus))
  | .addmod x y modulus _ => do
    return .number (← c.addMod (← a.number x) (← a.number y) (← a.number modulus))
  | .exptmod base exponent modulus _ => do
    return .number (← c.exptmodValue (← a.number base) (← a.number exponent) (← a.number modulus))
  | .mulmod x y modulus _ => do
    return .number (← c.mulmodValue (← a.number x) (← a.number y) (← a.number modulus))
  | .rshift value bits _ =>
    if bits < 0 then none else do return .number (c.rshift (← a.number value) bits.toUInt32)
  | .pointAdd context x y _ => do
    return .point (← pointAddValue c.toAdapter (← a.group context) (← a.point x) (← a.point y))
  | .pointMul context point scalar _ => do
    return .point (← pointMulValue c.toAdapter (← a.group context) (← a.point point) (← a.number scalar))
  | .pointInvert context point => do
    return .point (← pointInverse c.toAdapter (← a.group context) (← a.point point))

/-- What a call means. -/
def perform : Action → Store c.toAdapter
  | .bignumInit block => a.add block (some (.number c.init))
  | .bignumInitSet buffer bytes block =>
    a.add block
      (if c.bignumBytes < bytes.length ∨ bytes.length ≠ 0 ∧ buffer = 0 then none
      else (c.initSet bytes).map .number)
  | .bignumInitUint value block => a.add block (some (.number (c.initU32 value)))
  | .bignumDeinit pointer => a.remove ⟨.bignum, pointer⟩
  | .ecInit group block =>
    a.add block
      (if group < 0 ∨ 65536 ≤ group then none else (c.forGroup group.toUInt32.toUInt16).map .group)
  | .ecDeinit pointer => a.remove ⟨.context, pointer⟩
  | .pointInit context block => a.add block ((a.group context).map fun group => .point (c.identity group))
  | .pointDeinit pointer => a.remove ⟨.point, pointer⟩
  | .pointFromBin context encoded bytes block =>
    a.add block
      (if encoded = 0 ∨ 2 ^ 32 ≤ encoded + p256ElementBytes * 2 then none
      else do
        return .point (← c.pointFromXy (← a.group context) (bytes.take p256ElementBytes)
          (bytes.drop p256ElementBytes)))
  | .pointComputeYSqr context x block =>
    a.add block do return .number (← State.computeYSqrValue c (← a.group context) (← a.number x))
  | .call operation => a.finish operation.output.address (a.operation operation)
  | .rand result modulus entropy =>
    a.finish result do return .number (← c.number (← a.number modulus) entropy)
  | .write _ _ => a

def step (a : Store c.toAdapter) (action : Action) : Option (Store c.toAdapter) :=
  if Admits c.toAdapter a.handles action then some (a.perform action) else none

end Store

end HisiRiscv.Crypto.Bytes
