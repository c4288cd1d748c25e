/-
HisiRiscv.Crypto.ByteObjects — the objects of `crypto_sae.rs` as bytes of one memory.

`Crypto.Bignum` and `Crypto.Points` keep the objects of each type by address, so that objects
cannot overlap. Here an address is only an address: numbers, points and contexts are read from the
bytes that lie there, whatever else these bytes belong to, and a store writes the bytes of a value.

Translation notes. The fields of a `#[repr(C)]` record follow each other, each at the next
multiple of its alignment. How the values of `hisi_crypto` lie in memory is a parameter, like
what its functions compute (`Adapter`). Memory goes on past 2³², where no object of the chip
lies; the range checks see the overflow. What is wiped after use is left out, and a function that gives
up does so before it stores, so that all ways to give up are one `none`.

  §1 `hisi_crypto` in memory.
  §2 Records.
  §3 What is stored.
  §4 The functions.
  §5 Calls and their arguments.
  §6 The law.
-/
import HisiRiscv.Lib.ByteMemory
import HisiRiscv.Crypto.Points

namespace HisiRiscv.Crypto.Bytes

open HisiRiscv.ByteMemory

/-! ## §1 `hisi_crypto` in memory -/

structure Adapter extends EcProvider where
  add : Bignum → Bignum → Option Bignum
  sub : Bignum → Bignum → Option Bignum
  div : Bignum → Bignum → Option Bignum
  modulo : Bignum → Bignum → Option Bignum
  addMod : Bignum → Bignum → Bignum → Option Bignum
  rshift : Bignum → UInt32 → Bignum
  bignumCodec : Codec Bignum
  groupCodec : Codec Group
  pointCodec : Codec Point

variable (c : Adapter)

/-! ## §2 Records -/

/-- `value` of `BignumObject`, after `magic` and `ownership`. -/
def bignumValueOffset : ℕ := roundUp 8 c.bignumCodec.align

def bignumLayout : Layout where
  size := roundUp (bignumValueOffset c + c.bignumCodec.size) (max 4 c.bignumCodec.align)
  align := max 4 c.bignumCodec.align

/-- `value` of `PointObject`, after `magic`. -/
def pointValueOffset : ℕ := roundUp 4 c.pointCodec.align

def pointLayout : Layout where
  size := roundUp (pointValueOffset c + c.pointCodec.size) (max 4 c.pointCodec.align)
  align := max 4 c.pointCodec.align

/-- `group` of `EcObject`, after `magic`. -/
def ecGroupOffset : ℕ := roundUp 4 c.groupCodec.align

/-- `prime` of `EcObject`; the other three constants follow. -/
def ecPrimeOffset : ℕ := roundUp (ecGroupOffset c + c.groupCodec.size) (bignumLayout c).align

def ecAlign : ℕ := max (max 4 c.groupCodec.align) (bignumLayout c).align

def ecLayout : Layout where
  size := roundUp (ecPrimeOffset c + 4 * (bignumLayout c).size) (ecAlign c)
  align := ecAlign c

def layouts : Layouts := ⟨bignumLayout c, ecLayout c, pointLayout c⟩

section Records

variable (m : Memory) (pointer : ℕ)

def bignumValue : c.Bignum := load c.bignumCodec m (pointer + bignumValueOffset c)

def pointValue : c.Point := load c.pointCodec m (pointer + pointValueOffset c)

def groupValue : c.Group := load c.groupCodec m (pointer + ecGroupOffset c)

def bignumClone : Option c.Bignum :=
  if aligned (bignumLayout c) pointer && word m pointer == bignumMagic then some (bignumValue c m pointer)
  else none

def bignumStore (value : c.Bignum) : Option Memory :=
  if !aligned (bignumLayout c) pointer then none
  else if word m pointer != bignumMagic || word m (pointer + 4) != owned then none
  else some (save c.bignumCodec m (pointer + bignumValueOffset c) value)

def ecGroup : Option c.Group :=
  if aligned (ecLayout c) pointer then
    if word m pointer == ecMagic && c.groupId (groupValue c m pointer) == c.group19 then
      some (groupValue c m pointer)
    else none
  else none

def pointClone : Option c.Point :=
  if aligned (pointLayout c) pointer && word m pointer == pointMagic then some (pointValue c m pointer)
  else none

def pointStore (value : c.Point) : Option Memory :=
  if !aligned (pointLayout c) pointer then none
  else if word m pointer != pointMagic then none
  else some (save c.pointCodec m (pointer + pointValueOffset c) value)

end Records

/-! ## §3 What is stored -/

section Values

variable (group : c.Group)

/-- The sum that `crypto_ec_point_add` stores. -/
def pointAddValue (a b : c.Point) : Option c.Point :=
  if c.pointIsInfinity group a then some b
  else if c.pointIsInfinity group b then some a
  else
    match c.pointToXy group a, c.pointToXy group b with
    | some (aX, aY), some (bX, bY) =>
      match c.pointAddHardware ⟨aX, aY⟩ ⟨bX, bY⟩ with
      | none => none
      | some .infinity => some (c.identity group)
      | some (.affine point) => c.pointFromXy group point.x point.y
    | _, _ => none

/-- The multiple that `crypto_ec_point_mul` stores. -/
def pointMulValue (point : c.Point) (scalar : c.Bignum) : Option c.Point :=
  match c.pointToXy group point with
  | none => none
  | some (x, y) =>
    match c.writeBe scalar p256ElementBytes with
    | none => none
    | some scalarBytes =>
      match c.pointMulHardware ⟨x, y⟩ scalarBytes with
      | none => none
      | some output => c.pointFromXy group output.x output.y

/-- The inverse that `crypto_ec_point_invert` stores, of a point that is not the identity. -/
def pointInvertValue (value : c.Point) : Option c.Point :=
  match c.pointToXy group value with
  | none => none
  | some (x, y) =>
    match c.pointInvertHardware ⟨x, y⟩ with
    | none => none
    | some output => c.pointFromXy group output.x output.y

end Values

/-! ## §4 The functions -/

section Functions

variable (m : Memory)

/-- The status a function returns, and the memory it leaves. -/
abbrev Outcome : Type := Int32 × Memory

/-- `bignum_store(..).map_or(-1, |()| 0)`, unless there is no value. -/
def finishBignum (result : ℕ) (value : Option c.Bignum) : Outcome :=
  match value.bind (bignumStore c m result) with
  | some m' => (0, m')
  | none => (-1, m)

/-- `point_store(..).map_or(-1, |()| 0)`, unless there is no value. -/
def finishPoint (result : ℕ) (value : Option c.Point) : Outcome :=
  match value.bind (pointStore c m result) with
  | some m' => (0, m')
  | none => (-1, m)

def bignumBinary (a b result : ℕ) (operation : c.Bignum → c.Bignum → Option c.Bignum) : Outcome :=
  if !bignumAliases (bignumLayout c) result [a, b] then (-1, m)
  else
    match bignumClone c m a, bignumClone c m b with
    | some a, some b => finishBignum c m result (operation a b)
    | _, _ => (-1, m)

def bignumTernary (a b modulus result : ℕ)
    (operation : c.Bignum → c.Bignum → c.Bignum → Option c.Bignum) : Outcome :=
  if !bignumAliases (bignumLayout c) result [a, b, modulus] then (-1, m)
  else
    match bignumClone c m a, bignumClone c m b, bignumClone c m modulus with
    | some a, some b, some modulus => finishBignum c m result (operation a b modulus)
    | _, _, _ => (-1, m)

def cryptoBignumAdd (a b result : ℕ) : Outcome := bignumBinary c m a b result c.add

def cryptoBignumSub (a b result : ℕ) : Outcome := bignumBinary c m a b result c.sub

def cryptoBignumDiv (a b result : ℕ) : Outcome := bignumBinary c m a b result c.div

def cryptoBignumMod (a b result : ℕ) : Outcome := bignumBinary c m a b result c.modulo

def cryptoBignumInverse (value modulus result : ℕ) : Outcome :=
  bignumBinary c m value modulus result c.inverseValue

def cryptoBignumSqrmod (value modulus result : ℕ) : Outcome :=
  bignumBinary c m value modulus result c.sqrmodValue

def cryptoBignumAddmod (a b modulus result : ℕ) : Outcome :=
  bignumTernary c m a b modulus result c.addMod

def cryptoBignumExptmod (base exponent modulus result : ℕ) : Outcome :=
  bignumTernary c m base exponent modulus result c.exptmodValue

def cryptoBignumMulmod (a b modulus result : ℕ) : Outcome :=
  bignumTernary c m a b modulus result c.mulmodValue

def cryptoBignumRshift (value : ℕ) (bits : Int32) (result : ℕ) : Outcome :=
  if bits < 0 || !bignumAliases (bignumLayout c) result [value] then (-1, m)
  else
    match bignumClone c m value with
    | some value => finishBignum c m result (some (c.rshift value bits.toUInt32))
    | none => (-1, m)

def cryptoEcPointAdd (context a b result : ℕ) : Outcome :=
  match ecGroup c m context with
  | none => (-1, m)
  | some group =>
    if !EcProvider.pointAliases (layouts c) context result [a, b] then (-1, m)
    else
      match pointClone c m a, pointClone c m b with
      | some a, some b => finishPoint c m result (pointAddValue c group a b)
      | _, _ => (-1, m)

def cryptoEcPointMul (context point scalar result : ℕ) : Outcome :=
  match ecGroup c m context with
  | none => (-1, m)
  | some group =>
    if !EcProvider.pointAliases (layouts c) context result [point] ||
        rangesOverlap result (pointLayout c).size scalar (bignumLayout c).size != some false ||
        rangesOverlap point (pointLayout c).size scalar (bignumLayout c).size != some false then
      (-1, m)
    else
      match pointClone c m point, bignumClone c m scalar with
      | some point, some scalar => finishPoint c m result (pointMulValue c group point scalar)
      | _, _ => (-1, m)

def cryptoEcPointInvert (context point : ℕ) : Outcome :=
  match ecGroup c m context with
  | none => (-1, m)
  | some group =>
    if !EcProvider.pointAliases (layouts c) context point [point] then (-1, m)
    else
      match pointClone c m point with
      | none => (-1, m)
      | some value =>
        if c.pointIsInfinity group value then (0, m)
        else finishPoint c m point (pointInvertValue c group value)

end Functions

/-! ## §5 Calls and their arguments -/

inductive Call where
  | add (a b result : ℕ)
  | sub (a b result : ℕ)
  | div (a b result : ℕ)
  | mod (a b result : ℕ)
  | inverse (value modulus result : ℕ)
  | sqrmod (value modulus result : ℕ)
  | addmod (a b modulus result : ℕ)
  | exptmod (base exponent modulus result : ℕ)
  | mulmod (a b modulus result : ℕ)
  | rshift (value : ℕ) (bits : Int32) (result : ℕ)
  | pointAdd (context a b result : ℕ)
  | pointMul (context point scalar result : ℕ)
  | pointInvert (context point : ℕ)

def perform (m : Memory) : Call → Outcome
  | .add a b result => cryptoBignumAdd c m a b result
  | .sub a b result => cryptoBignumSub c m a b result
  | .div a b result => cryptoBignumDiv c m a b result
  | .mod a b result => cryptoBignumMod c m a b result
  | .inverse value modulus result => cryptoBignumInverse c m value modulus result
  | .sqrmod value modulus result => cryptoBignumSqrmod c m value modulus result
  | .addmod a b modulus result => cryptoBignumAddmod c m a b modulus result
  | .exptmod base exponent modulus result => cryptoBignumExptmod c m base exponent modulus result
  | .mulmod a b modulus result => cryptoBignumMulmod c m a b modulus result
  | .rshift value bits result => cryptoBignumRshift c m value bits result
  | .pointAdd context a b result => cryptoEcPointAdd c m context a b result
  | .pointMul context point scalar result => cryptoEcPointMul c m context point scalar result
  | .pointInvert context point => cryptoEcPointInvert c m context point

inductive Kind where
  | bignum
  | point
  | context
  deriving DecidableEq

/-- An object that a call is given. -/
structure Object where
  kind : Kind
  address : ℕ
  deriving DecidableEq

def Object.layout (x : Object) : Layout :=
  match x.kind with
  | .bignum => bignumLayout c
  | .point => pointLayout c
  | .context => ecLayout c

/-- The object is aligned and has its magic, and a context has its group. -/
def Object.Valid (m : Memory) (x : Object) : Prop :=
  aligned (x.layout c) x.address = true ∧
    match x.kind with
    | .bignum => word m x.address = bignumMagic
    | .point => word m x.address = pointMagic
    | .context => word m x.address = ecMagic ∧ c.groupId (groupValue c m x.address) = c.group19

/-- Two objects that share bytes. -/
def Object.Overlaps (x y : Object) : Prop :=
  x ≠ y ∧ x.address < y.address + (y.layout c).size ∧ y.address < x.address + (x.layout c).size

/-- Where the value of an object starts and ends. -/
def Object.valueStart (x : Object) : ℕ :=
  match x.kind with
  | .bignum => x.address + bignumValueOffset c
  | .point => x.address + pointValueOffset c
  | .context => x.address + ecGroupOffset c

def Object.valueStop (x : Object) : ℕ :=
  match x.kind with
  | .bignum => x.valueStart c + c.bignumCodec.size
  | .point => x.valueStart c + c.pointCodec.size
  | .context => x.valueStart c + c.groupCodec.size

def Call.output : Call → Object
  | .add _ _ result | .sub _ _ result | .div _ _ result | .mod _ _ result
  | .inverse _ _ result | .sqrmod _ _ result | .addmod _ _ _ result
  | .exptmod _ _ _ result | .mulmod _ _ _ result | .rshift _ _ result => ⟨.bignum, result⟩
  | .pointAdd _ _ _ result | .pointMul _ _ _ result => ⟨.point, result⟩
  | .pointInvert _ point => ⟨.point, point⟩

/-- The numbers and points that a call reads. -/
def Call.inputs : Call → List Object
  | .add a b _ | .sub a b _ | .div a b _ | .mod a b _ | .inverse a b _ | .sqrmod a b _ =>
    [⟨.bignum, a⟩, ⟨.bignum, b⟩]
  | .addmod a b modulus _ | .exptmod a b modulus _ | .mulmod a b modulus _ =>
    [⟨.bignum, a⟩, ⟨.bignum, b⟩, ⟨.bignum, modulus⟩]
  | .rshift value _ _ => [⟨.bignum, value⟩]
  | .pointAdd _ a b _ => [⟨.point, a⟩, ⟨.point, b⟩]
  | .pointMul _ point scalar _ => [⟨.point, point⟩, ⟨.bignum, scalar⟩]
  | .pointInvert _ point => [⟨.point, point⟩]

/-- The group that a call reads. -/
def Call.contexts : Call → List Object
  | .pointAdd context _ _ _ | .pointMul context _ _ _ | .pointInvert context _ => [⟨.context, context⟩]
  | _ => []

/-- What becomes of a point that is inverted. -/
def pointInverse (group : c.Group) (value : c.Point) : Option c.Point :=
  if c.pointIsInfinity group value then some value else pointInvertValue c group value

/-- The value of an object that a call writes. -/
inductive Value where
  | bignum (value : c.Bignum)
  | point (value : c.Point)

def Call.newValue (m : Memory) (call : Call) : Value c :=
  match call.output.kind with
  | .bignum => .bignum (bignumValue c m call.output.address)
  | _ => .point (pointValue c m call.output.address)

/-- The operation of a call, applied to the values that its inputs have in `m`. -/
def Call.operation (m : Memory) : Call → Option (Value c)
  | .add a b _ => (c.add (bignumValue c m a) (bignumValue c m b)).map .bignum
  | .sub a b _ => (c.sub (bignumValue c m a) (bignumValue c m b)).map .bignum
  | .div a b _ => (c.div (bignumValue c m a) (bignumValue c m b)).map .bignum
  | .mod a b _ => (c.modulo (bignumValue c m a) (bignumValue c m b)).map .bignum
  | .inverse value modulus _ =>
    (c.inverseValue (bignumValue c m value) (bignumValue c m modulus)).map .bignum
  | .sqrmod value modulus _ =>
    (c.sqrmodValue (bignumValue c m value) (bignumValue c m modulus)).map .bignum
  | .addmod a b modulus _ =>
    (c.addMod (bignumValue c m a) (bignumValue c m b) (bignumValue c m modulus)).map .bignum
  | .exptmod base exponent modulus _ =>
    (c.exptmodValue (bignumValue c m base) (bignumValue c m exponent) (bignumValue c m modulus)).map
      .bignum
  | .mulmod a b modulus _ =>
    (c.mulmodValue (bignumValue c m a) (bignumValue c m b) (bignumValue c m modulus)).map .bignum
  | .rshift value bits _ => some (.bignum (c.rshift (bignumValue c m value) bits.toUInt32))
  | .pointAdd context a b _ =>
    (pointAddValue c (groupValue c m context) (pointValue c m a) (pointValue c m b)).map .point
  | .pointMul context point scalar _ =>
    (pointMulValue c (groupValue c m context) (pointValue c m point) (bignumValue c m scalar)).map .point
  | .pointInvert context point =>
    (pointInverse c (groupValue c m context) (pointValue c m point)).map .point

/-! ## §6 The law -/

/-- A call stores what its operation gives for the values before it and changes no other byte, or
changes nothing; and it stores only where its objects are what they have to be. -/
structure Atomic (m : Memory) (call : Call) (outcome : Outcome) : Prop where
  status : outcome.1 = 0 ∨ outcome.1 = -1
  failed : outcome.1 = -1 → outcome.2 = m
  stored : outcome.1 = 0 → call.operation c m = some (call.newValue c outcome.2)
  frame : outcome.1 = 0 → ∀ address, address < call.output.valueStart c ∨
    call.output.valueStop c ≤ address → outcome.2 address = m address
  valid : outcome.1 = 0 → ∀ x ∈ call.output :: (call.inputs ++ call.contexts), x.Valid c m
  owned : outcome.1 = 0 → call.output.kind = .bignum → word m (call.output.address + 4) = Crypto.owned

/-- Calls with arguments that overlap in part are refused, all pairs of arguments included. -/
def AliasSafe (m : Memory) (call : Call) : Prop :=
  Atomic c m call (perform c m call) ∧
    ∀ x ∈ call.output :: (call.inputs ++ call.contexts),
      ∀ y ∈ call.output :: (call.inputs ++ call.contexts),
        x.Overlaps c y → (perform c m call).1 = -1

/-- The pairs of arguments that a call compares: not an input with the context, which it only
reads and whose constants are inputs of other calls. -/
def Compared (call : Call) (x y : Object) : Prop :=
  x ∈ call.output :: call.inputs ∧ y ∈ call.output :: call.inputs ∨
    x = call.output ∧ y ∈ call.contexts

end HisiRiscv.Crypto.Bytes
