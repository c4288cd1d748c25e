/-
HisiRiscv.Crypto.Bignum — the big-number functions of `crypto_sae.rs`.

hostap hands over pointers to opaque objects. Inverse, square, power and
product modulo a number, and the Legendre symbol, are computed by the
P-256 engine if the modulus is the P-256 prime and the operands are reduced,
and by `RustCryptoBignum` otherwise. The engine has no inverse and no
symbol; both are powers with a fixed exponent there.

Translation notes. `hisi_crypto` and the engine are not part of the
repository; `Provider` holds their functions, `none` being any error, and
`Provider.Correct` what the adapter relies on. A pointer is an address, null
is 0, and an object is what lies at its address: a store changes the object
at one address, which the alias checks justify for the arguments of one
call. What is wiped after use is left out.

  §1 `hisi_crypto` and the engine.
  §2 Objects.
  §3 Dispatch.
  §4 The functions.
-/
import Mathlib.Logic.Function.Basic
import HisiRiscv.Crypto.P256Field

namespace HisiRiscv.Crypto

open HisiRiscv.BigEndian

/-! ## §1 `hisi_crypto` and the engine -/

inductive LegendreSymbol where
  | nonResidue
  | zero
  | residue
  deriving DecidableEq

def LegendreSymbol.toInt : LegendreSymbol → ℤ
  | .nonResidue => -1
  | .zero => 0
  | .residue => 1

structure Provider where
  /-- `SaeBignum`, and the number it stands for. -/
  Bignum : Type
  toNat : Bignum → ℕ
  /-- `write_be`, padded to the given width. -/
  writeBe : Bignum → ℕ → Option (List UInt8)
  initSet : List UInt8 → Option Bignum
  inverse : Bignum → Bignum → Option Bignum
  squareMod : Bignum → Bignum → Option Bignum
  expMod : Bignum → Bignum → Bignum → Option Bignum
  mulMod : Bignum → Bignum → Bignum → Option Bignum
  legendre : Bignum → Bignum → Option LegendreSymbol
  /-- `P256FieldElement`, and the number it stands for. -/
  Field : Type
  fieldVal : Field → ℕ
  fieldZero : Field
  /-- `field_value == P256FieldElement::ZERO`. -/
  fieldIsZero : Field → Bool
  tryFromBeBytes : List UInt8 → Option Field
  asBeBytes : Field → List UInt8
  /-- `p256_field_pow_hardware` and its like. -/
  fieldPowHardware : Field → List UInt8 → Option Field
  fieldSquareHardware : Field → Option Field
  fieldMulHardware : Field → Field → Option Field

namespace Provider

/-- `RustCryptoBignum` computes what it says, and refuses only what does not exist. -/
structure BignumCorrect (c : Provider) : Prop where
  /-- a number is written iff it fits the width -/
  writeBe : ∀ v, (c.writeBe v p256ElementBytes).isSome ↔ c.toNat v < 256 ^ p256ElementBytes
  writeBe_eq : ∀ v bytes, c.writeBe v p256ElementBytes = some bytes →
    bytes.length = p256ElementBytes ∧ fromBe bytes = c.toNat v
  initSet : ∀ bytes, bytes.length = p256ElementBytes →
    ∃ v, c.initSet bytes = some v ∧ c.toNat v = fromBe bytes
  inverse : ∀ v m r, 0 < c.toNat m → Nat.Coprime (c.toNat v) (c.toNat m) → c.inverse v m = some r →
    c.toNat r < c.toNat m ∧ c.toNat r * c.toNat v % c.toNat m = 1 % c.toNat m
  squareMod : ∀ v m r, 0 < c.toNat m → c.squareMod v m = some r →
    c.toNat r = c.toNat v ^ 2 % c.toNat m
  expMod : ∀ b e m r, 0 < c.toNat m → c.expMod b e m = some r →
    c.toNat r = c.toNat b ^ c.toNat e % c.toNat m
  mulMod : ∀ a b m r, 0 < c.toNat m → c.mulMod a b m = some r →
    c.toNat r = c.toNat a * c.toNat b % c.toNat m
  legendre : ∀ v q s, (hq : Fact (c.toNat q).Prime) → c.toNat q ≠ 2 → c.legendre v q = some s →
    s.toInt = legendreSym (c.toNat q) (c.toNat v)
  /-- modulo the P-256 prime everything but the inverse of 0 exists -/
  inverse_isSome : ∀ v m, c.toNat m = p256Prime →
    ((c.inverse v m).isSome ↔ c.toNat v % p256Prime ≠ 0)
  squareMod_isSome : ∀ v m, c.toNat m = p256Prime → (c.squareMod v m).isSome
  expMod_isSome : ∀ b e m, c.toNat m = p256Prime → (c.expMod b e m).isSome
  mulMod_isSome : ∀ a b m, c.toNat m = p256Prime → (c.mulMod a b m).isSome
  legendre_isSome : ∀ v q, c.toNat q = p256Prime → (c.legendre v q).isSome

/-- Field elements are the numbers below the prime, and the engine computes exactly
or reports an error. -/
structure EngineCorrect (c : Provider) : Prop where
  fieldVal_lt : ∀ x, c.fieldVal x < p256Prime
  fieldIsZero : ∀ x, c.fieldIsZero x = true ↔ c.fieldVal x = 0
  tryFromBeBytes : ∀ bytes, bytes.length = p256ElementBytes →
    ((c.tryFromBeBytes bytes).isSome ↔ fromBe bytes < p256Prime)
  tryFromBeBytes_eq : ∀ bytes x, c.tryFromBeBytes bytes = some x → c.fieldVal x = fromBe bytes
  asBeBytes : ∀ x, (c.asBeBytes x).length = p256ElementBytes ∧ fromBe (c.asBeBytes x) = c.fieldVal x
  fieldPow : ∀ x e y, c.fieldPowHardware x e = some y →
    c.fieldVal y = c.fieldVal x ^ fromBe e % p256Prime
  fieldSquare : ∀ x y, c.fieldSquareHardware x = some y →
    c.fieldVal y = c.fieldVal x ^ 2 % p256Prime
  fieldMul : ∀ a b y, c.fieldMulHardware a b = some y →
    c.fieldVal y = c.fieldVal a * c.fieldVal b % p256Prime

structure Correct (c : Provider) : Prop extends BignumCorrect c, EngineCorrect c

end Provider

/-! ## §2 Objects -/

def bignumMagic : UInt32 := 0x424e3634
def owned : UInt32 := 1
def borrowed : UInt32 := 0

structure BignumObject (B : Type) where
  magic : UInt32
  ownership : UInt32
  value : B

/-- `size_of` and `align_of` of an object type. -/
structure Layout where
  size : ℕ
  align : ℕ

/-- The objects of one type, by address. -/
abbrev Objects (α : Type) : Type := ℕ → α

/-- `checked_range`; an address is 32 bits wide. -/
def checkedRange (address length : ℕ) : Option (ℕ × ℕ) :=
  if address + length < 2 ^ 32 then some (address, address + length) else none

def rangesOverlap (a aLen b bLen : ℕ) : Option Bool :=
  match checkedRange a aLen, checkedRange b bLen with
  | some (aStart, aEnd), some (bStart, bEnd) => some (aStart < bEnd && bStart < aEnd)
  | _, _ => none

def objectAliasIsValid (a aLen b bLen : ℕ) : Bool :=
  a == b || rangesOverlap a aLen b bLen == some false

def aligned (layout : Layout) (pointer : ℕ) : Bool := pointer != 0 && pointer % layout.align == 0

section Objects

variable {B : Type} (layout : Layout) (objects : Objects (BignumObject B))

def bignumClone (pointer : ℕ) : Option B :=
  if aligned layout pointer && (objects pointer).magic == bignumMagic then
    some (objects pointer).value
  else none

def bignumStore (pointer : ℕ) (value : B) : Option (Objects (BignumObject B)) :=
  if !aligned layout pointer then none
  else if (objects pointer).magic != bignumMagic || (objects pointer).ownership != owned then none
  else some (Function.update objects pointer { objects pointer with value := value })

/-- The output is one of the inputs or apart from them, and so is each input from
the ones before it. -/
def bignumAliases (output : ℕ) (inputs : List ℕ) : Bool :=
  output != 0 &&
    inputs.zipIdx.all fun (input, index) =>
      input != 0 && objectAliasIsValid output layout.size input layout.size &&
        (inputs.take index).all fun other => objectAliasIsValid input layout.size other layout.size

/-- The status a function returns, and the objects it leaves. -/
abbrev Outcome (B : Type) : Type := Int32 × Objects (BignumObject B)

/-- `bignum_store(..).map_or(-1, |()| 0)`, unless there is no value. -/
def finishCall (result : ℕ) (value : Option B) : Outcome B :=
  match value.bind (bignumStore layout objects result) with
  | some objects' => (0, objects')
  | none => (-1, objects)

/-- The frame of the functions of two numbers. -/
def bignumBinary (a b result : ℕ) (operation : B → B → Option B) : Outcome B :=
  if !bignumAliases layout result [a, b] then (-1, objects)
  else
    match bignumClone layout objects a, bignumClone layout objects b with
    | some a, some b => finishCall layout objects result (operation a b)
    | _, _ => (-1, objects)

/-- The frame of the functions of three numbers. -/
def bignumTernary (a b modulus result : ℕ) (operation : B → B → B → Option B) : Outcome B :=
  if !bignumAliases layout result [a, b, modulus] then (-1, objects)
  else
    match bignumClone layout objects a, bignumClone layout objects b,
        bignumClone layout objects modulus with
    | some a, some b, some modulus => finishCall layout objects result (operation a b modulus)
    | _, _, _ => (-1, objects)

end Objects

/-! ## §3 Dispatch -/

namespace Provider

variable (c : Provider)

def bignumIsP256Prime (value : c.Bignum) : Bool :=
  c.writeBe value p256ElementBytes == some p256FieldPrime

def bignumToP256Field (value : c.Bignum) : Option c.Field :=
  (c.writeBe value p256ElementBytes).bind c.tryFromBeBytes

def p256FieldToBignum (value : c.Field) : Option c.Bignum := c.initSet (c.asBeBytes value)

def bignumToP256Exponent (value : c.Bignum) : Option (List UInt8) :=
  c.writeBe value p256ElementBytes

def p256LegendreResult (value : c.Field) : Option LegendreSymbol :=
  let bytes := c.asBeBytes value
  if bytes.all (· = 0) then some .zero
  else if bytes = p256FieldOne then some .residue
  else if bytes = p256FieldMinusOne then some .nonResidue
  else none

/-- The value that `crypto_bignum_inverse` stores. -/
def inverseValue (value modulus : c.Bignum) : Option c.Bignum :=
  if c.bignumIsP256Prime modulus then
    match c.bignumToP256Field value with
    | some fieldValue =>
        if c.fieldIsZero fieldValue then none
        else (c.fieldPowHardware fieldValue p256InverseExponent).bind c.p256FieldToBignum
    | none => c.inverse value modulus
  else c.inverse value modulus

def sqrmodValue (value modulus : c.Bignum) : Option c.Bignum :=
  if c.bignumIsP256Prime modulus then
    match c.bignumToP256Field value with
    | some fieldValue => (c.fieldSquareHardware fieldValue).bind c.p256FieldToBignum
    | none => c.squareMod value modulus
  else c.squareMod value modulus

def exptmodValue (base exponent modulus : c.Bignum) : Option c.Bignum :=
  if c.bignumIsP256Prime modulus then
    match c.bignumToP256Field base, c.bignumToP256Exponent exponent with
    | some fieldBase, some exponent =>
        (c.fieldPowHardware fieldBase exponent).bind c.p256FieldToBignum
    | _, _ => c.expMod base exponent modulus
  else c.expMod base exponent modulus

def mulmodValue (a b modulus : c.Bignum) : Option c.Bignum :=
  if c.bignumIsP256Prime modulus then
    match c.bignumToP256Field a, c.bignumToP256Field b with
    | some a, some b => (c.fieldMulHardware a b).bind c.p256FieldToBignum
    | _, _ => c.mulMod a b modulus
  else c.mulMod a b modulus

def legendreValue (value prime : c.Bignum) : Option LegendreSymbol :=
  if c.bignumIsP256Prime prime then
    match c.bignumToP256Field value with
    | some fieldValue =>
        (c.fieldPowHardware fieldValue p256LegendreExponent).bind c.p256LegendreResult
    | none => c.legendre value prime
  else c.legendre value prime

/-! ## §4 The functions -/

variable (layout : Layout) (objects : Objects (BignumObject c.Bignum))

def cryptoBignumInverse (value modulus result : ℕ) : Outcome c.Bignum :=
  bignumBinary layout objects value modulus result c.inverseValue

def cryptoBignumSqrmod (value modulus result : ℕ) : Outcome c.Bignum :=
  bignumBinary layout objects value modulus result c.sqrmodValue

def cryptoBignumExptmod (base exponent modulus result : ℕ) : Outcome c.Bignum :=
  bignumTernary layout objects base exponent modulus result c.exptmodValue

def cryptoBignumMulmod (a b modulus result : ℕ) : Outcome c.Bignum :=
  bignumTernary layout objects a b modulus result c.mulmodValue

/-- -2 is the error; the three symbols are -1, 0 and 1. -/
def cryptoBignumLegendre (value prime : ℕ) : Int32 :=
  if !objectAliasIsValid value layout.size prime layout.size then -2
  else
    match bignumClone layout objects value, bignumClone layout objects prime with
    | some value, some prime =>
        match c.legendreValue value prime with
        | some .nonResidue => -1
        | some .zero => 0
        | some .residue => 1
        | none => -2
    | _, _ => -2

end Provider

end HisiRiscv.Crypto
