/-
HisiRiscv.Crypto.Points — sum, multiple and inverse of P-256 points in `crypto_sae.rs`.

The three functions hand affine coordinates to the engine. The identity has no
coordinates: sum and inverse treat it on its own, and the engine's sum reports it
(`P256PointResult`), while the engine's multiple is an affine point or an error.

Translation notes. As in `Crypto.Bignum`, `hisi_crypto` and the engine are
parameters. `EcProvider.Correct` says that the group's encoding is that of
`coordinates` and that the engine answers every affine operand with the right
point; of a multiple without coordinates it says nothing. What is wiped
after use is left out.

  §1 `RustCryptoGroup19` and the engine.
  §2 Objects.
  §3 The functions.
-/
import HisiRiscv.Crypto.Bignum
import HisiRiscv.Crypto.P256Curve

namespace HisiRiscv.Crypto

open HisiRiscv.BigEndian

/-! ## §1 `RustCryptoGroup19` and the engine -/

/-- What the engine returns for the sum `P`. -/
def pointResult (P : P256Point) : P256PointResult :=
  match coordinates P with
  | none => .infinity
  | some point => .affine point

structure EcProvider extends Provider where
  /-- `RustCryptoGroup19`, and `GROUP_19`. -/
  Group : Type
  groupId : Group → UInt32
  group19 : UInt32
  /-- `SaeP256Point`, and the point it stands for. -/
  Point : Type
  toPoint : Point → P256Point
  identity : Group → Point
  pointIsInfinity : Group → Point → Bool
  pointToXy : Group → Point → Option (List UInt8 × List UInt8)
  pointFromXy : Group → List UInt8 → List UInt8 → Option Point
  pointAddHardware : P256AffinePoint → P256AffinePoint → Option P256PointResult
  pointMulHardware : P256AffinePoint → List UInt8 → Option P256AffinePoint
  pointInvertHardware : P256AffinePoint → Option P256AffinePoint

namespace EcProvider

structure Correct (c : EcProvider) : Prop extends c.toProvider.BignumCorrect where
  identity : ∀ g, c.toPoint (c.identity g) = 0
  pointIsInfinity : ∀ g v, c.pointIsInfinity g v = true ↔ c.toPoint v = 0
  /-- the identity is refused -/
  pointToXy : ∀ g v, c.pointToXy g v = (coordinates (c.toPoint v)).map fun p => (p.x, p.y)
  pointFromXy : ∀ g P x y, coordinates P = some ⟨x, y⟩ →
    ∃ v, c.pointFromXy g x y = some v ∧ c.toPoint v = P
  pointFromXy_eq : ∀ g x y v, c.pointFromXy g x y = some v →
    coordinates (c.toPoint v) = some ⟨x, y⟩
  pointAdd : ∀ P Q a b, coordinates P = some a → coordinates Q = some b →
    c.pointAddHardware a b = some (pointResult (P + Q))
  pointMul : ∀ P a e r, coordinates P = some a → e.length = p256ElementBytes →
    coordinates (fromBe e • P) = some r → c.pointMulHardware a e = some r
  pointInvert : ∀ P a, coordinates P = some a → c.pointInvertHardware a = coordinates (-P)

end EcProvider

/-! ## §2 Objects -/

def ecMagic : UInt32 := 0x45433139
def pointMagic : UInt32 := 0x50543139

structure EcObject (G : Type) where
  magic : UInt32
  group : G

structure PointObject (P : Type) where
  magic : UInt32
  value : P

/-- The layouts of the three object types. -/
structure Layouts where
  bignum : Layout
  ec : Layout
  point : Layout

structure Heap (c : EcProvider) where
  contexts : Objects (EcObject c.Group)
  points : Objects (PointObject c.Point)
  bignums : Objects (BignumObject c.Bignum)

namespace EcProvider

variable (c : EcProvider) (layouts : Layouts) (heap : Heap c)

def ecGroup (pointer : ℕ) : Option c.Group :=
  if aligned layouts.ec pointer then
    let object := heap.contexts pointer
    if object.magic == ecMagic && c.groupId object.group == c.group19 then some object.group
    else none
  else none

def pointClone (pointer : ℕ) : Option c.Point :=
  if aligned layouts.point pointer && (heap.points pointer).magic == pointMagic then
    some (heap.points pointer).value
  else none

def pointStore (pointer : ℕ) (value : c.Point) : Option (Objects (PointObject c.Point)) :=
  if !aligned layouts.point pointer then none
  else if (heap.points pointer).magic != pointMagic then none
  else some (Function.update heap.points pointer { heap.points pointer with value := value })

/-- The output is apart from the context, and it and the inputs are as in `bignumAliases`. -/
def pointAliases (context output : ℕ) (inputs : List ℕ) : Bool :=
  output != 0 &&
    rangesOverlap output layouts.point.size context layouts.ec.size == some false &&
    inputs.zipIdx.all fun (input, index) =>
      input != 0 && objectAliasIsValid output layouts.point.size input layouts.point.size &&
        (inputs.take index).all fun other =>
          objectAliasIsValid input layouts.point.size other layouts.point.size

/-- The status a function returns, and the points it leaves. -/
abbrev PointOutcome : Type := Int32 × Objects (PointObject c.Point)

/-- `point_store(..).map_or(-1, |()| 0)`, unless there is no value. -/
def finishPoint (result : ℕ) (value : Option c.Point) : c.PointOutcome :=
  match value.bind (c.pointStore layouts heap result) with
  | some points => (0, points)
  | none => (-1, heap.points)

/-! ## §3 The functions -/

def cryptoEcPointAdd (context a b result : ℕ) : c.PointOutcome :=
  match c.ecGroup layouts heap context with
  | none => (-1, heap.points)
  | some group =>
    if !pointAliases layouts context result [a, b] then (-1, heap.points)
    else
      match c.pointClone layouts heap a, c.pointClone layouts heap b with
      | some a, some b =>
        if c.pointIsInfinity group a then c.finishPoint layouts heap result (some b)
        else if c.pointIsInfinity group b then c.finishPoint layouts heap result (some a)
        else
          match c.pointToXy group a, c.pointToXy group b with
          | some (aX, aY), some (bX, bY) =>
            match c.pointAddHardware ⟨aX, aY⟩ ⟨bX, bY⟩ with
            | none => (-1, heap.points)
            | some .infinity => c.finishPoint layouts heap result (some (c.identity group))
            | some (.affine point) =>
              c.finishPoint layouts heap result (c.pointFromXy group point.x point.y)
          | _, _ => (-1, heap.points)
      | _, _ => (-1, heap.points)

/-- The point is not asked whether it is the identity, nor is the product. -/
def cryptoEcPointMul (context point scalar result : ℕ) : c.PointOutcome :=
  match c.ecGroup layouts heap context with
  | none => (-1, heap.points)
  | some group =>
    if !pointAliases layouts context result [point] ||
        rangesOverlap result layouts.point.size scalar layouts.bignum.size != some false ||
        rangesOverlap point layouts.point.size scalar layouts.bignum.size != some false then
      (-1, heap.points)
    else
      match c.pointClone layouts heap point, bignumClone layouts.bignum heap.bignums scalar with
      | some point, some scalar =>
        match c.pointToXy group point with
        | none => (-1, heap.points)
        | some (x, y) =>
          match c.writeBe scalar p256ElementBytes with
          | none => (-1, heap.points)
          | some scalarBytes =>
            match c.pointMulHardware ⟨x, y⟩ scalarBytes with
            | none => (-1, heap.points)
            | some output =>
              c.finishPoint layouts heap result (c.pointFromXy group output.x output.y)
      | _, _ => (-1, heap.points)

def cryptoEcPointInvert (context point : ℕ) : c.PointOutcome :=
  match c.ecGroup layouts heap context with
  | none => (-1, heap.points)
  | some group =>
    if !pointAliases layouts context point [point] then (-1, heap.points)
    else
      match c.pointClone layouts heap point with
      | none => (-1, heap.points)
      | some value =>
        if c.pointIsInfinity group value then (0, heap.points)
        else
          match c.pointToXy group value with
          | none => (-1, heap.points)
          | some (x, y) =>
            match c.pointInvertHardware ⟨x, y⟩ with
            | none => (-1, heap.points)
            | some output =>
              c.finishPoint layouts heap point (c.pointFromXy group output.x output.y)

end EcProvider

end HisiRiscv.Crypto
