/-
HisiRiscv.Crypto.P256Curve — the group of P-256, and its points as coordinates.

The group is Mathlib's, of the curve `y² = x³ - 3x + b` over the prime field.
`coordinates` writes a point down as the adapter and the engine exchange it, two
strings of 32 bytes; the identity has none. `decodePoint` reads the pair back, if
it is reduced and on the curve (`decodePoint_eq_some`).
-/
import Mathlib.AlgebraicGeometry.EllipticCurve.Affine.Point
import Mathlib.Tactic.LinearCombination
import HisiRiscv.Crypto.P256Field

namespace HisiRiscv.Crypto

open HisiRiscv.BigEndian

/-! ## §1 The curve -/

def p256B : ℕ := 0x5ac635d8aa3a93e7b3ebbd55769886bc651d06b0cc53b0f63bce3c3e27d2604b

def p256 : WeierstrassCurve.Affine (ZMod p256Prime) where
  a₁ := 0
  a₂ := 0
  a₃ := 0
  a₄ := -3
  a₆ := p256B

abbrev P256Point : Type := p256.Point

theorem p256_Δ_ne_zero : p256.Δ ≠ 0 := by
  have hΔ : p256.Δ = (1728 : ℕ) - (432 * p256B ^ 2 : ℕ) := by
    simp only [WeierstrassCurve.Δ, WeierstrassCurve.b₂, WeierstrassCurve.b₄, WeierstrassCurve.b₆,
      WeierstrassCurve.b₈, p256]
    push_cast
    ring
  rw [hΔ, sub_ne_zero, Ne, ZMod.natCast_eq_natCast_iff']
  decide +kernel

theorem p256_nonsingular_iff (x y : ZMod p256Prime) :
    p256.Nonsingular x y ↔ y ^ 2 = x ^ 3 - 3 * x + p256B := by
  rw [← p256.equation_iff_nonsingular_of_Δ_ne_zero p256_Δ_ne_zero,
    WeierstrassCurve.Affine.equation_iff]
  simp only [p256]
  ring_nf

/-! ## §2 Coordinates -/

structure P256AffinePoint where
  x : List UInt8
  y : List UInt8

/-- What the engine returns for a sum. -/
inductive P256PointResult where
  | infinity
  | affine (point : P256AffinePoint)

def coordinates : P256Point → Option P256AffinePoint
  | .zero => none
  | .some x y _ => some ⟨toBe p256ElementBytes x.val, toBe p256ElementBytes y.val⟩

def decodePoint (point : P256AffinePoint) : Option P256Point :=
  if h : point.x.length = p256ElementBytes ∧ point.y.length = p256ElementBytes ∧
      fromBe point.x < p256Prime ∧ fromBe point.y < p256Prime ∧
      (fromBe point.y : ZMod p256Prime) ^ 2 =
        (fromBe point.x : ZMod p256Prime) ^ 3 - 3 * fromBe point.x + p256B then
    some (.some _ _ ((p256_nonsingular_iff _ _).mpr h.2.2.2.2))
  else none

@[simp] theorem coordinates_zero : coordinates 0 = none := rfl

theorem coordinates_eq_none {P : P256Point} : coordinates P = none ↔ P = 0 := by
  cases P with
  | zero => exact ⟨fun _ => rfl, fun _ => rfl⟩
  | some x y h => simp [coordinates, WeierstrassCurve.Affine.Point.some_ne_zero h]

theorem zmod_val_lt (x : ZMod p256Prime) : x.val < 256 ^ p256ElementBytes :=
  (ZMod.val_lt x).trans (by decide +kernel)

/-- `decodePoint` is the inverse of `coordinates`. -/
theorem decodePoint_eq_some {point : P256AffinePoint} {P : P256Point} :
    decodePoint point = some P ↔ coordinates P = some point := by
  constructor
  · intro h
    obtain ⟨⟨hxlen, hylen, hx, hy, _⟩, hP⟩ := Option.dite_none_right_eq_some.mp h
    rw [← Option.some.inj hP, coordinates, ZMod.val_natCast_of_lt hx, ZMod.val_natCast_of_lt hy]
    conv_lhs => rw [← hxlen, toBe_fromBe, hxlen, ← hylen, toBe_fromBe]
  · intro h
    cases P with
    | zero => cases h
    | some x y hxy =>
      obtain rfl := Option.some.inj h
      have hx := fromBe_toBe p256ElementBytes (zmod_val_lt x)
      have hy := fromBe_toBe p256ElementBytes (zmod_val_lt y)
      have hcurve := (p256_nonsingular_iff x y).mp hxy
      simp only [decodePoint, hx, hy, ZMod.natCast_zmod_val, length_toBe, ZMod.val_lt, hcurve,
        and_self, dite_true]

/-! ## §3 The base point -/

def generatorX : ℕ := 0x6b17d1f2e12c4247f8bce6e563a440f277037d812deb33a0f4a13945d898c296

def generatorY : ℕ := 0x4fe342e2fe1a7f9b8ee7eb4a7c0f9e162bce33576b315ececbb6406837bf51f5

theorem generator_nonsingular : p256.Nonsingular generatorX generatorY := by
  have hmod : ((generatorY ^ 2 + 3 * generatorX : ℕ) : ZMod p256Prime) =
      (generatorX ^ 3 + p256B : ℕ) := by
    rw [ZMod.natCast_eq_natCast_iff']
    decide +kernel
  push_cast at hmod
  rw [p256_nonsingular_iff]
  linear_combination hmod

def generator : P256Point := .some generatorX generatorY generator_nonsingular

end HisiRiscv.Crypto
