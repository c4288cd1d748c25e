/-
HisiRiscv.Crypto.P256Field — the P-256 prime and the constants of `crypto_sae.rs`.

The prime is proved by a chain of Lucas tests, from primes small enough for trial
division up to the factors of `p - 1`. The two exponents are the ones that
invert and that give the Legendre symbol, digit by digit.
-/
import Mathlib.Tactic.NormNum.Prime
import HisiRiscv.Lib.BigEndian
import HisiRiscv.Lib.PrimeField

namespace HisiRiscv.Crypto

open HisiRiscv.BigEndian HisiRiscv.PrimeField

/-! ## §1 The prime -/

/-- The number that `P256_FIELD_PRIME` encodes. -/
def p256Prime : ℕ := 2 ^ 256 - 2 ^ 224 + 2 ^ 192 + 2 ^ 96 - 1

/-- The small primes below. -/
def smallPrimes : List ℕ :=
  [2, 3, 5, 7, 11, 17, 23, 53, 107, 173, 197, 257, 641, 1531, 2411, 3677, 3769, 18169, 65537, 78283,
    490463, 704251, 6700417]

def p256Certificate : Certificate where
  prime := p256Prime
  generator := 6
  factors := [2, 3, 5, 5, 17, 257, 641, 1531, 65537, 490463, 6700417,
    835945042244614951780389953367877943453916927241]

/-- From the factors of `p256Prime - 1` down to small primes. -/
def p256Chain : List Certificate :=
  [⟨204061199, 11, [2, 11, 23, 107, 3769]⟩,
    ⟨34282281433, 17, [2, 2, 2, 3, 7, 204061199]⟩,
    ⟨66417393611, 6, [2, 5, 53, 173, 197, 3677]⟩,
    ⟨11290956913871, 13, [2, 5, 17, 66417393611]⟩,
    ⟨46076956964474543, 5, [2, 23, 18169, 78283, 704251]⟩,
    ⟨774023187263532362759620327192479577272145303, 3,
      [2, 3, 3, 2411, 34282281433, 11290956913871, 46076956964474543]⟩,
    ⟨835945042244614951780389953367877943453916927241, 11,
      [2, 2, 2, 3, 3, 3, 5, 774023187263532362759620327192479577272145303]⟩,
    p256Certificate]

theorem prime_p256Prime : p256Prime.Prime := by
  have hsmall : ∀ q ∈ smallPrimes, q.Prime := by norm_num [smallPrimes]
  have hchain : chainTest smallPrimes p256Chain = true := by decide +kernel
  exact prime_of_chain hsmall hchain p256Certificate (by simp [p256Chain])

instance factPrimeP256 : Fact p256Prime.Prime := ⟨prime_p256Prime⟩

/-! ## §2 The constants -/

/-- `P256_ELEMENT_BYTES`. -/
def p256ElementBytes : ℕ := 32

def p256FieldPrime : List UInt8 :=
  [0xff, 0xff, 0xff, 0xff, 0x00, 0x00, 0x00, 0x01, 0x00, 0x00, 0x00, 0x00, 0x00, 0x00, 0x00, 0x00,
    0x00, 0x00, 0x00, 0x00, 0xff, 0xff, 0xff, 0xff, 0xff, 0xff, 0xff, 0xff, 0xff, 0xff, 0xff, 0xff]

def p256InverseExponent : List UInt8 :=
  [0xff, 0xff, 0xff, 0xff, 0x00, 0x00, 0x00, 0x01, 0x00, 0x00, 0x00, 0x00, 0x00, 0x00, 0x00, 0x00,
    0x00, 0x00, 0x00, 0x00, 0xff, 0xff, 0xff, 0xff, 0xff, 0xff, 0xff, 0xff, 0xff, 0xff, 0xff, 0xfd]

def p256LegendreExponent : List UInt8 :=
  [0x7f, 0xff, 0xff, 0xff, 0x80, 0x00, 0x00, 0x00, 0x80, 0x00, 0x00, 0x00, 0x00, 0x00, 0x00, 0x00,
    0x00, 0x00, 0x00, 0x00, 0x7f, 0xff, 0xff, 0xff, 0xff, 0xff, 0xff, 0xff, 0xff, 0xff, 0xff, 0xff]

def p256FieldOne : List UInt8 :=
  [0, 0, 0, 0, 0, 0, 0, 0, 0, 0, 0, 0, 0, 0, 0, 0, 0, 0, 0, 0, 0, 0, 0, 0, 0, 0, 0, 0, 0, 0, 0, 1]

def p256FieldMinusOne : List UInt8 :=
  [0xff, 0xff, 0xff, 0xff, 0x00, 0x00, 0x00, 0x01, 0x00, 0x00, 0x00, 0x00, 0x00, 0x00, 0x00, 0x00,
    0x00, 0x00, 0x00, 0x00, 0xff, 0xff, 0xff, 0xff, 0xff, 0xff, 0xff, 0xff, 0xff, 0xff, 0xff, 0xfe]

theorem fromBe_p256FieldPrime : fromBe p256FieldPrime = p256Prime := by decide

theorem fromBe_p256InverseExponent : fromBe p256InverseExponent = p256Prime - 2 := by decide

theorem fromBe_p256LegendreExponent : fromBe p256LegendreExponent = p256Prime / 2 := by decide

theorem fromBe_p256FieldOne : fromBe p256FieldOne = 1 := by decide

theorem fromBe_p256FieldMinusOne : fromBe p256FieldMinusOne = p256Prime - 1 := by decide

end HisiRiscv.Crypto
