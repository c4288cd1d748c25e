/-
HisiRiscv.Lib.PrimeField — arithmetic modulo a prime, on natural numbers.

Hardware and portable code compute with representatives below the modulus.
The two theorems here say what exponentiation gives in these terms: the
exponent `p - 2` inverts (`pow_sub_two_mul_mod`, Fermat), and the exponent
`p / 2` gives 0, 1 or `p - 1` according to the Legendre symbol
(`pow_half_cases`, Euler). `prime_of_lucas` is Lucas's test in a form that
evaluates quickly, and `prime_of_chain` a chain of such tests, so that a large prime is
proved from small ones.

  §1 Modular powers.
  §2 Lucas's test.
  §3 Fermat and Euler.
-/
import Mathlib.Data.List.Prime
import Mathlib.NumberTheory.LegendreSymbol.QuadraticReciprocity
import Mathlib.NumberTheory.LucasPrimality

namespace HisiRiscv.PrimeField

/-! ## §1 Modular powers -/

/-- `acc * a ^ e % m`, for an exponent of at most `bits` bits. -/
def powMod (m : ℕ) : (bits acc a e : ℕ) → ℕ
  | 0, acc, _, _ => acc % m
  | bits + 1, acc, a, e =>
      powMod m bits (if e % 2 = 1 then acc * a % m else acc) (a * a % m) (e / 2)

theorem powMod_eq (m : ℕ) {bits : ℕ} : ∀ {acc a e : ℕ}, e < 2 ^ bits →
    powMod m bits acc a e = acc * a ^ e % m := by
  induction bits with
  | zero =>
    intro acc a e he
    obtain rfl : e = 0 := by simpa using he
    simp [powMod]
  | succ bits ih =>
    intro acc a e he
    rw [powMod, ih (by rw [pow_succ] at he; omega)]
    have hsquare : (a * a % m) ^ (e / 2) ≡ a ^ (2 * (e / 2)) [MOD m] := by
      rw [pow_mul, sq]
      exact (Nat.mod_modEq _ _).pow _
    have hsplit := Nat.div_add_mod e 2
    split
    · rename_i hodd
      have he' : a ^ e = a * a ^ (2 * (e / 2)) := by
        rw [← pow_succ']
        congr 1
        omega
      rw [he', ← mul_assoc]
      exact (Nat.mod_modEq _ _).mul hsquare
    · have he' : a ^ e = a ^ (2 * (e / 2)) := by
        congr 1
        omega
      rw [he']
      exact hsquare.mul_left acc

/-! ## §2 Lucas's test -/

/-- `a` generates the units modulo `p`, if `factors` are the primes of `p - 1`. -/
def lucasTest (p a : ℕ) (factors : List ℕ) : Bool :=
  let bits := p.log2 + 1
  1 < p && factors.prod == p - 1 && powMod p bits 1 a (p - 1) == 1 &&
    factors.all fun q => powMod p bits 1 a ((p - 1) / q) != 1

theorem prime_of_lucas {p : ℕ} (a : ℕ) (factors : List ℕ) (hprime : ∀ q ∈ factors, q.Prime)
    (htest : lucasTest p a factors = true) : p.Prime := by
  simp only [lucasTest, Bool.and_eq_true, decide_eq_true_eq, beq_iff_eq, List.all_eq_true,
    bne_iff_ne] at htest
  obtain ⟨⟨⟨hp, hprod⟩, hone⟩, hne⟩ := htest
  have hbits : ∀ n ≤ p - 1, n < 2 ^ (p.log2 + 1) := by
    intro n hn
    have hlt := Nat.lt_log2_self (n := p)
    omega
  have hcast : ∀ n ≤ p - 1, (a : ZMod p) ^ n = 1 ↔ powMod p (p.log2 + 1) 1 a n = 1 := by
    intro n hn
    rw [powMod_eq p (hbits n hn), one_mul, ← Nat.cast_pow, ← Nat.cast_one,
      ZMod.natCast_eq_natCast_iff', Nat.mod_eq_of_lt hp]
  refine lucas_primality p (a : ZMod p) ((hcast _ le_rfl).mpr hone) ?_
  intro q hq hdvd
  rw [← hprod] at hdvd
  obtain ⟨r, hr, hqr⟩ := (Prime.dvd_prod_iff hq.prime).mp hdvd
  obtain rfl : q = r := (Nat.prime_dvd_prime_iff_eq hq (hprime r hr)).mp hqr
  exact fun hpow => hne q hr ((hcast _ (Nat.div_le_self _ _)).mp hpow)

/-- A prime with a generator of its units and the prime factors of its predecessor. -/
structure Certificate where
  prime : ℕ
  generator : ℕ
  factors : List ℕ

/-- Lucas's test for each certificate, whose factors are known or certified before. -/
def chainTest (known : List ℕ) : List Certificate → Bool
  | [] => true
  | c :: chain =>
    c.factors.all (· ∈ known) && lucasTest c.prime c.generator c.factors &&
      chainTest (c.prime :: known) chain

theorem prime_of_chain {known : List ℕ} {chain : List Certificate}
    (hknown : ∀ q ∈ known, q.Prime) (h : chainTest known chain = true) :
    ∀ c ∈ chain, c.prime.Prime := by
  induction chain generalizing known with
  | nil => simp
  | cons c chain ih =>
    simp only [chainTest, Bool.and_eq_true, List.all_eq_true, decide_eq_true_eq] at h
    obtain ⟨⟨hfactors, htest⟩, hrest⟩ := h
    have hprime : c.prime.Prime :=
      prime_of_lucas c.generator c.factors (fun q hq => hknown q (hfactors q hq)) htest
    exact List.forall_mem_cons.mpr ⟨hprime, ih (List.forall_mem_cons.mpr ⟨hprime, hknown⟩) hrest⟩

/-! ## §3 Fermat and Euler -/

section Field

variable (p : ℕ) [hp : Fact p.Prime]

/-- The exponent `p - 2` inverts what is not divisible by `p`. -/
theorem pow_sub_two_mul_mod {x : ℕ} (hx : x % p ≠ 0) : x ^ (p - 2) * x % p = 1 := by
  have hne : (x : ZMod p) ≠ 0 := by
    rw [Ne, ZMod.natCast_eq_zero_iff, Nat.dvd_iff_mod_eq_zero]
    exact hx
  have htwo := hp.out.two_le
  have hpow : ((x ^ (p - 2) * x : ℕ) : ZMod p) = (1 : ℕ) := by
    push_cast
    rw [← pow_succ, show p - 2 + 1 = p - 1 by omega, ZMod.pow_card_sub_one_eq_one hne]
  rw [ZMod.natCast_eq_natCast_iff', Nat.mod_eq_of_lt (show 1 < p by omega)] at hpow
  exact hpow

/-- The exponent `p / 2` gives the Legendre symbol. -/
theorem pow_half_cases (x : ℕ) :
    (legendreSym p x = 0 ∧ x ^ (p / 2) % p = 0) ∨ (legendreSym p x = 1 ∧ x ^ (p / 2) % p = 1) ∨
      (legendreSym p x = -1 ∧ x ^ (p / 2) % p = p - 1) := by
  have htwo := hp.out.two_le
  have hpow : ((x ^ (p / 2) : ℕ) : ZMod p) = (legendreSym p x : ZMod p) := by
    rw [legendreSym.eq_pow]
    push_cast
    rfl
  by_cases hzero : ((x : ℤ) : ZMod p) = 0
  · left
    have hsym := (legendreSym.eq_zero_iff p x).mpr hzero
    rw [hsym, Int.cast_zero, ZMod.natCast_eq_zero_iff, Nat.dvd_iff_mod_eq_zero] at hpow
    exact ⟨hsym, hpow⟩
  · obtain hsym | hsym := legendreSym.eq_one_or_neg_one p hzero
    · right
      left
      rw [hsym, Int.cast_one, ← Nat.cast_one, ZMod.natCast_eq_natCast_iff',
        Nat.mod_eq_of_lt (show 1 < p by omega)] at hpow
      exact ⟨hsym, hpow⟩
    · right
      right
      have hneg : ((-1 : ℤ) : ZMod p) = ((p - 1 : ℕ) : ZMod p) := by
        rw [Nat.cast_sub (by omega)]
        simp
      rw [hsym, hneg, ZMod.natCast_eq_natCast_iff', Nat.mod_eq_of_lt (show p - 1 < p by omega)]
        at hpow
      exact ⟨hsym, hpow⟩

end Field

end HisiRiscv.PrimeField
