/-
HisiRiscv.Flashboot.Fips180 — SHA-256 as FIPS 180-4 states it.

This is the abstract side of the flashboot hash: bit strings, the padding
rule, the message schedule as a recurrence and the hash as a fold over
512-bit blocks. Nothing is translated from the firmware. The two constant
families are the standard's own definition (the first 32 bits of the
fractional parts of the square and cube roots of the first primes), not a
table, so that a wrong table entry in the firmware would show.
-/
import HisiRiscv.Lib.BitString
import HisiRiscv.Lib.BlockStream
import Mathlib.Data.Nat.Prime.Basic

namespace HisiRiscv.Fips180

open HisiRiscv.BitString HisiRiscv.BlockStream

/-! ## §1 Constants -/

/-- The largest `r` with `r ^ k ≤ n` that agrees with `r₀` above bit `b`:
bits are decided from the top. -/
def rootFrom (k n : Nat) : Nat → Nat → Nat
  | 0, r => r
  | b + 1, r => rootFrom k n b (if (r + 2 ^ b) ^ k ≤ n then r + 2 ^ b else r)

/-- `rootFrom` is the integer `k`-th root whenever the root fits the bits
left to decide. -/
theorem rootFrom_spec (k n : Nat) : ∀ (b r : Nat), r ^ k ≤ n → n < (r + 2 ^ b) ^ k →
    rootFrom k n b r ^ k ≤ n ∧ n < (rootFrom k n b r + 1) ^ k
  | 0, r, hlo, hhi => ⟨hlo, by simpa [rootFrom] using hhi⟩
  | b + 1, r, hlo, hhi => by
      rw [rootFrom]
      by_cases hbit : (r + 2 ^ b) ^ k ≤ n
      · rw [if_pos hbit]
        refine rootFrom_spec k n b _ hbit ?_
        rwa [show r + 2 ^ b + 2 ^ b = r + 2 ^ (b + 1) by rw [Nat.pow_succ]; omega]
      · rw [if_neg hbit]
        exact rootFrom_spec k n b r hlo (by omega)

/-- The first 32 bits of the fractional part of the `k`-th root of `p`:
`⌊p^(1/k) · 2³²⌋` modulo `2³²`. Forty bits hold every root used here. -/
def fracRoot (k p : Nat) : UInt32 := UInt32.ofNat (rootFrom k (p * 2 ^ (32 * k)) 40 0)

def isPrime (n : Nat) : Bool := 2 ≤ n && (List.range n).all fun d => d < 2 || n % d != 0

theorem isPrime_iff (n : Nat) : isPrime n = true ↔ n.Prime := by
  rw [Nat.prime_def]
  simp only [isPrime, Bool.and_eq_true, decide_eq_true_eq, List.all_eq_true,
    List.mem_range, Bool.or_eq_true, bne_iff_ne, ne_eq]
  constructor
  · rintro ⟨h2, hall⟩
    refine ⟨h2, fun m hm => ?_⟩
    have hle : m ≤ n := Nat.le_of_dvd (by omega) hm
    have hpos : 0 < m := Nat.pos_of_dvd_of_pos hm (by omega)
    by_contra hne
    rcases hall m (by omega) with h | h
    · omega
    · exact h (Nat.mod_eq_zero_of_dvd hm)
  · rintro ⟨h2, hdvd⟩
    refine ⟨h2, fun d hd => ?_⟩
    by_cases hd2 : d < 2
    · exact Or.inl hd2
    · refine Or.inr fun hmod => ?_
      have := hdvd d (Nat.dvd_of_mod_eq_zero hmod)
      omega

/-- The first sixty-four primes, 2 to 311. -/
def primes : List Nat := (List.range 312).filter isPrime

theorem mem_primes (p : Nat) : p ∈ primes ↔ p.Prime ∧ p < 312 := by
  rw [primes, List.mem_filter, List.mem_range, isPrime_iff, and_comm]

/-- `K_t`: from the cube roots of the first sixty-four primes. -/
def K (t : Nat) : UInt32 := fracRoot 3 primes[t]!

/-- A hash value has eight words. -/
abbrev hashWords : Nat := 8

/-- `H⁽⁰⁾`: from the square roots of the first eight primes. -/
def H0 : Vector UInt32 hashWords := Vector.ofFn fun i => fracRoot 2 primes[i]!

/-! ## §2 Functions on words -/

def ROTR (n : UInt32) (x : UInt32) : UInt32 := (x >>> n) ||| (x <<< (32 - n))
def SHR (n : UInt32) (x : UInt32) : UInt32 := x >>> n
def Ch (x y z : UInt32) : UInt32 := (x &&& y) ^^^ (~~~x &&& z)
def Maj (x y z : UInt32) : UInt32 := (x &&& y) ^^^ (x &&& z) ^^^ (y &&& z)
def bigSigma0 (x : UInt32) : UInt32 := ROTR 2 x ^^^ ROTR 13 x ^^^ ROTR 22 x
def bigSigma1 (x : UInt32) : UInt32 := ROTR 6 x ^^^ ROTR 11 x ^^^ ROTR 25 x
def smallSigma0 (x : UInt32) : UInt32 := ROTR 7 x ^^^ ROTR 18 x ^^^ SHR 3 x
def smallSigma1 (x : UInt32) : UInt32 := ROTR 17 x ^^^ ROTR 19 x ^^^ SHR 10 x

/-! ## §3 Padding -/

/-- The number of zero bits behind the single one bit. -/
def padZeros (l : Nat) : Nat := (959 - l % 512) % 512

/-- `padZeros` is the smallest non-negative solution of
`l + 1 + k ≡ 448 (mod 512)`. -/
theorem padZeros_spec (l : Nat) :
    (l + 1 + padZeros l) % 512 = 448 ∧ ∀ k < padZeros l, (l + 1 + k) % 512 ≠ 448 := by
  unfold padZeros
  constructor
  · omega
  · intro k hk
    omega

/-- The message, a one bit, the zero bits, the message length in 64 bits. -/
def pad (M : Bits) : Bits :=
  M ++ true :: List.replicate (padZeros M.length) false ++ toBits 64 M.length

/-- A padded message is a whole number of 512-bit blocks. -/
theorem dvd_length_pad (M : Bits) : 512 ∣ (pad M).length := by
  have h := (padZeros_spec M.length).1
  simp only [pad, List.length_append, List.length_cons, List.length_replicate,
    length_toBits]
  omega

/-! ## §4 The hash computation -/

/-- The `t`-th 32-bit word of a block. -/
def word (blk : Bits) (t : Nat) : UInt32 := UInt32.ofNat (ofBits (block 32 blk t))

/-- The message schedule `W_t`. -/
def schedule (blk : Bits) (t : Nat) : UInt32 :=
  if _h : t < 16 then word blk t
  else smallSigma1 (schedule blk (t - 2)) + schedule blk (t - 7) +
    smallSigma0 (schedule blk (t - 15)) + schedule blk (t - 16)

/-- The eight working variables. -/
structure Work where
  (a b c d e f g h : UInt32)

def Work.ofHash (H : Vector UInt32 hashWords) : Work :=
  ⟨H[0], H[1], H[2], H[3], H[4], H[5], H[6], H[7]⟩

/-- Step 3 of the hash computation, for one `t`: `k` is `K_t`, `w` is `W_t`. -/
def round (v : Work) (k w : UInt32) : Work :=
  let T1 := v.h + bigSigma1 v.e + Ch v.e v.f v.g + k + w
  let T2 := bigSigma0 v.a + Maj v.a v.b v.c
  { h := v.g, g := v.f, f := v.e, e := v.d + T1, d := v.c, c := v.b, b := v.a, a := T1 + T2 }

/-- The rounds for the given `t`s, with the round constants as a parameter. -/
def rounds (C : Nat → UInt32) (blk : Bits) (v : Work) (ts : List Nat) : Work :=
  ts.foldl (fun v t => round v (C t) (schedule blk t)) v

/-- The intermediate hash value `H⁽ⁱ⁾` from `H⁽ⁱ⁻¹⁾` and the working
variables after the last round. -/
def addWork (H : Vector UInt32 hashWords) (v : Work) : Vector UInt32 hashWords :=
  #v[v.a + H[0], v.b + H[1], v.c + H[2], v.d + H[3],
     v.e + H[4], v.f + H[5], v.g + H[6], v.h + H[7]]

def compressWith (C : Nat → UInt32) (H : Vector UInt32 hashWords) (blk : Bits) :
    Vector UInt32 hashWords :=
  addWork H (rounds C blk (Work.ofHash H) (List.range 64))

/-- Eight words as 256 bits. -/
def digestBits (H : Vector UInt32 hashWords) : Bits := H.toList.flatMap fun w => toBits 32 w.toNat

/-- The hash computation with the round constants as a parameter. -/
def sha256With (C : Nat → UInt32) (M : Bits) : Bits :=
  digestBits ((blocks 512 (pad M)).foldl (compressWith C) H0)

/-- The SHA-256 message digest. -/
def sha256 (M : Bits) : Bits := sha256With K M

/-! ## §5 What a changed round constant does

A hash with one constant changed is not SHA-256 on any one-block message:
each round is a bijection of the working variables, so a difference made
by one constant survives to the last round and the final additions. -/

/-- A round forgets nothing: it is injective in the working variables. -/
theorem round_injective (k w : UInt32) : Function.Injective (round · k w) := by
  intro v v' h
  simp only [round, Work.mk.injEq] at h
  obtain ⟨ha, hb, hc, hd, he, hf, hg, hh⟩ := h
  obtain ⟨a, b, c, d, e, f, g, h⟩ := v
  obtain ⟨a', b', c', d', e', f', g', h'⟩ := v'
  simp only at ha hb hc hd he hf hg hh
  subst hb hc hd hf hg hh
  have hT1 := (UInt32.add_left_inj _).mp ha
  have hh' : h = h' := by simpa using hT1
  subst hh'
  have hd' : d = d' := (UInt32.add_left_inj _).mp he
  rw [hd']

/-- Two different constants take the same working variables apart. -/
theorem round_const_ne (v : Work) {k k' : UInt32} (w : UInt32) (h : k ≠ k') :
    round v k w ≠ round v k' w := by
  intro heq
  simp only [round, Work.mk.injEq] at heq
  apply h
  simpa using heq.1

theorem rounds_injective (C : Nat → UInt32) (blk : Bits) (ts : List Nat) :
    Function.Injective (rounds C blk · ts) := by
  induction ts with
  | nil => exact fun _ _ h => h
  | cons t ts ih => exact fun v v' h => round_injective _ _ (ih h)

theorem rounds_append (C : Nat → UInt32) (blk : Bits) (v : Work) (ts us : List Nat) :
    rounds C blk v (ts ++ us) = rounds C blk (rounds C blk v ts) us :=
  List.foldl_append

/-- Only the constants of the rounds that are run matter. -/
theorem rounds_congr (C C' : Nat → UInt32) (blk : Bits) (v : Work) (ts : List Nat)
    (h : ∀ t ∈ ts, C t = C' t) : rounds C blk v ts = rounds C' blk v ts := by
  induction ts generalizing v with
  | nil => rfl
  | cons t ts ih =>
    simp only [rounds, List.foldl_cons]
    rw [h t (by simp)]
    exact ih _ fun u hu => h u (by simp [hu])

theorem addWork_injective (H : Vector UInt32 hashWords) : Function.Injective (addWork H) := by
  intro v v' h
  simp only [addWork, Vector.mk.injEq, Array.mk.injEq, List.cons.injEq] at h
  obtain ⟨a, b, c, d, e, f, g, h⟩ := v
  obtain ⟨a', b', c', d', e', f', g', h'⟩ := v'
  simp_all

/-- With exactly one of the 64 constants changed, the compression of one
block from one chaining value differs. -/
theorem compressWith_ne {C C' : Nat → UInt32} (i : Nat) (hi : i < 64)
    (hne : C i ≠ C' i) (heq : ∀ t < 64, t ≠ i → C t = C' t)
    (H : Vector UInt32 hashWords) (blk : Bits) :
    compressWith C H blk ≠ compressWith C' H blk := by
  have hsplit : List.range 64 = List.range i ++ i :: List.range' (i + 1) (63 - i) := by
    rw [List.range_eq_range', List.range_eq_range', ← List.range'_succ,
        show 63 - i + 1 = 64 - i by omega, show 64 = i + (64 - i) by omega,
        ← List.range'_append_1]
    simp
  intro h
  have hw := addWork_injective H h
  rw [hsplit, rounds_append, rounds_append,
      rounds_congr C C' blk _ (List.range i)
        (fun t ht => heq t (by simp at ht; omega) (by simp at ht; omega))] at hw
  rw [← List.singleton_append, rounds_append, rounds_append,
      rounds_congr C C' blk _ (List.range' (i + 1) (63 - i))
        (fun t ht => heq t (by simp at ht; omega) (by simp at ht; omega))] at hw
  exact round_const_ne _ _ hne (rounds_injective C' blk _ hw)

/-- A digest determines the eight words it was written from. -/
theorem digestBits_injective : Function.Injective digestBits := by
  have hword : ∀ l l' : List UInt32, l.length = l'.length →
      l.flatMap (fun w => toBits 32 w.toNat) = l'.flatMap (fun w => toBits 32 w.toNat) →
      l = l' := by
    intro l
    induction l with
    | nil => intro l' hl _; exact (List.length_eq_zero_iff.mp hl.symm).symm
    | cons w l ih =>
      intro l' hl h
      cases l' with
      | nil => simp at hl
      | cons w' l' =>
        simp only [List.flatMap_cons] at h
        obtain ⟨hw, ht⟩ := List.append_inj h (by simp)
        have hval := congrArg ofBits hw
        rw [ofBits_toBits, ofBits_toBits, Nat.mod_eq_of_lt w.toNat_lt,
            Nat.mod_eq_of_lt w'.toNat_lt] at hval
        rw [UInt32.toNat_inj.mp hval, ih l' (by simpa using hl) ht]
  intro H H' h
  exact Vector.toList_inj.mp (hword _ _ (by simp) h)

end HisiRiscv.Fips180
