/-
HisiRiscv.Lib.BigEndian — natural numbers as big-endian byte strings.

`fromBe` reads a byte string, `toBe n` writes `n` bytes. A string of `n`
bytes stands for a number below `256 ^ n` (`fromBe_lt`), different strings of one
length stand for different numbers (`fromBe_injective`), and writing such a number
is exact (`fromBe_toBe`, `toBe_fromBe`, `beEquiv`). The digits are those of Mathlib's `Nat.ofDigits`, most
significant first.
-/
import Mathlib.Data.Nat.Digits.Lemmas

namespace HisiRiscv.BigEndian

/-- The digits of a byte string, least significant first. -/
def digits (bytes : List UInt8) : List ℕ := bytes.reverse.map UInt8.toNat

def fromBe (bytes : List UInt8) : ℕ := Nat.ofDigits 256 (digits bytes)

/-- `n` bytes; a larger number loses its high digits. -/
def toBe : (n x : ℕ) → List UInt8
  | 0, _ => []
  | n + 1, x => toBe n (x / 256) ++ [UInt8.ofNat x]

theorem digits_lt (bytes : List UInt8) : ∀ d ∈ digits bytes, d < 256 := by
  intro d hd
  obtain ⟨byte, -, rfl⟩ := List.mem_map.mp hd
  exact byte.toNat_lt

@[simp] theorem length_digits (bytes : List UInt8) : (digits bytes).length = bytes.length := by
  simp [digits]

theorem fromBe_lt (bytes : List UInt8) : fromBe bytes < 256 ^ bytes.length := by
  have hlt := Nat.ofDigits_lt_base_pow_length (b := 256) (by decide) (digits_lt bytes)
  rwa [length_digits] at hlt

theorem fromBe_injective {bytes bytes' : List UInt8} (hlen : bytes.length = bytes'.length)
    (h : fromBe bytes = fromBe bytes') : bytes = bytes' := by
  have hdigits : digits bytes = digits bytes' :=
    Nat.ofDigits_inj_of_len_eq (b := 256) (by decide) (by simpa using hlen) (digits_lt _) (digits_lt _) h
  have hmap : bytes.reverse = bytes'.reverse :=
    List.map_injective_iff.mpr (fun _ _ => UInt8.toNat_inj.mp) hdigits
  exact List.reverse_injective hmap

theorem fromBe_append_singleton (bytes : List UInt8) (byte : UInt8) :
    fromBe (bytes ++ [byte]) = byte.toNat + 256 * fromBe bytes := by
  simp [fromBe, digits, Nat.ofDigits_cons]

theorem fromBe_cons (byte : UInt8) (bytes : List UInt8) :
    fromBe (byte :: bytes) = byte.toNat * 256 ^ bytes.length + fromBe bytes := by
  simp [fromBe, digits, Nat.ofDigits_append, Nat.mul_comm, Nat.add_comm]

@[simp] theorem length_toBe (n : ℕ) : ∀ x, (toBe n x).length = n := by
  induction n with
  | zero => intro x; rfl
  | succ n ih => intro x; simp [toBe, ih]

/-- Leading zeros do not count. -/
theorem fromBe_dropWhile_zero (bytes : List UInt8) :
    fromBe (bytes.dropWhile (· == 0)) = fromBe bytes := by
  induction bytes with
  | nil => rfl
  | cons byte bytes ih =>
    rw [List.dropWhile_cons]
    split
    next hzero =>
      rw [ih, fromBe_cons, beq_iff_eq.mp hzero, UInt8.toNat_zero, Nat.zero_mul, Nat.zero_add]
    next => rfl

theorem fromBe_toBe (n : ℕ) : ∀ {x : ℕ}, x < 256 ^ n → fromBe (toBe n x) = x := by
  induction n with
  | zero =>
    intro x hx
    obtain rfl : x = 0 := by simpa using hx
    rfl
  | succ n ih =>
    intro x hx
    have hdiv : x / 256 < 256 ^ n := by
      rw [pow_succ] at hx
      exact Nat.div_lt_of_lt_mul (by omega)
    rw [toBe, fromBe_append_singleton, ih hdiv, UInt8.toNat_ofNat']
    exact Nat.mod_add_div x 256

theorem toBe_fromBe (bytes : List UInt8) : toBe bytes.length (fromBe bytes) = bytes :=
  fromBe_injective (length_toBe _ _) (fromBe_toBe _ (fromBe_lt bytes))

/-- The strings of `n` bytes are the numbers below `256 ^ n`. -/
def beEquiv (n : ℕ) : Vector UInt8 n ≃ Fin (256 ^ n) where
  toFun bytes := ⟨fromBe bytes.toList, by
    have hlt := fromBe_lt bytes.toList
    rwa [bytes.length_toList] at hlt⟩
  invFun x := ⟨(toBe n x).toArray, by rw [List.size_toArray, length_toBe]⟩
  left_inv bytes := by
    have hbytes := toBe_fromBe bytes.toList
    rw [bytes.length_toList] at hbytes
    exact Vector.toList_inj.mp hbytes
  right_inv x := Fin.ext (fromBe_toBe n x.isLt)

theorem fromBe_beEquiv_symm {n : ℕ} (x : Fin (256 ^ n)) : fromBe ((beEquiv n).symm x).toList = x :=
  congrArg Fin.val ((beEquiv n).apply_symm_apply x)

end HisiRiscv.BigEndian
