/-
HisiRiscv.Lib.BitString — bit strings, most significant bit first.

`toBits w v` writes the low `w` bits of a number, `ofBits` reads a bit
string back. Both are left-to-right (big-endian), the order in which
hash standards write words. A byte string is the bit string of its
bytes (`ofBytes`).
-/
import Mathlib.Algebra.Group.Nat.Defs
import Mathlib.Data.List.Basic

namespace HisiRiscv.BitString

abbrev Bits := List Bool

/-- The low `w` bits of `v`, most significant first. -/
def toBits : Nat → Nat → Bits
  | 0, _ => []
  | w + 1, v => v.testBit w :: toBits w v

/-- The number a bit string denotes, most significant bit first. -/
def ofBits : Bits → Nat
  | [] => 0
  | b :: bs => 2 ^ bs.length * b.toNat + ofBits bs

/-- The bit string of a byte string. -/
def ofBytes (bs : List UInt8) : Bits := bs.flatMap fun b => toBits 8 b.toNat

@[simp] theorem length_toBits (w v : Nat) : (toBits w v).length = w := by
  induction w with
  | zero => rfl
  | succ w ih => simp [toBits, ih]

/-- Reading back what was written keeps the low `w` bits. -/
theorem ofBits_toBits (w v : Nat) : ofBits (toBits w v) = v % 2 ^ w := by
  induction w with
  | zero => simp [toBits, ofBits, Nat.mod_one]
  | succ w ih =>
    rw [toBits, ofBits, length_toBits, ih, Nat.mod_pow_succ, Nat.toNat_testBit]
    omega

/-- A wide number is written as its high part followed by its low part. -/
theorem toBits_add (a b v : Nat) :
    toBits (a + b) v = toBits a (v / 2 ^ b) ++ toBits b v := by
  induction a with
  | zero => simp [toBits]
  | succ a ih =>
    rw [show a + 1 + b = (a + b) + 1 by omega, toBits, toBits, ih,
        Nat.testBit_div_two_pow, List.cons_append]

/-- Only the low `w` bits of a number are written. -/
theorem toBits_mod {w k : Nat} (h : w ≤ k) (v : Nat) :
    toBits w (v % 2 ^ k) = toBits w v := by
  induction w with
  | zero => rfl
  | succ w ih =>
    rw [toBits, toBits, ih (by omega), Nat.testBit_mod_two_pow]
    simp [show w < k by omega]

theorem ofBits_append (a b : Bits) :
    ofBits (a ++ b) = 2 ^ b.length * ofBits a + ofBits b := by
  induction a with
  | nil => simp [ofBits]
  | cons x a ih =>
    simp only [List.cons_append, ofBits, ih, List.length_append, Nat.pow_add]
    grind

/-! ## Byte strings -/

@[simp] theorem ofBytes_nil : ofBytes [] = [] := rfl

theorem ofBytes_cons (b : UInt8) (bs : List UInt8) :
    ofBytes (b :: bs) = toBits 8 b.toNat ++ ofBytes bs := rfl

theorem ofBytes_append (as bs : List UInt8) :
    ofBytes (as ++ bs) = ofBytes as ++ ofBytes bs := by
  simp [ofBytes]

@[simp] theorem length_ofBytes (bs : List UInt8) :
    (ofBytes bs).length = 8 * bs.length := by
  induction bs with
  | nil => rfl
  | cons b bs ih =>
    rw [ofBytes_cons, List.length_append, length_toBits, ih, List.length_cons]
    omega

/-- Dropping bytes drops eight bits for each. -/
theorem ofBytes_drop (bs : List UInt8) (k : Nat) :
    ofBytes (bs.drop k) = (ofBytes bs).drop (8 * k) := by
  induction bs generalizing k with
  | nil => simp
  | cons b bs ih =>
    cases k with
    | zero => rfl
    | succ k =>
      rw [List.drop_succ_cons, ih, ofBytes_cons,
          show 8 * (k + 1) = (toBits 8 b.toNat).length + 8 * k by simp; omega,
          List.drop_length_add_append]

/-- Taking bytes takes eight bits for each. -/
theorem ofBytes_take (bs : List UInt8) (k : Nat) :
    ofBytes (bs.take k) = (ofBytes bs).take (8 * k) := by
  induction bs generalizing k with
  | nil => simp
  | cons b bs ih =>
    cases k with
    | zero => rfl
    | succ k =>
      rw [List.take_succ_cons, ofBytes_cons, ofBytes_cons, ih,
          show 8 * (k + 1) = (toBits 8 b.toNat).length + 8 * k by simp; omega,
          List.take_length_add_append]

/-- Zero bytes are zero bits. -/
theorem ofBytes_replicate_zero (k : Nat) :
    ofBytes (List.replicate k 0) = List.replicate (8 * k) false := by
  induction k with
  | zero => rfl
  | succ k ih =>
    rw [List.replicate_succ, ofBytes_cons, ih, show 8 * (k + 1) = 8 + 8 * k by omega,
        List.replicate_add]
    rfl

/-- A byte is the value of its eight bits. -/
theorem ofBits_byte (b : UInt8) : ofBits (toBits 8 b.toNat) = b.toNat := by
  rw [ofBits_toBits, Nat.mod_eq_of_lt b.toNat_lt]

/-- Distinct byte strings have distinct bits. -/
theorem ofBytes_injective : Function.Injective ofBytes := by
  intro as
  induction as with
  | nil =>
    intro bs h
    have hlen := congrArg List.length h
    simp only [length_ofBytes, List.length_nil] at hlen
    exact (List.length_eq_zero_iff.mp (by omega)).symm
  | cons a as ih =>
    intro bs h
    cases bs with
    | nil => simp [ofBytes_cons, toBits] at h
    | cons b bs =>
      rw [ofBytes_cons, ofBytes_cons] at h
      obtain ⟨hhead, htail⟩ := List.append_inj h (by simp)
      have hval := congrArg ofBits hhead
      rw [ofBits_byte, ofBits_byte] at hval
      rw [UInt8.toNat_inj.mp hval, ih htail]

end HisiRiscv.BitString
