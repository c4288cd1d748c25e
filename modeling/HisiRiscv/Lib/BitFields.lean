/-
HisiRiscv.Lib.BitFields — fields of equal width in a register.

A register of `n` bits is read as consecutive fields of `w` bits, field `0`
the lowest. Software updates one field by the usual read-modify-write:
clear the field with the inverted mask, or in the shifted value. `field_insert`
says what the update does to every field: the one named takes the value,
provided it fits, and the others are left alone.
-/
import Mathlib.Algebra.Group.Nat.Defs
import Mathlib.Data.List.Basic

namespace HisiRiscv.BitFields

variable {n : Nat}

/-- Field `k` of a register. -/
def field (w k : Nat) (r : BitVec n) : BitVec w := r.extractLsb' (w * k) w

/-- The mask of a field at position `0`. -/
def mask (w : Nat) : BitVec n := (BitVec.allOnes w).setWidth n

/-- The read-modify-write of field `k`. -/
def insert (w k : Nat) (r c : BitVec n) : BitVec n :=
  (r &&& ~~~(mask w <<< (w * k))) ||| (c <<< (w * k))

theorem getLsbD_field (w k i : Nat) (r : BitVec n) :
    (field w k r).getLsbD i = (decide (i < w) && r.getLsbD (w * k + i)) := by
  simp [field, BitVec.getLsbD_extractLsb']

theorem getLsbD_mask (w i : Nat) : (mask w : BitVec n).getLsbD i = (decide (i < n) && decide (i < w)) := by
  simp [mask, BitVec.getLsbD_setWidth]

/-- A value that fits a field has no bits above it. -/
theorem getLsbD_of_fits {w i : Nat} {c : BitVec n} (hc : c.toNat < 2 ^ w) (hi : w ≤ i) :
    c.getLsbD i = false := by
  rw [BitVec.getLsbD]
  exact Nat.testBit_lt_two_pow (Nat.lt_of_lt_of_le hc (Nat.pow_le_pow_right (by decide) hi))

/-- Bit by bit: inside the field the value's bit, outside it the register's. -/
theorem getLsbD_insert {w k i : Nat} (r : BitVec n) {c : BitVec n} (hc : c.toNat < 2 ^ w) (hi : i < n) :
    (insert w k r c).getLsbD i =
      if w * k ≤ i ∧ i < w * k + w then c.getLsbD (i - w * k) else r.getLsbD i := by
  simp only [insert, BitVec.getLsbD_or, BitVec.getLsbD_and, BitVec.getLsbD_not, BitVec.getLsbD_shiftLeft,
    getLsbD_mask, hi, decide_true, Bool.true_and]
  by_cases hlow : i < w * k
  · have hout : ¬(w * k ≤ i ∧ i < w * k + w) := by omega
    simp [hlow, hout]
  · by_cases hin : i < w * k + w
    · have hfield : w * k ≤ i ∧ i < w * k + w := by omega
      have hn : i - w * k < n := by omega
      have hw : i - w * k < w := by omega
      simp [hlow, hfield, hn, hw]
    · have hout : ¬(w * k ≤ i ∧ i < w * k + w) := by omega
      have hw : ¬i - w * k < w := by omega
      simp [hlow, hout, hw, getLsbD_of_fits hc (Nat.le_of_not_lt hw)]

/-- Two different fields have no bit in common. -/
theorem disjoint {w j k i : Nat} (hi : i < w) (h : j ≠ k) :
    ¬(w * k ≤ w * j + i ∧ w * j + i < w * k + w) := by
  rcases Nat.lt_or_gt_of_ne h with hlt | hlt
  · have := Nat.mul_le_mul_left w (Nat.succ_le_of_lt hlt)
    rw [Nat.mul_succ] at this
    omega
  · have := Nat.mul_le_mul_left w (Nat.succ_le_of_lt hlt)
    rw [Nat.mul_succ] at this
    omega

/-- The update of one field: it takes the value, the others keep theirs. -/
theorem field_insert {w j k : Nat} (r : BitVec n) {c : BitVec n} (hc : c.toNat < 2 ^ w)
    (hj : w * j + w ≤ n) :
    field w j (insert w k r c) = if j = k then c.setWidth w else field w j r := by
  apply BitVec.eq_of_getLsbD_eq
  intro i hi
  rw [getLsbD_field, getLsbD_insert r hc (by omega)]
  by_cases h : j = k
  · subst h
    simp [hi]
  · rw [if_neg (disjoint hi h), if_neg h, getLsbD_field]

end HisiRiscv.BitFields
