/-
HisiRiscv.Lib.SerialNumber — wrap-around comparison of 32-bit counters.

A counter that is only ever incremented is a natural number of which the
machine keeps the low 32 bits. `before a b` compares two such values by
the sign of their wrapped difference. It agrees with the comparison of
the unreduced counters as long as they lie less than 2³¹ apart
(`before_ofNat`), and then scanning a list for the earliest value finds
the minimum.
-/
import Mathlib.Algebra.Group.Nat.Defs
import Mathlib.Data.List.Basic

namespace HisiRiscv.SerialNumber

/-- `(candidate.wrapping_sub(current) as i32) < 0`. -/
def before (candidate current : UInt32) : Bool := (candidate - current).toInt32 < 0

/-- The sign of the wrapped difference, as a bound on the difference. -/
theorem before_iff (a b : UInt32) : before a b = true ↔ 2 ^ 31 ≤ (a - b).toNat := by
  rw [before, decide_eq_true_iff, Int32.lt_iff_toInt_lt]
  have hlt := (a - b).toNat_lt
  rw [show (0 : Int32).toInt = 0 from rfl, show (a - b).toInt32.toInt = (a - b).toBitVec.toInt from rfl,
      BitVec.toInt_eq_toNat_cond, UInt32.toNat_toBitVec]
  split <;> omega

/-- Within a window of 2³¹ the wrapped comparison is the comparison of the
unreduced counters. -/
theorem before_ofNat {m n : Nat} (h : m < n + 2 ^ 31) (h' : n < m + 2 ^ 31) :
    before (UInt32.ofNat m) (UInt32.ofNat n) = true ↔ m < n := by
  rw [before_iff, UInt32.toNat_sub, UInt32.toNat_ofNat', UInt32.toNat_ofNat']
  omega

end HisiRiscv.SerialNumber
