/-
HisiRiscv.Lib.Rejection — numbers below a bound, drawn by rejection.

A draw makes a number of an answer of the source, or rejects it. It is uniform if every number below
the bound is drawn from equally many answers, and no other number from any. A remainder is uniform
(`uniformBelow_mod`), and it stays so when the numbers from a smaller bound on are rejected
(`UniformBelow.reject`); if that bound is at least half of the first, so are the answers that are
accepted (`UniformBelow.half_accepted`).
-/
import Mathlib.SetTheory.Cardinal.Finite
import Mathlib.Algebra.BigOperators.Group.Finset.Basic
import Mathlib.Data.Fintype.BigOperators

namespace HisiRiscv.Rejection

variable {α β : Type*} {draw : α → Option ℕ} {bound m n N : ℕ}

/-- Each number below the bound is drawn from `n` answers. -/
def UniformBelow (draw : α → Option ℕ) (bound n : ℕ) : Prop :=
  ∀ x, Nat.card {a // draw a = some x} = if x < bound then n else 0

theorem UniformBelow.comp_equiv (h : UniformBelow draw bound n) (e : β ≃ α) :
    UniformBelow (fun b => draw (e b)) bound n := by
  intro x
  rw [← h x]
  exact Nat.card_congr (e.subtypeEquiv fun _ => Iff.rfl)

/-- The numbers below `N * n` whose remainder is `x`. -/
def remainderEquiv {x : ℕ} (hx : x < N) (n : ℕ) :
    Fin n ≃ {v : Fin (N * n) // some (v.val % N) = some x} where
  toFun q := ⟨⟨x + N * q, by
    have hle := Nat.mul_le_mul_left N (Nat.succ_le_of_lt q.isLt)
    rw [Nat.mul_succ] at hle
    omega⟩, by rw [Nat.add_mul_mod_self_left, Nat.mod_eq_of_lt hx]⟩
  invFun v := ⟨v.1.val / N, Nat.div_lt_of_lt_mul v.1.isLt⟩
  left_inv q := by
    ext
    dsimp only
    rw [Nat.add_mul_div_left _ _ (Nat.zero_lt_of_lt hx), Nat.div_eq_of_lt hx, Nat.zero_add]
  right_inv := by
    rintro ⟨v, hv⟩
    ext
    dsimp only
    rw [← Option.some.inj hv]
    exact Nat.mod_add_div _ _

theorem uniformBelow_mod (N n : ℕ) : UniformBelow (fun v : Fin (N * n) => some (v.val % N)) N n := by
  intro x
  split
  · rename_i hx
    rw [← Nat.card_congr (remainderEquiv hx n), Nat.card_fin]
  · rename_i hx
    have hempty : IsEmpty {v : Fin (N * n) // some (v.val % N) = some x} := by
      refine ⟨fun ⟨v, hv⟩ => hx ?_⟩
      rw [← Option.some.inj hv]
      exact Nat.mod_lt _ (Nat.pos_of_mul_pos_right (Nat.zero_lt_of_lt v.isLt))
    exact Nat.card_of_isEmpty

theorem UniformBelow.reject (h : UniformBelow draw bound n) (hm : m ≤ bound) :
    UniformBelow (fun a => (draw a).filter (· < m)) m n := by
  intro x
  simp only [Option.filter_eq_some_iff, decide_eq_true_eq]
  by_cases hx : x < m
  · rw [if_pos hx, ← (h x).trans (if_pos (Nat.lt_of_lt_of_le hx hm))]
    exact Nat.card_congr (Equiv.subtypeEquivRight fun _ => and_iff_left hx)
  · have hempty : IsEmpty {a // draw a = some x ∧ x < m} := ⟨fun a => hx a.2.2⟩
    rw [if_neg hx]
    exact Nat.card_of_isEmpty

theorem UniformBelow.lt_bound [Finite α] (h : UniformBelow draw bound n) {a : α} {x : ℕ}
    (hx : draw a = some x) : x < bound := by
  by_contra hge
  have hnone := (h x).trans (if_neg hge)
  have : Nonempty {a // draw a = some x} := ⟨a, hx⟩
  exact Nat.card_pos.ne' hnone

/-- An answer that is accepted, by the number that is drawn from it. -/
def acceptedEquiv (hlt : ∀ a x, draw a = some x → x < bound) :
    {a // (draw a).isSome = true} ≃ (x : Fin bound) × {a // draw a = some x.val} where
  toFun a := ⟨⟨(draw a.1).get a.2, hlt a.1 _ (Option.some_get _).symm⟩, a.1, (Option.some_get _).symm⟩
  invFun p := ⟨p.2.1, by rw [p.2.2]; rfl⟩
  left_inv _ := rfl
  right_inv := by
    rintro ⟨⟨x, hx⟩, a, ha⟩
    exact Sigma.subtype_ext (Fin.ext (by simp only [ha, Option.get_some])) rfl

theorem UniformBelow.card_accepted [Finite α] (h : UniformBelow draw bound n) :
    Nat.card {a // (draw a).isSome = true} = bound * n := by
  have hfiber : ∀ x ∈ (Finset.univ : Finset (Fin bound)), Nat.card {a // draw a = some x.val} = n :=
    fun x _ => (h x).trans (if_pos x.isLt)
  rw [Nat.card_congr (acceptedEquiv fun _ _ => h.lt_bound), Nat.card_sigma,
    Finset.sum_const_nat hfiber, Finset.card_univ, Fintype.card_fin]

/-- Of the answers at least half are accepted. -/
theorem UniformBelow.half_accepted [Finite α] (h : UniformBelow draw bound n)
    (htotal : Nat.card α = N * n) (hN : N ≤ 2 * bound) :
    Nat.card α ≤ 2 * Nat.card {a // (draw a).isSome = true} := by
  rw [htotal, h.card_accepted, ← Nat.mul_assoc]
  exact Nat.mul_le_mul_right n hN

end HisiRiscv.Rejection
