/-
HisiRiscv.Lib.Tiling — half-open intervals laid end to end.

`walk` follows a list of intervals from a cursor and gives up at a gap or an overlap. If it
arrives, every position between start and end lies in exactly one of the intervals, and no
other position in any (`countP_of_walk`); the count does not depend on the order, so it
may be read off any permutation. Conversely the pieces of given lengths are walked through
(`walk_pieces`), and sorting finds them in any permutation (`mergeSort_pieces`).
-/
import Mathlib.Algebra.Order.BigOperators.Group.List
import Mathlib.Data.List.Sort
import Mathlib.Tactic.Linarith

namespace HisiRiscv.Tiling

def walk (cursor : ℤ) : List (ℤ × ℤ) → Option ℤ
  | [] => some cursor
  | (start, stop) :: intervals => if start = cursor then walk stop intervals else none

/-- The position lies in the interval. -/
def holds (x : ℤ) (interval : ℤ × ℤ) : Bool := interval.1 ≤ x && x < interval.2

theorem holds_iff {x : ℤ} {interval : ℤ × ℤ} :
    holds x interval = true ↔ interval.1 ≤ x ∧ x < interval.2 := by
  simp [holds]

variable {intervals : List (ℤ × ℤ)} {cursor stop x : ℤ}

theorem le_of_walk (hpos : ∀ i ∈ intervals, i.1 < i.2) (h : walk cursor intervals = some stop) :
    cursor ≤ stop := by
  induction intervals generalizing cursor with
  | nil =>
    cases h
    exact le_rfl
  | cons i intervals ih =>
    obtain ⟨hstart, h⟩ := Option.ite_none_right_eq_some.mp h
    have hrest := ih (fun j hj => hpos j (List.mem_cons_of_mem i hj)) h
    have hi := hpos i List.mem_cons_self
    linarith

theorem countP_of_walk (hpos : ∀ i ∈ intervals, i.1 < i.2)
    (h : walk cursor intervals = some stop) :
    intervals.countP (holds x) = if cursor ≤ x ∧ x < stop then 1 else 0 := by
  induction intervals generalizing cursor with
  | nil =>
    cases h
    rw [List.countP_nil, if_neg (by omega)]
  | cons i intervals ih =>
    obtain ⟨hstart, h⟩ := Option.ite_none_right_eq_some.mp h
    have hpos' : ∀ j ∈ intervals, j.1 < j.2 := fun j hj => hpos j (List.mem_cons_of_mem i hj)
    have hle := le_of_walk hpos' h
    have hi := hpos i List.mem_cons_self
    rw [List.countP_cons, ih hpos' h]
    simp only [holds_iff]
    split_ifs <;> omega

/-! ## Pieces -/

/-- The intervals of the given lengths, from the cursor on. -/
def pieces (cursor : ℤ) : List ℤ → List (ℤ × ℤ)
  | [] => []
  | length :: lengths => (cursor, cursor + length) :: pieces (cursor + length) lengths

variable {lengths : List ℤ}

theorem walk_pieces : walk cursor (pieces cursor lengths) = some (cursor + lengths.sum) := by
  induction lengths generalizing cursor with
  | nil => simp [pieces, walk]
  | cons length lengths ih => rw [pieces, walk, if_pos rfl, ih, List.sum_cons, add_assoc]

theorem le_of_mem_pieces (hpos : ∀ l ∈ lengths, 0 < l) {i : ℤ × ℤ}
    (h : i ∈ pieces cursor lengths) :
    cursor ≤ i.1 ∧ i.1 < i.2 ∧ i.2 ≤ cursor + lengths.sum := by
  induction lengths generalizing cursor with
  | nil => cases h
  | cons length lengths ih =>
    have hlength := hpos length List.mem_cons_self
    have hpos' : ∀ l ∈ lengths, 0 < l := fun l hl => hpos l (List.mem_cons_of_mem length hl)
    have hsum : 0 ≤ lengths.sum := List.sum_nonneg fun l hl => (hpos' l hl).le
    rw [List.sum_cons]
    obtain rfl | h := List.mem_cons.mp h
    · dsimp only
      omega
    · have hrest := ih hpos' h
      omega

/-- Python's order of pairs. -/
def before (a b : ℤ × ℤ) : Bool := a.1 < b.1 || (a.1 == b.1 && a.2 ≤ b.2)

theorem before_iff {a b : ℤ × ℤ} : before a b = true ↔ a.1 < b.1 ∨ a.1 = b.1 ∧ a.2 ≤ b.2 := by
  simp [before]

theorem before_trans (a b c : ℤ × ℤ) (hab : before a b = true) (hbc : before b c = true) :
    before a c = true := by
  rw [before_iff] at *
  omega

theorem before_total (a b : ℤ × ℤ) : (before a b || before b a) = true := by
  rw [Bool.or_eq_true, before_iff, before_iff]
  omega

theorem before_antisymm {a b : ℤ × ℤ} (hab : before a b = true) (hba : before b a = true) :
    a = b := by
  rw [before_iff] at *
  exact Prod.ext (by omega) (by omega)

theorem pairwise_pieces (hpos : ∀ l ∈ lengths, 0 < l) :
    (pieces cursor lengths).Pairwise fun a b => before a b = true := by
  induction lengths generalizing cursor with
  | nil => exact .nil
  | cons length lengths ih =>
    have hlength := hpos length List.mem_cons_self
    have hpos' : ∀ l ∈ lengths, 0 < l := fun l hl => hpos l (List.mem_cons_of_mem length hl)
    refine .cons ?_ (ih hpos')
    intro i hi
    have hle := le_of_mem_pieces hpos' hi
    rw [before_iff]
    left
    dsimp only
    omega

/-- However the pieces are given, sorting puts them end to end. -/
theorem mergeSort_pieces (hpos : ∀ l ∈ lengths, 0 < l)
    (hperm : intervals.Perm (pieces cursor lengths)) :
    intervals.mergeSort before = pieces cursor lengths :=
  ((List.mergeSort_perm _ _).trans hperm).eq_of_pairwise (fun _ _ _ _ => before_antisymm)
    (List.pairwise_mergeSort before_trans before_total _) (pairwise_pieces hpos)

end HisiRiscv.Tiling
