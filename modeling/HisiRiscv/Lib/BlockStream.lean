/-
HisiRiscv.Lib.BlockStream — left-to-right absorption of a stream in
fixed-size blocks.

`absorb f n s xs` feeds every complete `n`-element block of `xs` to the
compression function `f` and returns the chaining state together with
the residue, the elements that do not fill a block yet. Two facts carry
every streaming argument:

* `absorb_append` — a stream may be cut anywhere: absorbing `xs ++ ys`
  is absorbing `ys` behind the residue of `xs`;
* `absorb_eq_foldl` — a stream of complete blocks is a plain left fold
  over its blocks, the form a specification states.

Nothing here names a hash function or a program.
-/
import Mathlib.Tactic.Ring

namespace HisiRiscv.BlockStream

variable {σ α : Type*} (f : σ → List α → σ) (n : Nat)

/-- Feed every complete block of `xs` to `f`, front to back. The residue
is what is left once fewer than `n` elements remain. -/
def absorb (s : σ) (xs : List α) : σ × List α :=
  if _h : 0 < n ∧ n ≤ xs.length then absorb (f s (xs.take n)) (xs.drop n)
  else (s, xs)
termination_by xs.length
decreasing_by grind

/-- The `i`-th block of a stream. -/
def block (xs : List α) (i : Nat) : List α := (xs.drop (n * i)).take n

/-- The complete blocks of a stream, in order. -/
def blocks (xs : List α) : List (List α) :=
  (List.range (xs.length / n)).map (block n xs)

variable {f n}

/-- Less than one block changes nothing. -/
theorem absorb_short (s : σ) (xs : List α) (h : xs.length < n) :
    absorb f n s xs = (s, xs) := by
  rw [absorb, dif_neg (by omega)]

/-- One complete block is split off the front. -/
theorem absorb_step (hn : 0 < n) (s : σ) (xs : List α) (h : n ≤ xs.length) :
    absorb f n s xs = absorb f n (f s (xs.take n)) (xs.drop n) := by
  rw [absorb, dif_pos ⟨hn, h⟩]

/-- A block that is exactly full is absorbed and leaves no residue. -/
theorem absorb_full (hn : 0 < n) (s : σ) (xs : List α) (h : xs.length = n) :
    absorb f n s xs = (f s xs, []) := by
  rw [absorb_step hn s xs (by omega), List.take_of_length_le (by omega),
      List.drop_of_length_le (by omega), absorb_short _ _ (by simpa using hn)]

/-- Absorption may be interrupted at any point of the stream. -/
theorem absorb_append (hn : 0 < n) (s : σ) (xs ys : List α) :
    absorb f n s (xs ++ ys) =
      absorb f n (absorb f n s xs).1 ((absorb f n s xs).2 ++ ys) := by
  induction s, xs using absorb.induct f n with
  | case1 s xs h ih =>
    have hle : n ≤ (xs ++ ys).length := by rw [List.length_append]; omega
    rw [absorb_step hn s (xs ++ ys) hle, absorb_step hn s xs h.2, ← ih,
        List.take_append_of_le_length h.2, List.drop_append_of_le_length h.2]
  | case2 s xs h => rw [absorb_short s xs (by omega)]

/-- The residue is the input's length modulo the block size long. -/
theorem residue_length (hn : 0 < n) (s : σ) (xs : List α) :
    (absorb f n s xs).2.length = xs.length % n := by
  induction s, xs using absorb.induct f n with
  | case1 s xs h ih =>
    rw [absorb_step hn s xs h.2, ih, List.length_drop, ← Nat.mod_eq_sub_mod h.2]
  | case2 s xs h => rw [absorb_short s xs (by omega), Nat.mod_eq_of_lt (by omega)]

/-! ## Streams of complete blocks -/

theorem block_zero (xs : List α) : block n xs 0 = xs.take n := by
  simp [block]

theorem block_drop (xs : List α) (i : Nat) :
    block n (xs.drop n) i = block n xs (i + 1) := by
  simp only [block, List.drop_drop]
  rw [show n + n * i = n * (i + 1) by ring]

/-- The blocks of a stream are its first block and the blocks behind it. -/
theorem blocks_cons (hn : 0 < n) {xs : List α} (h : n ≤ xs.length) :
    blocks n xs = xs.take n :: blocks n (xs.drop n) := by
  have hdiv : xs.length / n = (xs.length - n) / n + 1 := Nat.div_eq_sub_div hn h
  have hblocks : block n (xs.drop n) = block n xs ∘ Nat.succ := by
    funext i
    exact block_drop xs i
  simp only [blocks, List.length_drop, hdiv, List.range_succ_eq_map,
    List.map_cons, List.map_map, block_zero, hblocks]

/-- A stream of complete blocks is absorbed without residue, as a left
fold of the compression function over its blocks. -/
theorem absorb_eq_foldl (hn : 0 < n) (s : σ) (xs : List α) (h : n ∣ xs.length) :
    absorb f n s xs = ((blocks n xs).foldl f s, []) := by
  induction s, xs using absorb.induct f n with
  | case1 s xs hx ih =>
    have hd : n ∣ (xs.drop n).length := by
      rw [List.length_drop]
      exact Nat.dvd_sub h (Nat.dvd_refl n)
    rw [absorb_step hn s xs hx.2, ih hd, blocks_cons hn hx.2, List.foldl_cons]
  | case2 s xs hx =>
    have hz : xs.length = 0 := Nat.eq_zero_of_dvd_of_lt h (by omega)
    have hnil : xs = [] := List.length_eq_zero_iff.mp hz
    subst hnil
    rw [absorb_short _ _ (by simpa using hn)]
    simp [blocks]

end HisiRiscv.BlockStream
