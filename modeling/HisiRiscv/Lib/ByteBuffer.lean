/-
HisiRiscv.Lib.ByteBuffer — stores into fixed-size arrays.

`copyAt` is `buf[pos..pos + src.len()].copy_from_slice(src)`, one element
after the other. A copy replaces the window it covers and nothing else
(`toList_copyAt`), and a loop that stores consecutive elements is a copy
(`foldl_set!_eq_copyAt`).

`store?` is a store that may be out of bounds, into an array given by the list of its
elements. A loop of such stores that stays in bounds overwrites a window (`storeLoop?_eq`), and
windows side by side are one (`overwrite_overwrite`).
-/
import Mathlib.Data.List.Basic

namespace HisiRiscv.ByteBuffer

/-- `buf[pos..pos + src.len()].copy_from_slice(src)`, byte by byte. -/
def copyAt {n : Nat} (buf : Vector UInt8 n) (pos : Nat) (src : List UInt8) : Vector UInt8 n :=
  match src with
  | [] => buf
  | b :: src => copyAt (buf.set! pos b) (pos + 1) src

theorem getElem!_set! {α : Type} [Inhabited α] {n : Nat} (w : Vector α n) (i j : Nat) (x : α)
    (hi : i < n) : (w.set! i x)[j]! = if i = j then x else w[j]! := by
  by_cases hj : j < n
  · rw [getElem!_pos (w.set! i x) j hj, getElem!_pos w j hj, Vector.set!_eq_setIfInBounds,
        Vector.getElem_setIfInBounds]
  · rw [getElem!_neg (w.set! i x) j hj, getElem!_neg w j hj, if_neg (by omega)]

/-- A `for i in 0..m { w[i] = f(i) }` loop. -/
theorem foldl_set!_range {α : Type} [Inhabited α] {n : Nat} (f : Nat → α) (w : Vector α n) (m : Nat)
    (hm : m ≤ n) (t : Nat) :
    ((List.range m).foldl (fun w i => w.set! i (f i)) w)[t]! = if t < m then f t else w[t]! := by
  induction m with
  | zero => simp
  | succ m ih =>
    rw [List.range_succ, List.foldl_append, List.foldl_cons, List.foldl_nil,
        getElem!_set! _ _ _ _ (by omega), ih (by omega)]
    by_cases h : m = t
    · subst h; simp
    · rw [if_neg h]
      by_cases ht : t < m
      · rw [if_pos ht, if_pos (by omega)]
      · rw [if_neg ht, if_neg (by omega)]

/-- A copy replaces the window it covers and nothing else. -/
theorem toList_copyAt {n : Nat} (src : List UInt8) : ∀ (buf : Vector UInt8 n) (pos : Nat),
    pos + src.length ≤ n →
    (copyAt buf pos src).toList =
      buf.toList.take pos ++ src ++ buf.toList.drop (pos + src.length) := by
  induction src with
  | nil => intro buf pos _; simp [copyAt]
  | cons b src ih =>
    intro buf pos h
    rw [List.length_cons] at h
    have hset : (buf.set! pos b).toList = buf.toList.set pos b := by
      rw [Vector.set!_eq_setIfInBounds, Vector.toList_setIfInBounds]
    rw [copyAt, ih _ _ (by omega), hset, List.take_set, List.take_add_one,
        List.getElem?_eq_getElem (by simp; omega), List.drop_set_of_lt (by omega)]
    simp only [Option.toList_some, List.set_append, List.length_take, Vector.length_toList]
    rw [if_neg (by omega), show pos - min pos n = 0 by omega, List.set_cons_zero]
    simp [Nat.add_assoc, Nat.add_comm 1]

/-- The window of a copy, together with what stands in front of it. -/
theorem take_copyAt {n : Nat} (buf : Vector UInt8 n) (pos : Nat) (src : List UInt8)
    (h : pos + src.length ≤ n) :
    (copyAt buf pos src).toList.take (pos + src.length) = buf.toList.take pos ++ src := by
  have hl : (buf.toList.take pos ++ src).length = pos + src.length := by simp; omega
  rw [toList_copyAt _ _ _ h, ← hl, List.take_left]

theorem copyAt_append {n : Nat} (xs ys : List UInt8) : ∀ (buf : Vector UInt8 n) (pos : Nat),
    copyAt buf pos (xs ++ ys) = copyAt (copyAt buf pos xs) (pos + xs.length) ys := by
  induction xs with
  | nil => intro buf pos; rfl
  | cons x xs ih =>
    intro buf pos
    rw [List.cons_append, copyAt, ih, copyAt, List.length_cons]
    congr 1
    omega

/-- A loop that stores consecutive bytes is a copy. -/
theorem foldl_set!_eq_copyAt {n : Nat} (g : Nat → UInt8) (pos : Nat) (buf : Vector UInt8 n) (m : Nat) :
    (List.range m).foldl (fun buf i => buf.set! (pos + i) (g i)) buf =
      copyAt buf pos ((List.range m).map g) := by
  induction m with
  | zero => rfl
  | succ m ih =>
    rw [List.range_succ, List.foldl_append, ih, List.map_append, copyAt_append]
    simp [copyAt]

/-! ## Stores that may be out of bounds -/

section Checked

variable {α : Type*} {array xs ys : List α} {pos n : ℕ}

def store? (array : List α) (i : ℕ) (x : α) : Option (List α) :=
  if i < array.length then some (array.set i x) else none

/-- A `for i in 0..n { array[pos + i] = value(i) }` loop. -/
def storeLoop? (value : ℕ → Option α) (array : List α) (pos n : ℕ) : Option (List α) :=
  (List.range n).foldlM (fun array i => (value i).bind (store? array (pos + i))) array

/-- The array with `xs` from `pos` on. -/
def overwrite (array : List α) (pos : ℕ) (xs : List α) : List α :=
  array.take pos ++ (xs ++ array.drop (pos + xs.length))

@[simp] theorem overwrite_nil (array : List α) (pos : ℕ) : overwrite array pos [] = array :=
  List.take_append_drop pos array

theorem length_overwrite (h : pos + xs.length ≤ array.length) :
    (overwrite array pos xs).length = array.length := by
  simp only [overwrite, List.length_append, List.length_take, List.length_drop]
  omega

theorem overwrite_overwrite (h : pos + xs.length + ys.length ≤ array.length) :
    overwrite (overwrite array pos xs) (pos + xs.length) ys = overwrite array pos (xs ++ ys) := by
  have hpos : (array.take pos).length = pos := by
    rw [List.length_take]
    omega
  have htake : (overwrite array pos xs).take (pos + xs.length) = array.take pos ++ xs := by
    rw [overwrite, ← List.append_assoc]
    exact List.take_left' (by rw [List.length_append, hpos])
  have hdrop : (overwrite array pos xs).drop (pos + xs.length + ys.length) =
      array.drop (pos + (xs ++ ys).length) := by
    rw [← List.drop_drop, overwrite, ← List.append_assoc,
      List.drop_left' (by rw [List.length_append, hpos]), List.drop_drop, List.length_append,
      Nat.add_assoc]
  rw [overwrite, htake, hdrop, overwrite, List.append_assoc, List.append_assoc]

theorem overwrite_zero (h : xs.length = array.length) : overwrite array 0 xs = xs := by
  rw [overwrite, Nat.zero_add, h, List.drop_length, List.append_nil, List.take_zero, List.nil_append]

theorem store?_eq (h : pos < array.length) (x : α) : store? array pos x = some (overwrite array pos [x]) := by
  rw [store?, if_pos h, List.set_eq_take_append_cons_drop, if_pos h]
  rfl

/-- One store behind a window. -/
theorem store?_overwrite (h : pos + xs.length < array.length) (x : α) :
    store? (overwrite array pos xs) (pos + xs.length) x = some (overwrite array pos (xs ++ [x])) := by
  have hsplit : overwrite (overwrite array pos xs) (pos + xs.length) [x] = _ := overwrite_overwrite h
  rw [store?_eq (by rw [length_overwrite (Nat.le_of_lt h)]; exact h), hsplit]

/-- A loop of stores overwrites a window. -/
theorem storeLoop?_eq {value : ℕ → Option α} {f : ℕ → α} (h : pos + n ≤ array.length)
    (hvalue : ∀ i < n, value i = some (f i)) :
    storeLoop? value array pos n = some (overwrite array pos ((List.range n).map f)) := by
  induction n with
  | zero =>
    rw [List.range_zero, List.map_nil, overwrite_nil]
    rfl
  | succ n ih =>
    have hloop := ih (by omega) fun i hi => hvalue i (by omega)
    have hlen : ((List.range n).map f).length = n := by simp
    rw [storeLoop?, List.range_succ, List.foldlM_append]
    rw [storeLoop?] at hloop
    rw [hloop]
    have hroom : pos + ((List.range n).map f).length < array.length := by
      rw [hlen]
      omega
    have hstore := store?_overwrite hroom (f n)
    rw [hlen] at hstore
    simp [hvalue n (Nat.lt_succ_self n), hstore]

end Checked

end HisiRiscv.ByteBuffer
