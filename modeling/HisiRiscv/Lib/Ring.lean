/-
HisiRiscv.Lib.Ring — circular buffers.

A ring of `cap` slots with a head and a count holds the slots
`head, head + 1, …` modulo `cap`; `window` lists what they hold, oldest
first. How a slot is stored is left to `get`, so that a ring over one flat
allocation and a ring over several arrays are both instances: storing
into the slot behind the last one appends to the window (`window_push`),
advancing the head removes the first element (`window_pop`).
-/
import Mathlib.Data.List.Basic
import Mathlib.Data.Nat.ModEq

namespace HisiRiscv.Ring

variable {α : Type*}

/-- The elements of a ring, oldest first. -/
def window (get : Nat → α) (cap head count : Nat) : List α :=
  (List.range count).map fun i => get ((head + i) % cap)

@[simp] theorem length_window (get : Nat → α) (cap head count : Nat) :
    (window get cap head count).length = count := by
  simp [window]

/-- The slot behind the last element is none of the elements' slots. -/
theorem slot_ne {cap head count i : Nat} (hi : i < count) (hcount : count < cap) :
    (head + i) % cap ≠ (head + count) % cap := by
  intro h
  have hcongr : i ≡ count [MOD cap] := Nat.ModEq.add_left_cancel' head h
  have heq := hcongr.eq_of_lt_of_lt (by omega) hcount
  omega

/-- Storing behind the last element appends. -/
theorem window_push {get get' : Nat → α} {cap head count : Nat} (hcount : count < cap)
    (hkeep : ∀ j < cap, j ≠ (head + count) % cap → get' j = get j) :
    window get' cap head (count + 1) =
      window get cap head count ++ [get' ((head + count) % cap)] := by
  unfold window
  rw [List.range_succ, List.map_append, List.map_singleton]
  congr 1
  apply List.map_congr_left
  intro i hi
  exact hkeep _ (Nat.mod_lt _ (by omega)) (slot_ne (List.mem_range.mp hi) hcount)

/-- Advancing the head removes the oldest element. -/
theorem window_pop (get : Nat → α) {cap head count : Nat} (hhead : head < cap)
    (hcount : 0 < count) :
    window get cap head count = get head :: window get cap ((head + 1) % cap) (count - 1) := by
  obtain ⟨n, rfl⟩ : ∃ n, count = n + 1 := ⟨count - 1, by omega⟩
  unfold window
  rw [List.range_succ_eq_map, List.map_cons, Nat.add_zero, Nat.mod_eq_of_lt hhead,
    Nat.add_sub_cancel, List.map_map]
  congr 1
  apply List.map_congr_left
  intro i _
  rw [Function.comp_apply, Nat.mod_add_mod, Nat.add_assoc, Nat.add_comm 1]

end HisiRiscv.Ring
