/-
HisiRiscv.Lib.Greedy — a cursor that takes the earliest match of each group.

The groups are looked for in their order, each one at or after the cursor, which then
stands behind the match. Where the search gives the earliest match (`Earliest`), the
groups are found if and only if they occur at increasing positions at all
(`greedy_isSome_iff`): an earlier match leaves all the room that a later one leaves.
-/
import Mathlib.Data.List.Forall2

namespace HisiRiscv.Greedy

variable {ι : Type*} {occurs : ι → ℕ → Prop} {find : ι → ℕ → Option ℕ}

/-- `find` gives the earliest position of a group at or after the cursor. -/
structure Earliest (occurs : ι → ℕ → Prop) (find : ι → ℕ → Option ℕ) : Prop where
  sound {group : ι} {cursor position : ℕ} :
    find group cursor = some position → cursor ≤ position ∧ occurs group position
  least {group : ι} {cursor position : ℕ} :
    occurs group position → cursor ≤ position → ∃ p ≤ position, find group cursor = some p

/-- The positions that the cursor takes. -/
def greedy (find : ι → ℕ → Option ℕ) (cursor : ℕ) : List ι → Option (List ℕ)
  | [] => some []
  | group :: groups =>
    (find group cursor).bind fun position =>
      (greedy find (position + 1) groups).map (position :: ·)

/-- The groups occur at the positions, which increase from the cursor on. -/
structure Ordered (occurs : ι → ℕ → Prop) (cursor : ℕ) (groups : List ι) (positions : List ℕ) :
    Prop where
  occurring : List.Forall₂ occurs groups positions
  increasing : positions.Pairwise (· < ·)
  behind : ∀ p ∈ positions, cursor ≤ p

theorem ordered_of_greedy (search : Earliest occurs find) {groups : List ι} {cursor : ℕ}
    {positions : List ℕ} (found : greedy find cursor groups = some positions) :
    Ordered occurs cursor groups positions := by
  induction groups generalizing cursor positions with
  | nil =>
    cases found
    exact ⟨.nil, .nil, by simp⟩
  | cons group groups ih =>
    obtain ⟨p, hp, rest⟩ := Option.bind_eq_some_iff.mp found
    obtain ⟨ps, hps, rfl⟩ := Option.map_eq_some_iff.mp rest
    obtain ⟨hle, hocc⟩ := search.sound hp
    obtain ⟨occurring, increasing, behind⟩ := ih hps
    refine ⟨.cons hocc occurring, List.pairwise_cons.mpr ⟨behind, increasing⟩, ?_⟩
    intro q hq
    rcases List.mem_cons.mp hq with rfl | hq
    · exact hle
    · exact Nat.le_trans hle (Nat.le_of_succ_le (behind q hq))

/-- The exchange: the earliest match of the first group stands no later than the first
position, so the other positions are still behind it. -/
theorem greedy_isSome_of_ordered (search : Earliest occurs find) {groups : List ι} {cursor : ℕ}
    {positions : List ℕ} (ordered : Ordered occurs cursor groups positions) :
    (greedy find cursor groups).isSome := by
  obtain ⟨occurring, increasing, behind⟩ := ordered
  induction occurring generalizing cursor with
  | nil => rfl
  | @cons group q groups qs hocc occurring ih =>
    obtain ⟨hq, increasing⟩ := List.pairwise_cons.mp increasing
    obtain ⟨p, hpq, hp⟩ := search.least hocc (behind q List.mem_cons_self)
    have rest : ∀ q' ∈ qs, p + 1 ≤ q' := fun q' hq' => Nat.lt_of_le_of_lt hpq (hq q' hq')
    rw [greedy, hp, Option.bind_some, Option.isSome_map]
    exact ih increasing rest

theorem greedy_isSome_iff (search : Earliest occurs find) {groups : List ι} {cursor : ℕ} :
    (greedy find cursor groups).isSome ↔ ∃ positions, Ordered occurs cursor groups positions := by
  constructor
  · intro found
    obtain ⟨positions, h⟩ := Option.isSome_iff_exists.mp found
    exact ⟨positions, ordered_of_greedy search h⟩
  · rintro ⟨positions, ordered⟩
    exact greedy_isSome_of_ordered search ordered

end HisiRiscv.Greedy
