/-
HisiRiscv.Lib.Scan — scanning a text from left to right for the matches of a pattern.

A pattern answers at each position with the length of its match and what it has read.
`scan` gives the text as copied characters and matches, from which replacing
and finding are read off. A part in which no match begins is copied
(`scan_append_silent`). A list that is not empty occurs in another one before its end
(`OccursAt.lt_length`).

  §1 Scanning.
  §2 Silent parts.
  §3 Occurrences.
-/
import Mathlib.Data.List.Infix
import Mathlib.Order.Bounds.Defs

namespace HisiRiscv.Scan

/-! ## §1 Scanning -/

variable {α β : Type*}

section Scanning

variable (m : List α → Option (ℕ × β))

/-- The scan, after `skip` more characters of a match. -/
def scanFrom : ℕ → List α → List (α ⊕ β)
  | _, [] => []
  | skip + 1, _ :: l => scanFrom skip l
  | 0, c :: l =>
    match m (c :: l) with
    | none => .inl c :: scanFrom 0 l
    | some (n, x) => .inr x :: scanFrom (n - 1) l

def scan (l : List α) : List (α ⊕ β) := scanFrom m 0 l

/-- The matches, as `re.finditer` gives them. -/
def findAll (l : List α) : List β := (scan m l).filterMap Sum.getRight?

end Scanning

/-- Puts texts in the place of the matches, as `re.sub` does. -/
def substituteAll (replace : β → List α) (parts : List (α ⊕ β)) : List α :=
  parts.flatMap fun part => part.elim (fun c => [c]) replace

variable {m : List α → Option (ℕ × β)} {l a b : List α} {c : α} {n : ℕ} {x : β}

@[simp] theorem scan_nil : scan m [] = [] := rfl

theorem scanFrom_eq : scanFrom m n l = scan m (l.drop n) := by
  induction l generalizing n with
  | nil => cases n <;> rfl
  | cons c l ih =>
    cases n with
    | zero => rfl
    | succ n => rw [scanFrom, ih, List.drop_succ_cons]

theorem scan_cons_none (h : m (c :: l) = none) : scan m (c :: l) = .inl c :: scan m l := by
  rw [scan, scanFrom, h]
  rfl

theorem scan_some (h : m l = some (n, x)) (hn : 0 < n) (hl : l ≠ []) :
    scan m l = .inr x :: scan m (l.drop n) := by
  obtain ⟨c, l, rfl⟩ := List.exists_cons_of_ne_nil hl
  obtain ⟨n, rfl⟩ := Nat.exists_eq_succ_of_ne_zero hn.ne'
  rw [scan, scanFrom, h]
  simp only [Nat.succ_sub_one, scanFrom_eq, Nat.succ_eq_add_one, List.drop_succ_cons]

@[simp] theorem substituteAll_map_inl {replace : β → List α} :
    substituteAll replace (l.map .inl) = l := by
  simp [substituteAll, List.flatMap_map]

theorem substituteAll_append {replace : β → List α} {parts parts' : List (α ⊕ β)} :
    substituteAll replace (parts ++ parts') =
      substituteAll replace parts ++ substituteAll replace parts' := by
  simp [substituteAll]

/-! ## §2 Silent parts -/

/-- No match begins in `a`, which `b` follows. -/
def Silent (m : List α → Option (ℕ × β)) (a b : List α) : Prop :=
  ∀ s, s ≠ [] → s <:+ a → m (s ++ b) = none

theorem Silent.suffix (h : Silent m a b) (hl : l <:+ a) : Silent m l b :=
  fun s hne hs => h s hne (hs.trans hl)

theorem Silent.cons (h : m (c :: (a ++ b)) = none) (h' : Silent m a b) : Silent m (c :: a) b := by
  intro s hne hs
  obtain rfl | hs := List.suffix_cons_iff.mp hs
  · exact h
  · exact h' s hne hs

theorem Silent.append {r : List α} (h : Silent m a (b ++ r)) (h' : Silent m b r) :
    Silent m (a ++ b) r := by
  induction a with
  | nil => exact h'
  | cons c a ih =>
    apply Silent.cons
    · simpa using h (c :: a) (by simp) List.suffix_rfl
    · exact ih (h.suffix (List.suffix_cons c a))

theorem scan_append_silent (h : Silent m a b) : scan m (a ++ b) = a.map .inl ++ scan m b := by
  induction a with
  | nil => rfl
  | cons c a ih =>
    have hnone := h (c :: a) (by simp) List.suffix_rfl
    rw [List.cons_append] at hnone
    rw [List.cons_append, scan_cons_none hnone, ih (h.suffix (List.suffix_cons c a)),
      List.map_cons, List.cons_append]

/-! ## §3 Occurrences -/

section Occurrences

variable {needle : List α} {i : ℕ}

/-- `needle` is the part of `l` that begins at `i`. -/
def OccursAt (needle l : List α) (i : ℕ) : Prop :=
  ∃ before after, l = before ++ needle ++ after ∧ before.length = i

/-- The least index at which `needle` occurs, or none. -/
structure FirstOccurrence (needle l : List α) (result : Option ℕ) : Prop where
  least : ∀ i, result = some i → IsLeast {i | OccursAt needle l i} i
  absent : result = none → ∀ i, ¬ OccursAt needle l i

theorem occursAt_iff : OccursAt needle l i ↔ i ≤ l.length ∧ needle <+: l.drop i := by
  constructor
  · rintro ⟨before, after, rfl, rfl⟩
    rw [List.append_assoc, List.drop_left, List.length_append]
    exact ⟨Nat.le_add_right _ _, List.prefix_append _ _⟩
  · rintro ⟨hi, after, hafter⟩
    refine ⟨l.take i, after, ?_, List.length_take_of_le hi⟩
    rw [List.append_assoc, hafter, List.take_append_drop]

theorem OccursAt.lt_length (h : OccursAt needle l i) (hne : needle ≠ []) : i < l.length := by
  obtain ⟨before, after, rfl, rfl⟩ := h
  have hpos := List.length_pos_of_ne_nil hne
  rw [List.length_append, List.length_append]
  omega

theorem FirstOccurrence.unique {result result' : Option ℕ} (h : FirstOccurrence needle l result)
    (h' : FirstOccurrence needle l result') : result = result' := by
  cases result with
  | none =>
    cases result' with
    | none => rfl
    | some j => exact absurd (h'.least j rfl).1 (h.absent rfl j)
  | some i =>
    cases result' with
    | none => exact absurd (h.least i rfl).1 (h'.absent rfl i)
    | some j =>
      have hleast := h.least i rfl
      have hleast' := h'.least j rfl
      exact congrArg some (Nat.le_antisymm (hleast.2 hleast'.1) (hleast'.2 hleast.1))

end Occurrences

end HisiRiscv.Scan
