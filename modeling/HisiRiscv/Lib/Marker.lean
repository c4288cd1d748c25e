/-
HisiRiscv.Lib.Marker — the first occurrence of a marker in a growing log.

`find` is the position of the first occurrence, `trim` drops what stands before it and
keeps a log without one, `fresh` is what a reader may rely on: nothing, before
the marker has come. Trimming commutes with appending once the marker is in the
log (`trim_append`), so a log may be trimmed while it grows. `trim_suffix_fresh_iff`
says when a trimmed log is fresh with respect to a longer one.
-/
import Mathlib.Data.List.Infix

namespace HisiRiscv.Marker

variable {α : Type*} [DecidableEq α] {marker l l' : List α} {i : ℕ}

def find (marker : List α) : List α → Option ℕ
  | [] => if marker = [] then some 0 else none
  | a :: l => if marker <+: a :: l then some 0 else (find marker l).map (· + 1)

/-- What stands from the first occurrence on; the whole log if there is none. -/
def trim (marker l : List α) : List α := (find marker l).elim l l.drop

/-- What stands from the first occurrence on; nothing if there is none. -/
def fresh (marker l : List α) : List α := (find marker l).elim [] l.drop

/-- Occurrences that do not overlap, from the left; `skip` elements belong to one
that has been counted. -/
def countFrom (marker : List α) : ℕ → List α → ℕ
  | _, [] => 0
  | 0, a :: l =>
    if marker <+: a :: l then countFrom marker (marker.length - 1) l + 1 else countFrom marker 0 l
  | skip + 1, _ :: l => countFrom marker skip l

def count (marker l : List α) : ℕ := countFrom marker 0 l

theorem prefix_drop_of_find (h : find marker l = some i) : marker <+: l.drop i := by
  induction l generalizing i with
  | nil =>
    obtain ⟨hnil, -⟩ := Option.ite_none_right_eq_some.mp h
    simp [hnil]
  | cons a l ih =>
    rw [find] at h
    split at h
    · rename_i hpre
      cases h
      exact hpre
    · obtain ⟨j, hj, rfl⟩ := Option.map_eq_some_iff.mp h
      exact ih hj

/-- It is the first occurrence. -/
theorem find_le {j : ℕ} (h : find marker l = some i) (hj : marker <+: l.drop j) : i ≤ j := by
  induction l generalizing i j with
  | nil =>
    obtain ⟨-, hi⟩ := Option.ite_none_right_eq_some.mp h
    cases hi
    exact Nat.zero_le j
  | cons a l ih =>
    rw [find] at h
    split at h
    · cases h
      exact Nat.zero_le j
    · rename_i hpre
      obtain ⟨k, hk, rfl⟩ := Option.map_eq_some_iff.mp h
      cases j with
      | zero => exact absurd hj hpre
      | succ j => exact Nat.succ_le_succ (ih hk hj)

theorem exists_find_of_prefix_drop {j : ℕ} (hj : marker <+: l.drop j) :
    ∃ i, find marker l = some i := by
  induction l generalizing j with
  | nil =>
    have hnil : marker = [] := by simpa using hj
    exact ⟨0, if_pos hnil⟩
  | cons a l ih =>
    rw [find]
    split
    · exact ⟨0, rfl⟩
    · rename_i hpre
      cases j with
      | zero => exact absurd hj hpre
      | succ j =>
        obtain ⟨i, hi⟩ := ih hj
        exact ⟨i + 1, by rw [hi, Option.map_some]⟩

omit [DecidableEq α] in
theorem infix_iff_prefix_drop : marker <:+: l ↔ ∃ j, marker <+: l.drop j := by
  rw [List.infix_iff_prefix_suffix]
  constructor
  · rintro ⟨t, hpre, hsuf⟩
    exact ⟨l.length - t.length, List.suffix_iff_eq_drop.mp hsuf ▸ hpre⟩
  · rintro ⟨j, hpre⟩
    exact ⟨_, hpre, List.drop_suffix j l⟩

theorem find_isSome_iff : (find marker l).isSome ↔ marker <:+: l := by
  rw [Option.isSome_iff_exists, infix_iff_prefix_drop]
  constructor
  · rintro ⟨i, hi⟩
    exact ⟨i, prefix_drop_of_find hi⟩
  · rintro ⟨j, hj⟩
    exact exists_find_of_prefix_drop hj

theorem find_eq_none_iff : find marker l = none ↔ ¬ marker <:+: l := by
  rw [← find_isSome_iff]
  simp

theorem trim_of_absent (h : ¬ marker <:+: l) : trim marker l = l := by
  rw [trim, find_eq_none_iff.mpr h, Option.elim_none]

theorem fresh_of_absent (h : ¬ marker <:+: l) : fresh marker l = [] := by
  rw [fresh, find_eq_none_iff.mpr h, Option.elim_none]

theorem trim_eq_fresh (h : marker <:+: l) : trim marker l = fresh marker l := by
  obtain ⟨i, hi⟩ := Option.isSome_iff_exists.mp (find_isSome_iff.mpr h)
  rw [trim, fresh, hi, Option.elim_some, Option.elim_some]

theorem trim_suffix : trim marker l <:+ l := by
  unfold trim
  cases find marker l with
  | none => exact List.suffix_refl l
  | some i => exact List.drop_suffix i l

theorem fresh_suffix : fresh marker l <:+ l := by
  unfold fresh
  cases find marker l with
  | none => exact List.nil_suffix
  | some i => exact List.drop_suffix i l

theorem find_append (h : find marker l = some i) : find marker (l ++ l') = some i := by
  induction l generalizing i with
  | nil =>
    obtain ⟨hnil, hi⟩ := Option.ite_none_right_eq_some.mp h
    cases hi
    subst hnil
    cases l' with
    | nil => exact if_pos rfl
    | cons a l' => exact if_pos List.nil_prefix
  | cons a l ih =>
    rw [find] at h
    rw [List.cons_append, find]
    split at h
    · rename_i hpre
      have hfront : marker <+: a :: (l ++ l') := hpre.trans (List.prefix_append (a :: l) l')
      rw [if_pos hfront, h]
    · rename_i hpre
      obtain ⟨j, hj, rfl⟩ := Option.map_eq_some_iff.mp h
      -- an occurrence at the front would end inside `a :: l`
      have hlen : marker.length ≤ (a :: l).length := by
        have hle := (prefix_drop_of_find hj).length_le
        rw [List.length_drop] at hle
        rw [List.length_cons]
        omega
      have hpre' : ¬ marker <+: a :: (l ++ l') := by
        intro hfront
        exact hpre (List.prefix_of_prefix_length_le hfront (List.prefix_append (a :: l) l') hlen)
      rw [if_neg hpre', ih hj, Option.map_some]

theorem find_le_length (h : find marker l = some i) : i ≤ l.length := by
  by_contra hlt
  have hmem := prefix_drop_of_find h
  have hle := find_le h (j := l.length)
  rw [List.drop_eq_nil_of_le (by omega)] at hmem
  rw [List.drop_length] at hle
  exact hlt (hle hmem)

/-- A log that holds the marker may be trimmed before it grows. -/
theorem fresh_append (h : marker <:+: l) : fresh marker (l ++ l') = fresh marker l ++ l' := by
  obtain ⟨i, hi⟩ := Option.isSome_iff_exists.mp (find_isSome_iff.mpr h)
  rw [fresh, fresh, hi, find_append hi, Option.elim_some, Option.elim_some,
    List.drop_append_of_le_length (find_le_length hi)]

theorem fresh_prefix_append : fresh marker l <+: fresh marker (l ++ l') := by
  by_cases h : marker <:+: l
  · rw [fresh_append h]
    exact List.prefix_append _ _
  · rw [fresh_of_absent h]
    exact List.nil_prefix

/-- A trimmed log is fresh with respect to a longer one. -/
theorem trim_suffix_fresh_iff {s : List α} (hl : l <:+ s) :
    trim marker l <:+ fresh marker s ↔ l = [] ∨ marker <:+: s := by
  constructor
  · intro h
    by_cases hs : marker <:+: s
    · exact .inr hs
    · have hmarker : ¬ marker <:+: l := fun hin => hs (hin.trans hl.isInfix)
      rw [trim_of_absent hmarker, fresh_of_absent hs] at h
      exact .inl (List.suffix_nil.mp h)
  · rintro (rfl | hs)
    · have hnil : trim marker ([] : List α) = [] := List.suffix_nil.mp trim_suffix
      rw [hnil]
      exact List.nil_suffix
    · obtain ⟨p, hp⟩ := Option.isSome_iff_exists.mp (find_isSome_iff.mpr hs)
      have hfresh : fresh marker s = s.drop p := by rw [fresh, hp, Option.elim_some]
      have hsuffix : trim marker l <:+ s := trim_suffix.trans hl
      -- both are suffixes of `s`: it is enough to compare where they begin
      obtain ⟨r, hr⟩ : ∃ r, trim marker l = s.drop r := ⟨_, List.suffix_iff_eq_drop.mp hsuffix⟩
      have hpr : p ≤ r ∨ trim marker l = [] := by
        by_cases hin : marker <:+: l
        · left
          obtain ⟨i, hi⟩ := Option.isSome_iff_exists.mp (find_isSome_iff.mpr hin)
          have hpre : marker <+: trim marker l := by
            rw [trim, hi, Option.elim_some]
            exact prefix_drop_of_find hi
          exact find_le hp (hr ▸ hpre)
        · by_contra hcon
          obtain ⟨hlt, -⟩ := not_or.mp hcon
          rw [trim_of_absent hin] at hr
          have hpre := prefix_drop_of_find hp
          have hdrop : s.drop p <:+ s.drop r := List.drop_suffix_drop_left s (by omega)
          exact hin (hr ▸ hpre.isInfix.trans hdrop.isInfix)
      rw [hfresh]
      obtain hpr | hnil := hpr
      · rw [hr]
        exact List.drop_suffix_drop_left s hpr
      · exact hnil ▸ List.nil_suffix

end HisiRiscv.Marker
