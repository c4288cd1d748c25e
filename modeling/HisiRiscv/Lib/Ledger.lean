/-
HisiRiscv.Lib.Ledger — lists of records under point updates.

A concurrent program is modelled with one list of records, one a thread or
one a cell, and every step rewrites one record. What is conserved over a
run is stated about the entries `l.filterMap f` the records contribute; a
step inserts an entry, erases one, or leaves them as they were. This file
has those three rules, the consequences for membership, and the same for
tables `Fin n → α`.
-/
import Mathlib.Data.List.OfFn
import Mathlib.Data.List.Perm.Subperm
import Mathlib.Data.List.Nodup

namespace HisiRiscv.Ledger

variable {α β γ : Type*}

/-! ## §1 Point updates -/

/-- A list split at an entry. -/
theorem split_at {l : List α} {i : Nat} {x : α} (hx : l[i]? = some x) :
    l = l.take i ++ x :: l.drop (i + 1) ∧ ∀ y, l.set i y = l.take i ++ y :: l.drop (i + 1) := by
  obtain ⟨hi, rfl⟩ := List.getElem?_eq_some_iff.mp hx
  refine ⟨?_, fun y => List.set_eq_take_append_cons_drop.trans (if_pos hi)⟩
  rw [List.getElem_cons_drop, List.take_append_drop]

/-- A record that contributes what it did leaves the entries as they were. -/
theorem filterMap_set_eq (f : α → Option β) {l : List α} {i : Nat} {x y : α} (hx : l[i]? = some x)
    (hf : f y = f x) : (l.set i y).filterMap f = l.filterMap f := by
  obtain ⟨hl, hset⟩ := split_at hx
  rw [hset y]
  conv_rhs => rw [hl]
  rw [List.filterMap_append, List.filterMap_append, List.filterMap_cons, List.filterMap_cons, hf]

/-- A record that starts to contribute inserts its entry. -/
theorem filterMap_set_insert (f : α → Option β) {l : List α} {i : Nat} {x y : α} {b : β}
    (hx : l[i]? = some x) (hfx : f x = none) (hfy : f y = some b) :
    ((l.set i y).filterMap f).Perm (b :: l.filterMap f) := by
  obtain ⟨hl, hset⟩ := split_at hx
  rw [hset y]
  conv_rhs => rw [hl]
  rw [List.filterMap_append, List.filterMap_append, List.filterMap_cons_some hfy,
    List.filterMap_cons_none hfx]
  exact List.perm_middle

/-- A record that stops to contribute erases its entry. -/
theorem filterMap_set_erase (f : α → Option β) {l : List α} {i : Nat} {x y : α} {b : β}
    (hx : l[i]? = some x) (hfx : f x = some b) (hfy : f y = none) :
    (l.filterMap f).Perm (b :: (l.set i y).filterMap f) := by
  obtain ⟨hl, hset⟩ := split_at hx
  rw [hset y]
  conv_lhs => rw [hl]
  rw [List.filterMap_append, List.filterMap_append, List.filterMap_cons_some hfx,
    List.filterMap_cons_none hfy]
  exact List.perm_middle

/-- A record contributes its entries beside those of the others. -/
theorem flatMap_set_split (f : α → List β) {l : List α} {i : Nat} {x : α} (hx : l[i]? = some x) :
    ∃ rest, (l.flatMap f).Perm (f x ++ rest) ∧ ∀ y, ((l.set i y).flatMap f).Perm (f y ++ rest) := by
  obtain ⟨hl, hset⟩ := split_at hx
  have hsplit : ∀ y, ((l.take i ++ y :: l.drop (i + 1)).flatMap f).Perm
      (f y ++ ((l.take i).flatMap f ++ (l.drop (i + 1)).flatMap f)) := by
    intro y
    rw [List.flatMap_append, List.flatMap_cons, ← List.append_assoc, ← List.append_assoc]
    exact List.perm_append_comm.append_right _
  refine ⟨_, ?_, fun y => (hset y) ▸ hsplit y⟩
  conv_lhs => rw [hl]
  exact hsplit x

/-- A record that contributes fewer entries adds none. -/
theorem flatMap_set_subperm (f : α → List β) {l : List α} {i : Nat} {x y : α} (hx : l[i]? = some x)
    (hf : (f y).Subperm (f x)) : ((l.set i y).flatMap f).Subperm (l.flatMap f) := by
  obtain ⟨rest, hl, hset⟩ := flatMap_set_split f hx
  exact (hset y).subperm.trans (((List.subperm_append_right rest).mpr hf).trans hl.symm.subperm)

theorem nodup_of_subperm {l l' : List α} (h : l.Subperm l') (hnd : l'.Nodup) : l.Nodup := by
  obtain ⟨m, hperm, hsub⟩ := h
  exact hperm.nodup_iff.mp (hnd.sublist hsub)

/-- Without duplicate entries, the entry determines the record. -/
theorem index_unique (f : α → Option β) {l : List α} (hnd : (l.filterMap f).Nodup) {i j : Nat}
    {x y : α} {b : β} (hx : l[i]? = some x) (hy : l[j]? = some y) (hfx : f x = some b)
    (hfy : f y = some b) : i = j := by
  have key : ∀ {i j : Nat} {x y : α}, i < j → l[i]? = some x → l[j]? = some y → f x = some b →
      f y = some b → False := by
    intro i j x y hij hx hy hfx hfy
    obtain ⟨hl, -⟩ := split_at hx
    have hy' : y ∈ l.drop (i + 1) := by
      refine List.mem_of_getElem? (i := j - (i + 1)) ?_
      rw [List.getElem?_drop, Nat.add_sub_cancel' hij, hy]
    rw [hl, List.filterMap_append, List.filterMap_cons_some hfx] at hnd
    have htail := (List.nodup_append.mp hnd).2.1
    exact (List.nodup_cons.mp htail).1 (List.mem_filterMap.mpr ⟨y, hy', hfy⟩)
  rcases Nat.lt_trichotomy i j with h | h | h
  · exact (key h hx hy hfx hfy).elim
  · exact h
  · exact (key h hy hx hfy hfx).elim

/-- After an update a record is the new one or one of the others. -/
theorem getElem?_set_cases {l : List α} {i j : Nat} {y z : α} (h : (l.set i y)[j]? = some z) :
    j = i ∧ z = y ∨ j ≠ i ∧ l[j]? = some z := by
  by_cases hij : j = i
  · subst hij
    have hlt : j < (l.set j y).length := (List.getElem?_eq_some_iff.mp h).1
    rw [List.getElem?_set_self (by simpa using hlt), Option.some_inj] at h
    exact Or.inl ⟨rfl, h.symm⟩
  · rw [List.getElem?_set_ne (Ne.symm hij)] at h
    exact Or.inr ⟨hij, h⟩

/-- A record is the one appended or one of the others. -/
theorem getElem?_append_cases {l : List α} {i : Nat} {x z : α} (h : (l ++ [x])[i]? = some z) :
    l[i]? = some z ∨ i = l.length ∧ z = x := by
  rcases Nat.lt_or_ge i l.length with hlt | hge
  · rw [List.getElem?_append_left hlt] at h
    exact Or.inl h
  · rw [List.getElem?_append_right hge] at h
    obtain ⟨hzero, hx⟩ := List.getElem?_eq_some_iff.mp h
    rw [List.length_singleton] at hzero
    rw [List.getElem_singleton] at hx
    exact Or.inr ⟨by omega, hx.symm⟩

/-- Replacing one record by another does not touch a third. -/
theorem getElem?_set_iff {l : List α} {i : Nat} {x y z : α} (hx : l[i]? = some x) (hxz : x ≠ z)
    (hyz : y ≠ z) (j : Nat) : (l.set i y)[j]? = some z ↔ l[j]? = some z := by
  by_cases hij : j = i
  · subst hij
    rw [List.getElem?_set_self (List.getElem?_eq_some_iff.mp hx).1, hx]
    exact iff_of_false (fun h => hyz (Option.some.inj h)) fun h => hxz (Option.some.inj h)
  · rw [List.getElem?_set_ne (Ne.symm hij)]

theorem mem_set_cases {l : List α} {i : Nat} {y z : α} (h : z ∈ l.set i y) : z = y ∨ z ∈ l := by
  rcases List.mem_or_eq_of_mem_set h with h | h
  · exact Or.inr h
  · exact Or.inl h

/-- The records an update does not replace stay. -/
theorem mem_set_of_ne {l : List α} {i : Nat} {x y z : α} (hx : l[i]? = some x) (hz : z ∈ l)
    (hne : z ≠ x) : z ∈ l.set i y := by
  obtain ⟨j, hj⟩ := List.mem_iff_getElem?.mp hz
  have hij : i ≠ j := by
    rintro rfl
    rw [hx, Option.some_inj] at hj
    exact hne hj.symm
  exact List.mem_of_getElem? ((List.getElem?_set_ne hij).trans hj)

theorem getElem?_of_findIdx? {p : α → Bool} {l : List α} {i : Nat} (h : l.findIdx? p = some i) :
    ∃ x, l[i]? = some x ∧ p x = true := by
  obtain ⟨hlt, hp, -⟩ := List.findIdx?_eq_some_iff_getElem.mp h
  exact ⟨l[i], List.getElem?_eq_getElem hlt, hp⟩

/-- Counting the records with a property over an update. -/
theorem countP_set (p : α → Bool) {l : List α} {i : Nat} {x : α} (hx : l[i]? = some x) (y : α) :
    (l.set i y).countP p + (if p x then 1 else 0) = l.countP p + (if p y then 1 else 0) := by
  obtain ⟨hl, hset⟩ := split_at hx
  rw [hset y]
  conv_rhs => rw [hl]
  rw [List.countP_append, List.countP_append, List.countP_cons, List.countP_cons]
  omega

theorem countP_set_toNat (p : α → Bool) {l : List α} {i : Nat} {x : α} (hx : l[i]? = some x) (y : α) :
    (l.set i y).countP p + (p x).toNat = l.countP p + (p y).toNat := by
  have h := countP_set p hx y
  have hcond : ∀ b : Bool, (if b = true then 1 else 0) = b.toNat := by decide
  rwa [hcond, hcond] at h

theorem countP_set_insert (p : α → Bool) {l : List α} {i : Nat} {x y : α} (hx : l[i]? = some x)
    (hpx : p x = false) (hpy : p y = true) : (l.set i y).countP p = l.countP p + 1 := by
  have h := countP_set p hx y
  rwa [if_neg (by simp [hpx]), if_pos hpy, Nat.add_zero] at h

theorem countP_set_eq (p : α → Bool) {l : List α} {i : Nat} {x y : α} (hx : l[i]? = some x)
    (hp : p y = p x) : (l.set i y).countP p = l.countP p := by
  have h := countP_set p hx y
  rw [hp] at h
  omega

/-- If at most one record has the property, records that have it are one. -/
theorem index_unique_of_countP {p : α → Bool} {l : List α} (hone : l.countP p ≤ 1) {i j : Nat}
    {x y : α} (hx : l[i]? = some x) (hy : l[j]? = some y) (hpx : p x = true) (hpy : p y = true) :
    i = j := by
  by_contra hij
  have hx' : (l.eraseIdx j)[if i < j then i else i - 1]? = some x := by
    rw [List.getElem?_eraseIdx]
    split <;> rename_i hlt
    · exact hx
    · rw [if_neg (by omega), show i - 1 + 1 = i by omega, hx]
  have hpos : 0 < (l.eraseIdx j).countP p := List.countP_pos_iff.mpr ⟨x, List.mem_of_getElem? hx', hpx⟩
  have hcount : l.countP p = (l.eraseIdx j).countP p + 1 := by
    obtain ⟨hl, -⟩ := split_at hy
    rw [List.eraseIdx_eq_take_drop_succ, List.countP_append]
    conv_lhs => rw [hl]
    rw [List.countP_append, List.countP_cons_of_pos hpy]
    exact (Nat.add_assoc ..).symm
  omega

/-- If records with the property are one, at most one has it. -/
theorem countP_le_one {p : α → Bool} {l : List α}
    (h : ∀ (i j : Nat) (x y : α), l[i]? = some x → l[j]? = some y → p x = true → p y = true → i = j) :
    l.countP p ≤ 1 := by
  induction l with
  | nil => exact Nat.zero_le 1
  | cons a l ih =>
    have htail : l.countP p ≤ 1 := by
      refine ih fun i j x y hx hy hpx hpy => ?_
      have := h (i + 1) (j + 1) x y hx hy hpx hpy
      omega
    cases ha : p a with
    | false => rwa [List.countP_cons_of_neg (by simp [ha])]
    | true =>
      rw [List.countP_cons_of_pos ha]
      have hnone : l.countP p = 0 := by
        refine List.countP_eq_zero.mpr fun y hy hpy => ?_
        obtain ⟨j, hj⟩ := List.mem_iff_getElem?.mp hy
        have := h 0 (j + 1) a y rfl hj ha hpy
        omega
      omega

/-! ## §2 Tables -/

theorem ofFn_update {n : Nat} (g : Fin n → α) (i : Fin n) (x : α) :
    List.ofFn (Function.update g i x) = (List.ofFn g).set i x := by
  apply List.ext_getElem (by simp)
  intro k h₁ h₂
  rw [List.getElem_ofFn, List.getElem_set, List.getElem_ofFn, Function.update_apply]
  by_cases hk : (i : Nat) = k
  · rw [if_pos hk, if_pos (Fin.ext hk.symm)]
  · rw [if_neg hk, if_neg (fun h => hk (congrArg Fin.val h).symm)]

theorem getElem?_ofFn_fin {n : Nat} (g : Fin n → α) (i : Fin n) :
    (List.ofFn g)[(i : Nat)]? = some (g i) := by
  rw [List.getElem?_ofFn, dif_pos i.isLt]

end HisiRiscv.Ledger
