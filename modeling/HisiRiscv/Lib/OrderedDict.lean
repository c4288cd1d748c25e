/-
HisiRiscv.Lib.OrderedDict — lists of values with a key, as dictionaries that keep their
order.

`insert` puts a value in the place of the one with its key, or at the end; `ofList` inserts
one after another. Keys stay unique (`nodup_foldl_insert`), and a value is there exactly if it
was inserted, or was there before and no value with its key was inserted
(`mem_foldl_insert`).
-/
import Mathlib.Data.List.Nodup

namespace HisiRiscv.OrderedDict

variable {α κ : Type*} [DecidableEq κ] (key : α → κ)

def insert (values : List α) (value : α) : List α :=
  match values with
  | [] => [value]
  | other :: values =>
    if key other = key value then value :: values else other :: insert values value

def ofList (values : List α) : List α := values.foldl (insert key) []

variable {key} {values new : List α} {value x : α}

theorem mem_insert (h : (values.map key).Nodup) :
    x ∈ insert key values value ↔ x = value ∨ x ∈ values ∧ key x ≠ key value := by
  induction values with
  | nil => simp [insert]
  | cons other values ih =>
    rw [List.map_cons, List.nodup_cons] at h
    rw [insert]
    split
    · rename_i hkey
      have hother : ∀ y ∈ values, key y ≠ key value := by
        intro y hy heq
        exact h.1 (List.mem_map.mpr ⟨y, hy, heq.trans hkey.symm⟩)
      simp only [List.mem_cons]
      constructor
      · rintro (hx | hx)
        · exact .inl hx
        · exact .inr ⟨.inr hx, hother x hx⟩
      · rintro (hx | ⟨rfl | hx, hne⟩)
        · exact .inl hx
        · exact absurd hkey hne
        · exact .inr hx
    · rename_i hkey
      simp only [List.mem_cons, ih h.2]
      constructor
      · rintro (rfl | hx | ⟨hx, hne⟩)
        · exact .inr ⟨.inl rfl, hkey⟩
        · exact .inl hx
        · exact .inr ⟨.inr hx, hne⟩
      · rintro (hx | ⟨rfl | hx, hne⟩)
        · exact .inr (.inl hx)
        · exact .inl rfl
        · exact .inr (.inr ⟨hx, hne⟩)

theorem nodup_insert (h : (values.map key).Nodup) :
    ((insert key values value).map key).Nodup := by
  induction values with
  | nil => simp [insert]
  | cons other values ih =>
    rw [List.map_cons, List.nodup_cons] at h
    rw [insert]
    split
    · rename_i hkey
      rw [List.map_cons, ← hkey]
      exact List.nodup_cons.mpr h
    · rename_i hkey
      rw [List.map_cons, List.nodup_cons]
      refine ⟨?_, ih h.2⟩
      intro hmem
      obtain ⟨y, hy, heq⟩ := List.mem_map.mp hmem
      obtain rfl | ⟨hy, -⟩ := (mem_insert h.2).mp hy
      · exact hkey heq.symm
      · exact h.1 (List.mem_map.mpr ⟨y, hy, heq⟩)

theorem nodup_foldl_insert (h : (values.map key).Nodup) :
    ((new.foldl (insert key) values).map key).Nodup := by
  induction new generalizing values with
  | nil => exact h
  | cons value new ih => exact ih (nodup_insert h)

theorem mem_foldl_insert (h : (values.map key).Nodup) (hnew : (new.map key).Nodup) :
    x ∈ new.foldl (insert key) values ↔ x ∈ new ∨ x ∈ values ∧ key x ∉ new.map key := by
  induction new generalizing values with
  | nil => simp
  | cons value new ih =>
    rw [List.map_cons, List.nodup_cons] at hnew
    rw [List.foldl_cons, ih (nodup_insert h) hnew.2, mem_insert h]
    simp only [List.mem_cons, List.map_cons, not_or]
    constructor
    · rintro (hx | ⟨rfl | ⟨hx, hne⟩, hnotin⟩)
      · exact .inl (.inr hx)
      · exact .inl (.inl rfl)
      · exact .inr ⟨hx, hne, hnotin⟩
    · rintro ((rfl | hx) | ⟨hx, hne, hnotin⟩)
      · exact .inr ⟨.inl rfl, hnew.1⟩
      · exact .inl hx
      · exact .inr ⟨.inr ⟨hx, hne⟩, hnotin⟩

theorem mem_ofList (h : (values.map key).Nodup) : x ∈ ofList key values ↔ x ∈ values := by
  rw [ofList, mem_foldl_insert (by simp) h]
  simp

theorem nodup_ofList : ((ofList key values).map key).Nodup := nodup_foldl_insert (by simp)

end HisiRiscv.OrderedDict
