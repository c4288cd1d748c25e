/-
HisiRiscv.Osal.Strstr — `strstr` of `libc.rs`.

The inner loop compares the needle with the haystack from one index on, and knows no length. It
stops at the first byte that differs, and the NUL of the haystack differs from every byte of
the needle; so neither loop reads past a NUL (`matchLoop_eq`, `searchLoop_eq`).

Translation notes. A string is its bytes before the NUL, and a pointer into it is an index. A read
past the NUL is a fault, and so is a loop that does not end in the given number of rounds. Nothing is
written, so it does not matter whether the two strings share bytes.

  §1 Strings in memory.
  §2 The function.
  §3 The inner loop.
  §4 The outer loop.
-/
import HisiRiscv.Lib.Scan

namespace HisiRiscv.Osal.Strstr

open HisiRiscv.Scan

/-! ## §1 Strings in memory -/

structure CString where
  /-- the bytes before the NUL -/
  bytes : List UInt8
  no_nul : 0 ∉ bytes

inductive Fault where
  | overRead
  | outOfFuel
  deriving DecidableEq

/-- `byte(p, i)`. -/
def byte (p : CString) (i : ℕ) : Except Fault UInt8 :=
  match (p.bytes ++ [0])[i]? with
  | some c => .ok c
  | none => .error .overRead

/-! ## §2 The function -/

/-- The inner loop: the `j` at which it ends. -/
def matchLoop (h n : CString) (i : ℕ) : ℕ → ℕ → Except Fault ℕ
  | 0, _ => .error .outOfFuel
  | fuel + 1, j => do
    let c ← byte n j
    if c = 0 then .ok j
    else do
      let d ← byte h (i + j)
      if d = c then matchLoop h n i fuel (j + 1) else .ok j

/-- The outer loop: the pointer that is returned, none if it is null. -/
def searchLoop (h n : CString) : ℕ → ℕ → Except Fault (Option ℕ)
  | 0, _ => .error .outOfFuel
  | fuel + 1, i => do
    let c ← byte h i
    if c = 0 then .ok none
    else do
      let j ← matchLoop h n i fuel 0
      let c ← byte n j
      if c = 0 then .ok (some i) else searchLoop h n fuel (i + 1)

def strstr (fuel : ℕ) (haystack needle : Option CString) : Except Fault (Option ℕ) :=
  match haystack, needle with
  | some h, some n => do
    let c ← byte n 0
    if c = 0 then .ok (some 0) else searchLoop h n fuel 0
  | _, _ => .ok none

/-! ## §3 The inner loop -/

section Loops

variable {h n s : CString} {i j fuel : ℕ}

theorem byte_of_lt (hi : i < s.bytes.length) : byte s i = .ok s.bytes[i] := by
  rw [byte, List.getElem?_append_left hi, List.getElem?_eq_getElem hi]

theorem byte_length : byte s s.bytes.length = .ok 0 := by
  rw [byte, List.getElem?_concat_length]

theorem getElem_ne_zero (hi : i < s.bytes.length) : s.bytes[i] ≠ 0 :=
  fun hzero => s.no_nul (hzero ▸ List.getElem_mem hi)

theorem prefix_drop_iff : n.bytes <+: h.bytes.drop i ↔
    ∀ t < n.bytes.length, h.bytes[i + t]? = n.bytes[t]? := by
  rw [List.prefix_iff_getElem?]
  constructor
  · intro hall t ht
    rw [← List.getElem?_drop, hall t ht, List.getElem?_eq_getElem ht]
  · intro hall t ht
    rw [List.getElem?_drop, hall t ht, List.getElem?_eq_getElem ht]

variable {c d : UInt8} {k : ℕ}

theorem matchLoop_stop (hc : byte n j = .ok 0) : matchLoop h n i (fuel + 1) j = .ok j := by
  rw [matchLoop, hc]
  rfl

theorem matchLoop_differs (hc : byte n j = .ok c) (hne : c ≠ 0) (hd : byte h (i + j) = .ok d)
    (hdc : d ≠ c) : matchLoop h n i (fuel + 1) j = .ok j := by
  simp only [matchLoop, hc, hd, bind, Except.bind, hne, hdc, if_false]

theorem matchLoop_next (hc : byte n j = .ok c) (hne : c ≠ 0) (hd : byte h (i + j) = .ok c) :
    matchLoop h n i (fuel + 1) j = matchLoop h n i fuel (j + 1) := by
  simp only [matchLoop, hc, hd, bind, Except.bind, hne, if_false, if_true]

/-- It ends at the NUL of the needle if the needle is there, and before it otherwise. -/
theorem matchLoop_eq (hi : i ≤ h.bytes.length) (hjn : j ≤ n.bytes.length)
    (hmatch : ∀ t < j, h.bytes[i + t]? = n.bytes[t]?) (hfuel : n.bytes.length < fuel + j) :
    ∃ k, matchLoop h n i fuel j = .ok k ∧ k ≤ n.bytes.length ∧
      (k = n.bytes.length ↔ n.bytes <+: h.bytes.drop i) := by
  induction fuel generalizing j with
  | zero => omega
  | succ fuel ih =>
    rcases Nat.lt_or_eq_of_le hjn with hlt | rfl
    · have hneedle := byte_of_lt hlt
      have hnonzero := getElem_ne_zero hlt
      have hdiffers : h.bytes[i + j]? ≠ n.bytes[j]? → ¬ n.bytes <+: h.bytes.drop i :=
        fun hne hprefix => hne (prefix_drop_iff.mp hprefix j hlt)
      -- the bytes before `i + j` match, so these are in the haystack
      have hle : i + j ≤ h.bytes.length := by
        cases j with
        | zero => exact hi
        | succ t =>
          have hsome := hmatch t (Nat.lt_succ_self t)
          rw [List.getElem?_eq_getElem (Nat.lt_of_succ_lt hlt)] at hsome
          exact (List.getElem?_eq_some_iff.mp hsome).1
      rcases Nat.lt_or_eq_of_le hle with hin | hend
      · have hhaystack := byte_of_lt hin
        by_cases heq : h.bytes[i + j] = n.bytes[j]
        · rw [matchLoop_next hneedle hnonzero (heq ▸ hhaystack)]
          refine ih hlt (fun t ht => ?_) (by omega)
          rcases Nat.lt_or_eq_of_le (Nat.le_of_lt_succ ht) with ht | rfl
          · exact hmatch t ht
          · rw [List.getElem?_eq_getElem hin, List.getElem?_eq_getElem hlt, heq]
        · refine ⟨j, matchLoop_differs hneedle hnonzero hhaystack heq, hjn,
            iff_of_false (Nat.ne_of_lt hlt) (hdiffers ?_)⟩
          rw [List.getElem?_eq_getElem hin, List.getElem?_eq_getElem hlt]
          exact fun hsame => heq (Option.some.inj hsame)
      · have hhaystack : byte h (i + j) = .ok 0 := hend ▸ byte_length
        refine ⟨j, matchLoop_differs hneedle hnonzero hhaystack hnonzero.symm, hjn,
          iff_of_false (Nat.ne_of_lt hlt) (hdiffers ?_)⟩
        rw [List.getElem?_eq_none hend.ge, List.getElem?_eq_getElem hlt]
        exact (Option.some_ne_none _).symm
    · exact ⟨_, matchLoop_stop byte_length, Nat.le_refl _, iff_of_true rfl (prefix_drop_iff.mpr hmatch)⟩

/-! ## §4 The outer loop -/

theorem searchLoop_end (hc : byte h i = .ok 0) : searchLoop h n (fuel + 1) i = .ok none := by
  rw [searchLoop, hc]
  rfl

theorem searchLoop_found (hc : byte h i = .ok c) (hne : c ≠ 0)
    (hk : matchLoop h n i fuel 0 = .ok k) (hd : byte n k = .ok 0) :
    searchLoop h n (fuel + 1) i = .ok (some i) := by
  simp only [searchLoop, hc, hk, hd, bind, Except.bind, hne, if_false, if_true]

theorem searchLoop_next (hc : byte h i = .ok c) (hne : c ≠ 0)
    (hk : matchLoop h n i fuel 0 = .ok k) (hd : byte n k = .ok d) (hd0 : d ≠ 0) :
    searchLoop h n (fuel + 1) i = searchLoop h n fuel (i + 1) := by
  simp only [searchLoop, hc, hk, hd, bind, Except.bind, hne, hd0, if_false]

/-- It ends where the needle occurs first, or at the NUL of the haystack. -/
theorem searchLoop_eq (hne : n.bytes ≠ []) (hi : i ≤ h.bytes.length)
    (hbefore : ∀ t < i, ¬ OccursAt n.bytes h.bytes t)
    (hfuel : h.bytes.length + n.bytes.length < fuel + i) :
    ∃ result, searchLoop h n fuel i = .ok result ∧ FirstOccurrence n.bytes h.bytes result := by
  induction fuel generalizing i with
  | zero => omega
  | succ fuel ih =>
    rcases Nat.lt_or_eq_of_le hi with hlt | rfl
    · have hhaystack := byte_of_lt hlt
      have hnonzero := getElem_ne_zero hlt
      have hrounds : n.bytes.length < fuel + 0 := by omega
      obtain ⟨k, hk, hkn, hkiff⟩ := matchLoop_eq hi (Nat.zero_le _) nofun hrounds
      rcases Nat.lt_or_eq_of_le hkn with hkn | rfl
      · rw [searchLoop_next hhaystack hnonzero hk (byte_of_lt hkn) (getElem_ne_zero hkn)]
        refine ih hlt (fun t ht => ?_) (by omega)
        rcases Nat.lt_or_eq_of_le (Nat.le_of_lt_succ ht) with ht | rfl
        · exact hbefore t ht
        · exact fun hoccurs => Nat.ne_of_lt hkn (hkiff.mpr (occursAt_iff.mp hoccurs).2)
      · refine ⟨some i, searchLoop_found hhaystack hnonzero hk byte_length, ?_, nofun⟩
        rintro _ ⟨⟩
        refine ⟨occursAt_iff.mpr ⟨hi, hkiff.mp rfl⟩, fun t ht => ?_⟩
        exact Nat.le_of_not_lt fun hlt => hbefore t hlt ht
    · refine ⟨none, searchLoop_end byte_length, nofun, fun _ t ht => ?_⟩
      exact hbefore t (ht.lt_length hne) ht

theorem strstr_eq (hfuel : h.bytes.length + n.bytes.length < fuel) :
    ∃ result, strstr fuel (some h) (some n) = .ok result ∧
      FirstOccurrence n.bytes h.bytes result := by
  simp only [strstr]
  by_cases hempty : n.bytes = []
  · have hnul : byte n 0 = .ok 0 := by
      rw [byte, hempty]
      rfl
    rw [hnul]
    refine ⟨some 0, rfl, ?_, nofun⟩
    rintro _ ⟨⟩
    refine ⟨occursAt_iff.mpr ⟨Nat.zero_le _, ?_⟩, fun _ _ => Nat.zero_le _⟩
    rw [hempty]
    exact List.nil_prefix
  · have hpos := List.length_pos_of_ne_nil hempty
    rw [byte_of_lt hpos]
    simp only [bind, Except.bind, getElem_ne_zero hpos, if_false]
    exact searchLoop_eq hempty (Nat.zero_le _) nofun hfuel

/-- The pointer that is returned is at the first occurrence of the needle, and is null if there is
none; neither loop reads past a NUL or goes on for ever. -/
theorem strstr_first (haystack needle : CString) :
    ∃ result, (∀ fuel, haystack.bytes.length + needle.bytes.length < fuel →
        strstr fuel (some haystack) (some needle) = .ok result) ∧
      FirstOccurrence needle.bytes haystack.bytes result ∧
      (needle.bytes = [] → result = some 0) := by
  obtain ⟨result, -, hfirst⟩ := strstr_eq (h := haystack) (n := needle) (Nat.lt_succ_self _)
  refine ⟨result, fun fuel hfuel => ?_, hfirst, fun hempty => ?_⟩
  · obtain ⟨result', hresult, hfirst'⟩ := strstr_eq hfuel
    rw [hresult, hfirst'.unique hfirst]
  · have hoccurs : OccursAt needle.bytes haystack.bytes 0 := by
      rw [occursAt_iff, hempty]
      exact ⟨Nat.zero_le _, List.nil_prefix⟩
    cases result with
    | none => exact absurd hoccurs (hfirst.absent rfl 0)
    | some i => exact congrArg some (Nat.le_zero.mp ((hfirst.least i rfl).2 hoccurs))

end Loops

/-- The needle overlaps itself, and the first try fails within it. -/
example : strstr 9 (some ⟨[1, 1, 2, 1], by decide⟩) (some ⟨[1, 2], by decide⟩) = .ok (some 1) := rfl

end HisiRiscv.Osal.Strstr
