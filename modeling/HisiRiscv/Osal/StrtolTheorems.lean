/-
HisiRiscv.Osal.StrtolTheorems — where `osal_strtol` agrees with ISO C.

Both are told by one split of the string: white space, a sign, and an unsigned part, which
begins with a prefix of `k` bytes and digits. The value always agrees (`osalStrtol_eq` and
`IsoStrtol.eq` have the same one). The end pointers differ where there is no digit after white
space or a sign, and where no hexadecimal digit follows a prefix.

  §1 The unsigned part.
  §2 What the function computes.
  §3 What the subject sequence is.
  §4 Main result.
-/
import HisiRiscv.Osal.Strtol

namespace HisiRiscv.Osal.Strtol

variable {base radix i : ℕ} {bytes tail seq rest : List UInt8}

/-! ## §1 The unsigned part -/

def isSign (c : UInt8) : Bool := isMinus c || isPlus c

def signLen (body : List UInt8) : ℕ := if body.head?.any isSign then 1 else 0

/-- What follows white space and a sign. -/
def unsignedPart (bytes : List UInt8) : List UInt8 :=
  (bytes.dropWhile isSpace).drop (signLen (bytes.dropWhile isSpace))

def negative (bytes : List UInt8) : Bool := (bytes.dropWhile isSpace).head?.any isMinus

/-- The bytes of white space and the sign. -/
def offset (bytes : List UInt8) : ℕ :=
  (bytes.takeWhile isSpace).length + signLen (bytes.dropWhile isSpace)

def startsHex : List UInt8 → Bool
  | zero :: x :: _ => zero == 0x30 && isX x
  | _ => false

/-- The prefix is one for the base. -/
def hasPrefix (base : ℕ) (tail : List UInt8) : Bool := (base == 0 || base == 16) && startsHex tail

def prefixLen (base : ℕ) (tail : List UInt8) : ℕ := if hasPrefix base tail then 2 else 0

def radixOf (base : ℕ) (tail : List UInt8) : ℕ :=
  if base = 0 then if startsHex tail then 16 else if tail.head? = some 0x30 then 8 else 10
  else base

def digitsOf (base : ℕ) (tail : List UInt8) : List UInt8 :=
  (tail.drop (prefixLen base tail)).takeWhile (isDigit (radixOf base tail))

def magnitude (base : ℕ) (tail : List UInt8) : ℕ := numeral (radixOf base tail) (digitsOf base tail)

def value (base : ℕ) (bytes : List UInt8) : ℤ :=
  if negative bytes then -magnitude base (unsignedPart bytes) else magnitude base (unsignedPart bytes)

/-! ## §2 What the function computes -/

theorem skipSpace_eq (bytes : List UInt8) (i : ℕ) : skipSpace (bytes ++ [0]) i =
    some ⟨i + (bytes.takeWhile isSpace).length, bytes.dropWhile isSpace ++ [0]⟩ := by
  induction bytes generalizing i with
  | nil => rfl
  | cons c bytes ih =>
    rw [List.cons_append, skipSpace]
    by_cases hc : isSpace c = true
    · rw [if_pos hc, ih, List.takeWhile_cons_of_pos hc, List.dropWhile_cons_of_pos hc,
        List.length_cons, Nat.add_right_comm, Nat.add_assoc]
    · rw [if_neg hc, List.takeWhile_cons_of_neg hc, List.dropWhile_cons_of_neg hc]
      rfl

theorem skipSign_eq (body : List UInt8) (i : ℕ) : skipSign ⟨i, body ++ [0]⟩ =
    some (body.head?.any isMinus, ⟨i + signLen body, body.drop (signLen body) ++ [0]⟩) := by
  cases body with
  | nil => rfl
  | cons c body =>
    have hsign : skipSign ⟨i, c :: body ++ [0]⟩ = some (isMinus c,
        if isSign c then ⟨i + 1, body ++ [0]⟩ else ⟨i, c :: body ++ [0]⟩) := rfl
    rw [hsign]
    by_cases hc : isSign c = true <;> simp [signLen, hc]

theorem atHexPrefix_eq (tail : List UInt8) (i : ℕ) :
    atHexPrefix ⟨i, tail ++ [0]⟩ = some (startsHex tail) := by
  match tail with
  | [] => rfl
  | [c] =>
    by_cases hc : c = 0x30
    · subst hc
      rfl
    · simp [atHexPrefix, Cursor.read, startsHex, hc]
  | c :: x :: tail =>
    by_cases hc : c = 0x30
    · subst hc
      rfl
    · simp [atHexPrefix, Cursor.read, startsHex, hc]

theorem skipPrefix_eq (base : ℕ) (tail : List UInt8) (i : ℕ) : skipPrefix base ⟨i, tail ++ [0]⟩ =
    some (radixOf base tail, ⟨i + prefixLen base tail, tail.drop (prefixLen base tail) ++ [0]⟩) := by
  have hadd : startsHex tail = true →
      Cursor.add ⟨i, tail ++ [0]⟩ 2 = ⟨i + 2, tail.drop 2 ++ [0]⟩ := by
    intro h
    match tail, h with
    | _ :: _ :: _, _ => rfl
  have hread : (Cursor.mk i (tail ++ [0])).read = some (tail.head?.getD 0) := by
    cases tail <;> rfl
  have hzero : tail.head?.getD 0 = 0x30 ↔ tail.head? = some 0x30 := by
    cases tail <;> simp
  unfold skipPrefix
  rw [atHexPrefix_eq, hread]
  by_cases hhex : startsHex tail = true
  · by_cases h0 : base = 0
    · simp [h0, hhex, hadd hhex, radixOf, prefixLen, hasPrefix]
    · by_cases h16 : base = 16
      · simp [h16, hhex, hadd hhex, radixOf, prefixLen, hasPrefix]
      · simp [h0, h16, radixOf, prefixLen, hasPrefix]
  · rw [Bool.not_eq_true] at hhex
    by_cases h0 : base = 0
    · by_cases hhead : tail.head? = some 0x30
      · simp [h0, hhex, radixOf, prefixLen, hasPrefix, hhead]
      · simp [h0, hhex, radixOf, prefixLen, hasPrefix, hhead, hzero]
    · by_cases h16 : base = 16
      · simp [h16, hhex, radixOf, prefixLen, hasPrefix]
      · simp [h0, h16, radixOf, prefixLen, hasPrefix]

/-- The loop stops after the digits, and its sum is right up to what wraps around. -/
theorem digitLoop_eq (radix : ℕ) (tail : List UInt8) : ∀ (i : ℕ) (acc : ℤ) (n : ℕ),
    acc.bmod (2 ^ 64) = (n : ℤ).bmod (2 ^ 64) →
    ∃ total, digitLoop radix (tail ++ [0]) i acc =
        some (i + (tail.takeWhile (isDigit radix)).length, total) ∧
      total.bmod (2 ^ 64) = (((tail.takeWhile (isDigit radix)).foldl
        (fun n c => n * radix + (digitOf c).getD 0) n : ℕ) : ℤ).bmod (2 ^ 64) := by
  induction tail with
  | nil => exact fun i acc n h => ⟨acc, rfl, h⟩
  | cons c tail ih =>
    intro i acc n h
    rw [List.cons_append, digitLoop]
    cases hd : digitOf c with
    | none =>
      rw [List.takeWhile_cons_of_neg (by simp [isDigit, hd])]
      exact ⟨acc, rfl, h⟩
    | some d =>
      by_cases hlt : radix ≤ d
      · rw [List.takeWhile_cons_of_neg (by simp [isDigit, hd, hlt])]
        exact ⟨acc, if_pos hlt, h⟩
      · rw [List.takeWhile_cons_of_pos (by simp [isDigit, hd, Nat.lt_of_not_le hlt])]
        have hnext : ((acc * radix + d).bmod (2 ^ 64)).bmod (2 ^ 64) =
            ((n * radix + d : ℕ) : ℤ).bmod (2 ^ 64) := by
          rw [Int.bmod_bmod, ← Int.bmod_add_bmod, ← Int.bmod_mul_bmod, h, Int.bmod_mul_bmod,
            Int.bmod_add_bmod]
          push_cast
          rfl
        obtain ⟨total, heq, htotal⟩ := ih (i + 1) _ _ hnext
        refine ⟨total, ?_, ?_⟩
        · simp only [if_neg hlt, heq, List.length_cons]
          rw [Nat.add_right_comm, Nat.add_assoc]
        · rw [htotal, List.foldl_cons, hd, Option.getD_some]

/-- The value, and the index after prefix and digits. -/
theorem osalStrtol_eq (bytes : List UInt8) (endp : Bool) (base : ℕ) :
    osalStrtol (some bytes) endp base = some ((value base bytes).bmod (2 ^ 32),
      if endp then some (offset bytes + prefixLen base (unsignedPart bytes) +
        (digitsOf base (unsignedPart bytes)).length) else none) := by
  have hdvd : 2 ^ 32 ∣ 2 ^ 64 := by decide
  obtain ⟨total, heq, htotal⟩ := digitLoop_eq (radixOf base (unsignedPart bytes))
    ((unsignedPart bytes).drop (prefixLen base (unsignedPart bytes)))
    (offset bytes + prefixLen base (unsignedPart bytes)) 0 0 rfl
  have hsum : total.bmod (2 ^ 64) =
    (magnitude base (unsignedPart bytes) : ℤ).bmod (2 ^ 64) := htotal
  have hvalue : (if negative bytes then (-total).bmod (2 ^ 64) else total).bmod (2 ^ 32) =
      (value base bytes).bmod (2 ^ 32) := by
    rw [value]
    split
    · rw [Int.bmod_bmod_of_dvd hdvd, ← Int.bmod_bmod_of_dvd hdvd, ← Int.bmod_neg_bmod, hsum,
        Int.bmod_neg_bmod, Int.bmod_bmod_of_dvd hdvd]
    · rw [← Int.bmod_bmod_of_dvd hdvd, hsum, Int.bmod_bmod_of_dvd hdvd]
  have hsign : skipSign ⟨0 + (bytes.takeWhile isSpace).length, bytes.dropWhile isSpace ++ [0]⟩ =
      some (negative bytes, ⟨offset bytes, unsignedPart bytes ++ [0]⟩) := by
    rw [skipSign_eq, Nat.zero_add]
    rfl
  unfold osalStrtol
  simp only [Cursor.start, skipSpace_eq, Option.bind_eq_bind, Option.bind_some, hsign,
    skipPrefix_eq, heq]
  rw [hvalue]
  rfl

/-! ## §3 What the subject sequence is -/

/-- A prefix without a hexadecimal digit after it. -/
def DanglingPrefix (base : ℕ) (tail : List UInt8) : Prop :=
  hasPrefix base tail = true ∧ ∀ c ∈ (tail.drop 2).head?, isDigit 16 c = false

/-- The length of the subject sequence without its sign; 0 where there is none. -/
def subjectLen (base : ℕ) (tail : List UInt8) : ℕ :=
  if hasPrefix base tail = true ∧ digitsOf base tail = [] then 1
  else prefixLen base tail + (digitsOf base tail).length

theorem takeWhile_eq_nil_iff_head {p : UInt8 → Bool} :
    tail.takeWhile p = [] ↔ ∀ c ∈ tail.head?, p c = false := by
  cases tail with
  | nil => simp
  | cons c tail => cases hc : p c <;> simp [hc]

theorem prefix_takeWhile {p : UInt8 → Bool} (hall : seq.all p = true) (hseq : seq <+: tail) :
    seq <+: tail.takeWhile p := by
  obtain ⟨rest, rfl⟩ := hseq
  rw [List.takeWhile_append_of_pos (List.all_eq_true.mp hall)]
  exact List.prefix_append _ _

theorem radixOf_of_hasPrefix (h : hasPrefix base tail = true) : radixOf base tail = 16 := by
  simp only [hasPrefix, Bool.and_eq_true, Bool.or_eq_true, beq_iff_eq] at h
  obtain ⟨rfl | rfl, hhex⟩ := h
  · simp [radixOf, hhex]
  · rfl

theorem exists_of_hasPrefix (h : hasPrefix base tail = true) :
    (base = 0 ∨ base = 16) ∧ ∃ x rest, tail = 0x30 :: x :: rest ∧ isX x = true := by
  simp only [hasPrefix, Bool.and_eq_true, Bool.or_eq_true, beq_iff_eq] at h
  obtain ⟨hbase, hhex⟩ := h
  match tail, hhex with
  | zero :: x :: rest, hhex =>
    simp only [startsHex, Bool.and_eq_true, beq_iff_eq] at hhex
    obtain ⟨rfl, hx⟩ := hhex
    exact ⟨hbase, x, rest, rfl, hx⟩

theorem not_isDigit_isX {x : UInt8} (hx : isX x = true) (hradix : radix ≤ 16) :
    isDigit radix x = false := by
  simp only [isX, Bool.or_eq_true, beq_iff_eq] at hx
  have h33 : ¬ (33 : ℕ) < radix := by omega
  obtain rfl | rfl := hx <;> simp [isDigit, digitOf, h33]

/-- After a prefix for the base, only the zero is one of the digits of a short radix. -/
theorem length_le_one (h : hasPrefix base tail = true) (hradix : radix ≤ 16)
    (hall : seq.all (isDigit radix) = true) (hseq : seq <+: tail) : seq.length ≤ 1 := by
  obtain ⟨-, x, rest, rfl, hx⟩ := exists_of_hasPrefix h
  have hpre := prefix_takeWhile hall hseq
  have hlen := hpre.length_le
  rw [List.takeWhile_cons, List.takeWhile_cons_of_neg (by simp [not_isDigit_isX hx hradix])] at hlen
  split at hlen
  · exact hlen
  · exact Nat.le_succ_of_le hlen

theorem subjectLen_of_not_hasPrefix (h : ¬ hasPrefix base tail = true) :
    subjectLen base tail = (tail.takeWhile (isDigit (radixOf base tail))).length := by
  simp [subjectLen, digitsOf, prefixLen, h]

/-- Without a prefix, a part of digits is at most the subject sequence, and is it if as long. -/
theorem digits_le_subjectLen (h : ¬ hasPrefix base tail = true)
    (hall : seq.all (isDigit (radixOf base tail)) = true) (hseq : seq <+: tail) :
    seq.length ≤ subjectLen base tail ∧
      (seq.length = subjectLen base tail → numeral (radixOf base tail) seq = magnitude base tail) := by
  have hpre := prefix_takeWhile hall hseq
  rw [subjectLen_of_not_hasPrefix h]
  refine ⟨hpre.length_le, fun hlen => ?_⟩
  rw [hpre.eq_of_length hlen, magnitude, digitsOf, prefixLen, if_neg h, List.drop_zero]

theorem magnitude_of_digits_nil (h : digitsOf base tail = []) : magnitude base tail = 0 := by
  rw [magnitude, h]
  rfl

/-- With a prefix, only the zero is a shorter subject sequence. -/
theorem zero_le_subjectLen (h : hasPrefix base tail = true) {n : ℕ} (hn : n = 0)
    (hseq : seq.length = 1) : seq.length ≤ subjectLen base tail ∧
      (seq.length = subjectLen base tail → n = magnitude base tail) := by
  rw [subjectLen]
  split
  · rename_i hdangling
    exact ⟨hseq.le, fun _ => hn.trans (magnitude_of_digits_nil hdangling.2).symm⟩
  · rw [prefixLen, if_pos h]
    omega

theorem isDigit_zero (hradix : 0 < radix) : isDigit radix 0x30 = true := by
  simp [isDigit, digitOf, hradix]

/-- Every part of the expected form is at most as long, and as long only with this value. -/
theorem Unsigned.le_subjectLen {n : ℕ} (h : Unsigned base seq n) (hseq : seq <+: tail) :
    seq.length ≤ subjectLen base tail ∧
      (seq.length = subjectLen base tail → n = magnitude base tail) := by
  cases h with
  | @decimal first digits hfirst hall =>
    obtain ⟨rest, rfl⟩ := hseq
    have hhex : startsHex (first :: digits ++ rest) = false := by
      cases digits with
      | nil => cases rest <;> simp [startsHex, hfirst]
      | cons => simp [startsHex, hfirst]
    have hbegins : ¬ hasPrefix 0 (first :: digits ++ rest) = true := by
      rw [hasPrefix, hhex]
      decide
    have hradix : radixOf 0 (first :: digits ++ rest) = 10 := by
      simp only [radixOf, hhex]
      simp [hfirst]
    rw [← hradix] at hall ⊢
    exact digits_le_subjectLen hbegins hall (List.prefix_append _ _)
  | @octal digits hall =>
    have hall' : (0x30 :: digits).all (isDigit 8) = true := by
      rw [List.all_cons, hall, isDigit_zero (by decide)]
      rfl
    have hnumeral : numeral 8 digits = numeral 8 (0x30 :: digits) := rfl
    by_cases hbegins : hasPrefix 0 tail = true
    · have hle := length_le_one hbegins (by decide) hall' hseq
      have hnil : digits = [] := by simpa using hle
      subst hnil
      exact zero_le_subjectLen hbegins rfl rfl
    · obtain ⟨rest, rfl⟩ := hseq
      have hhex : startsHex (0x30 :: digits ++ rest) = false := by simpa [hasPrefix] using hbegins
      have hradix : radixOf 0 (0x30 :: digits ++ rest) = 8 := by
        simp only [radixOf, hhex]
        simp
      rw [hnumeral, ← hradix]
      exact digits_le_subjectLen hbegins (hradix.symm ▸ hall') (List.prefix_append _ _)
  | @hexadecimal _ x digits hbase hx hne hall =>
    obtain ⟨rest, rfl⟩ := hseq
    have hbegins : hasPrefix base (0x30 :: x :: digits ++ rest) = true := by
      obtain rfl | rfl := hbase <;> simp [hasPrefix, startsHex, hx]
    have hdigits : digitsOf base (0x30 :: x :: digits ++ rest) = (digits ++ rest).takeWhile (isDigit 16) := by
      rw [digitsOf, prefixLen, if_pos hbegins, radixOf_of_hasPrefix hbegins]
      rfl
    have hpre : digits <+: (digits ++ rest).takeWhile (isDigit 16) :=
      prefix_takeWhile hall (List.prefix_append _ _)
    have hsome : (digits ++ rest).takeWhile (isDigit 16) ≠ [] := by
      intro hnil
      rw [hnil] at hpre
      exact hne (List.prefix_nil.mp hpre)
    have hlen := hpre.length_le
    rw [subjectLen, prefixLen, if_pos hbegins, hdigits, if_neg (fun h => hsome h.2)]
    simp only [List.length_cons]
    refine ⟨by omega, fun heq => ?_⟩
    rw [magnitude, hdigits, radixOf_of_hasPrefix hbegins, ← hpre.eq_of_length (by omega)]
  | @positional _ digits hbase hne hall =>
    by_cases hbegins : hasPrefix base tail = true
    · have h16 : base = 16 := (exists_of_hasPrefix hbegins).1.resolve_left hbase
      have hle := length_le_one hbegins h16.le hall hseq
      obtain ⟨c, rfl⟩ : ∃ c, seq = [c] := List.length_eq_one_iff.mp
        (Nat.le_antisymm hle (List.length_pos_iff.mpr hne))
      obtain ⟨-, x, rest, rfl, -⟩ := exists_of_hasPrefix hbegins
      obtain rfl : c = 0x30 := (List.cons_prefix_cons.mp hseq).1
      subst h16
      exact zero_le_subjectLen hbegins rfl rfl
    · have hradix : radixOf base tail = base := if_neg hbase
      rw [← hradix] at hall
      exact (congrArg (numeral · seq) hradix) ▸ digits_le_subjectLen hbegins hall hseq

theorem Unsigned.ne_nil {n : ℕ} (h : Unsigned base seq n) : seq ≠ [] := by
  cases h with
  | positional _ hne _ => exact hne
  | _ => exact List.cons_ne_nil _ _

theorem isSign_of_isDigit {c : UInt8} (h : isDigit radix c = true) : isSign c = false := by
  by_contra hsign
  simp only [isSign, isMinus, isPlus, Bool.not_eq_false, Bool.or_eq_true, beq_iff_eq] at hsign
  obtain rfl | rfl := hsign <;> simp [isDigit, digitOf] at h

/-- The expected form without a sign begins with a letter or digit. -/
theorem Unsigned.isSign_head {n : ℕ} (h : Unsigned base seq n) :
    ∀ c ∈ seq.head?, isSign c = false := by
  intro c hc
  cases h with
  | decimal hfirst hall =>
    obtain rfl := Option.some_inj.mp hc
    exact isSign_of_isDigit (List.all_eq_true.mp hall _ List.mem_cons_self)
  | octal hall =>
    obtain rfl := Option.some_inj.mp hc
    decide
  | hexadecimal =>
    obtain rfl := Option.some_inj.mp hc
    decide
  | positional hbase hne hall =>
    exact isSign_of_isDigit (List.all_eq_true.mp hall _ (List.mem_of_mem_head? hc))

/-- The subject sequence is one of the expected form. -/
theorem unsigned_subjectLen (h : subjectLen base tail ≠ 0) :
    Unsigned base (tail.take (subjectLen base tail)) (magnitude base tail) := by
  by_cases hbegins : hasPrefix base tail = true
  · obtain ⟨hbase, x, rest, rfl, hx⟩ := exists_of_hasPrefix hbegins
    have hradix := radixOf_of_hasPrefix hbegins
    have hdigits : digitsOf base (0x30 :: x :: rest) = rest.takeWhile (isDigit 16) := by
      rw [digitsOf, prefixLen, if_pos hbegins, hradix]
      rfl
    rw [subjectLen, prefixLen, if_pos hbegins] at *
    split
    · rename_i hdangling
      rw [magnitude_of_digits_nil hdangling.2]
      obtain rfl | rfl := hbase
      · exact Unsigned.octal rfl
      · exact Unsigned.positional (by decide) (List.cons_ne_nil 0x30 []) rfl
    · rename_i hsome
      have hne : rest.takeWhile (isDigit 16) ≠ [] := fun hnil => hsome ⟨hbegins, hdigits.trans hnil⟩
      rw [magnitude, hradix, hdigits, Nat.add_comm, List.take_succ_cons, List.take_succ_cons,
        ← List.prefix_iff_eq_take.mp (List.takeWhile_prefix _)]
      exact Unsigned.hexadecimal hbase hx hne List.all_takeWhile
  · have hradix : startsHex tail = false ∨ base ≠ 0 := by
      by_cases hbase : base = 0
      · exact .inl (by simpa [hasPrefix, hbase] using hbegins)
      · exact .inr hbase
    rw [subjectLen_of_not_hasPrefix hbegins] at h ⊢
    rw [← List.prefix_iff_eq_take.mp (List.takeWhile_prefix _), magnitude, digitsOf, prefixLen,
      if_neg hbegins, List.drop_zero]
    have hall : (tail.takeWhile (isDigit (radixOf base tail))).all (isDigit (radixOf base tail)) = true :=
      List.all_takeWhile
    have hpre := List.takeWhile_prefix (l := tail) (isDigit (radixOf base tail))
    by_cases hbase : base = 0
    · subst hbase
      have hhex := hradix.resolve_right (fun h => h rfl)
      cases hdigits : tail.takeWhile (isDigit (radixOf 0 tail)) with
      | nil => exact absurd (congrArg List.length hdigits) h
      | cons first digits =>
        rw [hdigits] at hall hpre
        obtain ⟨rest, rfl⟩ := hpre
        by_cases hfirst : first = 0x30
        · subst hfirst
          have h8 : radixOf 0 (0x30 :: digits ++ rest) = 8 := by
            rw [radixOf, hhex]
            rfl
          rw [h8] at hall ⊢
          exact Unsigned.octal (Bool.and_eq_true_iff.mp hall).2
        · have h10 : radixOf 0 (first :: digits ++ rest) = 10 := by
            rw [radixOf, hhex]
            simp [hfirst]
          rw [h10] at hall ⊢
          exact Unsigned.decimal hfirst hall
    · rw [show radixOf base tail = base from if_neg hbase] at h hall ⊢
      exact Unsigned.positional hbase (fun hnil => h (congrArg List.length hnil)) hall

theorem subjectLen_le (base : ℕ) (tail : List UInt8) : subjectLen base tail ≤ tail.length := by
  have hdigits := (List.takeWhile_prefix (l := tail.drop (prefixLen base tail))
    (isDigit (radixOf base tail))).length_le
  rw [List.length_drop] at hdigits
  by_cases hbegins : hasPrefix base tail = true
  · obtain ⟨-, x, rest, rfl, -⟩ := exists_of_hasPrefix hbegins
    rw [prefixLen, if_pos hbegins, List.length_cons, List.length_cons] at hdigits
    rw [subjectLen, digitsOf, prefixLen, if_pos hbegins, List.length_cons, List.length_cons]
    split <;> omega
  · rw [subjectLen_of_not_hasPrefix hbegins]
    exact (List.takeWhile_prefix _).length_le

theorem magnitude_of_subjectLen (h : subjectLen base tail = 0) : magnitude base tail = 0 := by
  rw [subjectLen] at h
  split at h
  · cases h
  · exact magnitude_of_digits_nil (List.length_eq_zero_iff.mp (Nat.add_eq_zero_iff.mp h).2)

/-- What follows the sign. -/
def afterSign (body : List UInt8) : List UInt8 := body.drop (signLen body)

def signed (body : List UInt8) (n : ℕ) : ℤ := if body.head?.any isMinus then -n else n

theorem Subject.le_subjectLen {body : List UInt8} {v : ℤ} (h : Subject base seq v)
    (hseq : seq <+: body) :
    signLen body < seq.length ∧ seq.length ≤ signLen body + subjectLen base (afterSign body) ∧
      (seq.length = signLen body + subjectLen base (afterSign body) →
        v = signed body (magnitude base (afterSign body))) := by
  obtain ⟨rest, rfl⟩ := hseq
  cases h with
  | @unsigned _ n h =>
    obtain ⟨c, digits, rfl⟩ := List.exists_cons_of_ne_nil h.ne_nil
    have hsign : isSign c = false := h.isSign_head c rfl
    have hlen : signLen (c :: digits ++ rest) = 0 := by simp [signLen, hsign]
    have hminus : isMinus c = false := (Bool.or_eq_false_iff.mp hsign).1
    have hafter : afterSign (c :: digits ++ rest) = c :: digits ++ rest := by
      rw [afterSign, hlen, List.drop_zero]
    obtain ⟨hle, heq⟩ := h.le_subjectLen (List.prefix_append (c :: digits) rest)
    rw [hafter, hlen, Nat.zero_add]
    refine ⟨Nat.succ_pos _, hle, fun hlong => ?_⟩
    rw [signed, heq hlong]
    simp [hminus]
  | @plus digits n h =>
    obtain ⟨hle, heq⟩ := h.le_subjectLen (List.prefix_append digits rest)
    have hlen : signLen (0x2b :: digits ++ rest) = 1 := rfl
    have hafter : afterSign (0x2b :: digits ++ rest) = digits ++ rest := rfl
    have hpos := List.length_pos_iff.mpr h.ne_nil
    rw [hafter, hlen, List.length_cons]
    refine ⟨by omega, by omega, fun hlong => ?_⟩
    rw [heq (by omega)]
    rfl
  | @minus digits n h =>
    obtain ⟨hle, heq⟩ := h.le_subjectLen (List.prefix_append digits rest)
    have hlen : signLen (0x2d :: digits ++ rest) = 1 := rfl
    have hafter : afterSign (0x2d :: digits ++ rest) = digits ++ rest := rfl
    have hpos := List.length_pos_iff.mpr h.ne_nil
    rw [hafter, hlen, List.length_cons]
    refine ⟨by omega, by omega, fun hlong => ?_⟩
    rw [heq (by omega)]
    rfl

theorem subject_of_subjectLen {body : List UInt8} (h : subjectLen base (afterSign body) ≠ 0) :
    Subject base (body.take (signLen body + subjectLen base (afterSign body)))
      (signed body (magnitude base (afterSign body))) := by
  have hunsigned := unsigned_subjectLen h
  cases body with
  | nil =>
    have hlen : signLen [] = 0 := rfl
    rw [hlen, Nat.zero_add]
    exact Subject.unsigned hunsigned
  | cons c body =>
    by_cases hsign : isSign c = true
    · have hlen : signLen (c :: body) = 1 := if_pos hsign
      have hafter : afterSign (c :: body) = body := by
        rw [afterSign, hlen]
        rfl
      rw [hafter] at hunsigned ⊢
      rw [hlen, Nat.add_comm, List.take_succ_cons]
      simp only [isSign, isMinus, isPlus, Bool.or_eq_true, beq_iff_eq] at hsign
      obtain rfl | rfl := hsign
      · exact Subject.minus hunsigned
      · exact Subject.plus hunsigned
    · have hlen : signLen (c :: body) = 0 := if_neg hsign
      have hafter : afterSign (c :: body) = c :: body := by
        rw [afterSign, hlen, List.drop_zero]
      have hminus : isMinus c = false :=
        (Bool.or_eq_false_iff.mp (Bool.eq_false_iff.mpr hsign)).1
      have hvalue : signed (c :: body) (magnitude base (afterSign (c :: body))) =
          magnitude base (afterSign (c :: body)) := by simp [signed, hminus]
      rw [hvalue, hlen, Nat.zero_add, hafter]
      rw [hafter] at hunsigned
      exact Subject.unsigned hunsigned

/-- The end pointer of ISO C. -/
def isoStop (base : ℕ) (bytes : List UInt8) : ℕ :=
  if subjectLen base (unsignedPart bytes) = 0 then 0
  else offset bytes + subjectLen base (unsignedPart bytes)

theorem split_spaces {spaces body : List UInt8} (hspaces : spaces.all isSpace = true)
    (hbody : ∀ c ∈ body.head?, isSpace c = false) :
    (spaces ++ body).takeWhile isSpace = spaces ∧ (spaces ++ body).dropWhile isSpace = body := by
  have hall := List.all_eq_true.mp hspaces
  rw [List.takeWhile_append_of_pos hall, List.dropWhile_append_of_pos hall,
    takeWhile_eq_nil_iff_head.mpr hbody, List.append_nil]
  refine ⟨rfl, ?_⟩
  cases body with
  | nil => rfl
  | cons c body => exact List.dropWhile_cons_of_neg (by simp [hbody c rfl])

theorem length_take_subject (base : ℕ) (body : List UInt8) :
    (body.take (signLen body + subjectLen base (afterSign body))).length =
      signLen body + subjectLen base (afterSign body) := by
  have hle := subjectLen_le base (afterSign body)
  have hsign : signLen body ≤ body.length := by
    cases body with
    | nil => exact Nat.le_refl 0
    | cons c body =>
      rw [signLen, List.length_cons]
      split <;> omega
  rw [afterSign, List.length_drop] at hle
  rw [List.length_take, afterSign]
  omega

/-- The value and the end pointer are the only ones that ISO C allows. -/
theorem IsoStrtol.eq {v : ℤ} {stop : ℕ} (h : IsoStrtol base bytes v stop) :
    v = value base bytes ∧ stop = isoStop base bytes := by
  cases h with
  | @converts spaces seq rest _ hspaces hhead hsubject hlongest =>
    obtain ⟨htake, hdrop⟩ := split_spaces hspaces hhead
    obtain ⟨hlt, hle, heq⟩ := hsubject.le_subjectLen (List.prefix_append seq rest)
    have hunsigned : unsignedPart (spaces ++ (seq ++ rest)) = afterSign (seq ++ rest) := by
      rw [unsignedPart, hdrop, afterSign]
    have hne : subjectLen base (afterSign (seq ++ rest)) ≠ 0 := by omega
    have hge := hlongest _ _ (List.take_prefix _ _) (subject_of_subjectLen hne)
    rw [length_take_subject] at hge
    have hlen := Nat.le_antisymm hle hge
    refine ⟨?_, ?_⟩
    · rw [heq hlen, value, hunsigned, negative, hdrop]
      rfl
    · rw [isoStop, hunsigned, if_neg hne, offset, htake, hdrop, hlen, Nat.add_assoc]
  | @noConversion spaces rest hspaces hhead hnone =>
    obtain ⟨htake, hdrop⟩ := split_spaces hspaces hhead
    have hunsigned : unsignedPart (spaces ++ rest) = afterSign rest := by
      rw [unsignedPart, hdrop, afterSign]
    have hzero : subjectLen base (afterSign rest) = 0 := by
      by_contra hne
      exact hnone _ _ (List.take_prefix _ _) (subject_of_subjectLen hne)
    rw [isoStop, value, hunsigned, magnitude_of_subjectLen hzero, if_pos hzero]
    simp

theorem isoStrtol (base : ℕ) (bytes : List UInt8) :
    IsoStrtol base bytes (value base bytes) (isoStop base bytes) := by
  have hspaces : (bytes.takeWhile isSpace).all isSpace = true := List.all_takeWhile
  have hhead : ∀ c ∈ (bytes.dropWhile isSpace).head?, isSpace c = false := by
    intro c hc
    have hnot := List.head?_dropWhile_not isSpace bytes
    rw [hc] at hnot
    exact hnot
  have hbytes : bytes.takeWhile isSpace ++ bytes.dropWhile isSpace = bytes :=
    List.takeWhile_append_dropWhile
  by_cases hzero : subjectLen base (unsignedPart bytes) = 0
  · have hnone : ∀ seq v, seq <+: bytes.dropWhile isSpace → ¬ Subject base seq v := by
      intro seq v hseq hsubject
      obtain ⟨hlt, hle, -⟩ := hsubject.le_subjectLen hseq
      rw [show subjectLen base (afterSign (bytes.dropWhile isSpace)) = 0 from hzero] at hle
      omega
    have hno := IsoStrtol.noConversion hspaces hhead hnone
    rw [hbytes] at hno
    rw [isoStop, if_pos hzero, value, magnitude_of_subjectLen hzero]
    simpa using hno
  · generalize hbody : bytes.dropWhile isSpace = body at *
    have hunsigned : unsignedPart bytes = afterSign body := by rw [unsignedPart, hbody, afterSign]
    rw [hunsigned] at hzero
    have hsubject := subject_of_subjectLen hzero
    have hlongest : ∀ seq' v', seq' <+: body.take (signLen body + subjectLen base (afterSign body)) ++
        body.drop (signLen body + subjectLen base (afterSign body)) → Subject base seq' v' →
        seq'.length ≤ (body.take (signLen body + subjectLen base (afterSign body))).length := by
      intro seq' v' hseq' hsubject'
      rw [List.take_append_drop] at hseq'
      rw [length_take_subject]
      exact (hsubject'.le_subjectLen hseq').2.1
    have hconverts := IsoStrtol.converts hspaces (by rwa [List.take_append_drop]) hsubject hlongest
    rw [List.take_append_drop, hbytes, length_take_subject, ← Nat.add_assoc] at hconverts
    rw [isoStop, value, negative, offset, hunsigned, hbody, if_neg hzero]
    exact hconverts

/-! ## §4 Main result -/

/-- The function reads nothing after the NUL, and where the value fits 32 bits, it and the end
pointer are those of ISO C. -/
def Agrees (bytes : List UInt8) (endp : Bool) (base : ℕ) : Prop :=
  ∃ value stop, osalStrtol (some bytes) endp base = some (value, stop) ∧
    ∀ value' stop', IsoStrtol base bytes value' stop' → -2 ^ 31 ≤ value' → value' < 2 ^ 31 →
      value = value' ∧ stop = if endp then some stop' else none

/-- No digit of the base begins the unsigned part. -/
def NoDigit (base : ℕ) (tail : List UInt8) : Prop :=
  ∀ c ∈ tail.head?, isDigit (if base = 0 then 10 else base) c = false

theorem eq_of_offset : offset bytes = 0 ↔ unsignedPart bytes = bytes := by
  have hbytes : bytes.takeWhile isSpace ++ bytes.dropWhile isSpace = bytes :=
    List.takeWhile_append_dropWhile
  have hlen := congrArg List.length hbytes
  rw [List.length_append] at hlen
  have hafter : (unsignedPart bytes).length =
      (bytes.dropWhile isSpace).length - signLen (bytes.dropWhile isSpace) := List.length_drop
  have hsign : signLen (bytes.dropWhile isSpace) ≤ (bytes.dropWhile isSpace).length := by
    cases bytes.dropWhile isSpace with
    | nil => exact Nat.le_refl 0
    | cons c body =>
      rw [signLen, List.length_cons]
      split <;> omega
  rw [offset]
  constructor
  · intro h
    obtain ⟨hspaces, hsign⟩ := Nat.add_eq_zero_iff.mp h
    rw [List.length_eq_zero_iff.mp hspaces, List.nil_append] at hbytes
    rw [unsignedPart, hsign, List.drop_zero, hbytes]
  · intro h
    rw [h] at hafter
    omega

theorem digits_nil_iff (h : ¬ hasPrefix base tail = true) :
    digitsOf base tail = [] ↔ NoDigit base tail := by
  rw [digitsOf, prefixLen, if_neg h, List.drop_zero, takeWhile_eq_nil_iff_head, NoDigit]
  by_cases hbase : base = 0
  · subst hbase
    have hhex : startsHex tail = false := by simpa [hasPrefix] using h
    cases tail with
    | nil => simp
    | cons c tail =>
      by_cases hc : c = 0x30
      · subst hc
        simp [radixOf, hhex, isDigit_zero]
      · simp [radixOf, hhex, hc]
  · simp [radixOf, hbase]

theorem dangling_iff (h : hasPrefix base tail = true) :
    digitsOf base tail = [] ↔ DanglingPrefix base tail := by
  rw [digitsOf, prefixLen, if_pos h, radixOf_of_hasPrefix h, takeWhile_eq_nil_iff_head,
    DanglingPrefix, and_iff_right h]

theorem not_noDigit_of_hasPrefix (h : hasPrefix base tail = true) : ¬ NoDigit base tail := by
  obtain ⟨-, x, rest, rfl, -⟩ := exists_of_hasPrefix h
  intro hno
  have hzero := hno 0x30 rfl
  rw [isDigit_zero (by split <;> omega)] at hzero
  cases hzero

/-- The stop of the code is the end pointer of ISO C, but where nothing is converted after white
space or a sign, and after a prefix without a digit. -/
theorem stop_eq_iff (bytes : List UInt8) (base : ℕ) :
    offset bytes + prefixLen base (unsignedPart bytes) + (digitsOf base (unsignedPart bytes)).length =
        isoStop base bytes ↔
      ¬ DanglingPrefix base (unsignedPart bytes) ∧
        (unsignedPart bytes = bytes ∨ ¬ NoDigit base (unsignedPart bytes)) := by
  rw [isoStop, subjectLen, ← eq_of_offset]
  by_cases hbegins : hasPrefix base (unsignedPart bytes) = true
  · have hdigit := not_noDigit_of_hasPrefix hbegins
    rw [← dangling_iff hbegins, prefixLen, if_pos hbegins]
    by_cases hnil : digitsOf base (unsignedPart bytes) = []
    · simp [hbegins, hnil]
    · simp [hnil, hdigit, Nat.add_assoc]
  · have hdangling : ¬ DanglingPrefix base (unsignedPart bytes) := fun h => hbegins h.1
    rw [← digits_nil_iff hbegins, prefixLen, if_neg hbegins]
    by_cases hnil : digitsOf base (unsignedPart bytes) = []
    · simp [hbegins, hnil, hdangling]
    · simp [hbegins, hnil, hdangling]

/-- Where the end pointers differ, the value is 0. -/
theorem value_of_stop_ne (h : offset bytes + prefixLen base (unsignedPart bytes) +
    (digitsOf base (unsignedPart bytes)).length ≠ isoStop base bytes) : value base bytes = 0 := by
  rw [ne_eq, stop_eq_iff, Classical.not_and_iff_not_or_not, not_not, not_or, not_not] at h
  have hnil : digitsOf base (unsignedPart bytes) = [] := by
    obtain hdangling | ⟨-, hno⟩ := h
    · exact (dangling_iff hdangling.1).mpr hdangling
    · exact (digits_nil_iff fun hbegins => not_noDigit_of_hasPrefix hbegins hno).mpr hno
  simp [value, magnitude_of_digits_nil hnil]

theorem agrees_iff (bytes : List UInt8) (endp : Bool) (base : ℕ) :
    Agrees bytes endp base ↔ endp = true → ¬ DanglingPrefix base (unsignedPart bytes) ∧
      (unsignedPart bytes = bytes ∨ ¬ NoDigit base (unsignedPart bytes)) := by
  rw [← stop_eq_iff]
  constructor
  · rintro ⟨v, stop, heq, hagree⟩ rfl
    by_contra hne
    have hiso := isoStrtol base bytes
    rw [osalStrtol_eq, if_pos rfl, Option.some_inj, Prod.mk.injEq] at heq
    rw [value_of_stop_ne hne] at hiso
    have hstop := (hagree 0 _ hiso (by decide) (by decide)).2
    rw [← heq.2, if_pos rfl, Option.some_inj] at hstop
    exact hne hstop
  · intro h
    refine ⟨_, _, osalStrtol_eq bytes endp base, ?_⟩
    intro v stop hiso hmin hmax
    obtain ⟨rfl, rfl⟩ := hiso.eq
    refine ⟨Int.bmod_eq_of_le (by omega) (by omega), ?_⟩
    cases endp with
    | false => rfl
    | true => rw [if_pos rfl, if_pos rfl, h rfl]

/-- `0xz`: the end pointer is after the prefix, where ISO C has it after the zero. -/
theorem not_agrees : ¬ ∀ bytes endp base, 0 ∉ bytes → (base = 0 ∨ 2 ≤ base ∧ base ≤ 36) →
    Agrees bytes endp base := by
  intro h
  obtain ⟨v, stop, heq, hagree⟩ := h [0x30, 0x78, 0x7a] true 16 (by decide) (by decide)
  have hiso := isoStrtol 16 [0x30, 0x78, 0x7a]
  rw [show value 16 [0x30, 0x78, 0x7a] = 0 by decide,
    show isoStop 16 [0x30, 0x78, 0x7a] = 1 by decide] at hiso
  have hstop := (hagree 0 1 hiso (by decide) (by decide)).2
  rw [show osalStrtol (some [0x30, 0x78, 0x7a]) true 16 = some (0, some 2) by decide,
    Option.some_inj, Prod.mk.injEq] at heq
  exact absurd (heq.2.trans hstop) (by decide)

/-- No end pointer is asked for. -/
theorem atoi_eq (bytes : List UInt8) : atoi (some bytes) = some ((value 10 bytes).bmod (2 ^ 32)) := by
  rw [atoi, osalStrtol_eq]
  rfl

end HisiRiscv.Osal.Strtol
