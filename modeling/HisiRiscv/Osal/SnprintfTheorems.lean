/-
HisiRiscv.Osal.SnprintfTheorems — what `snprintf_s` writes, and when it is what ISO C renders.

The loop is compared with `spell`, which goes over fields and has neither a format nor a buffer:
`loop_eq` says that they agree, one directive after the other (`turn_convert`, `turn_copied`).
What `spell` ends with is then read off the lengths alone.

  §1 Additions and stores.
  §2 Digits and widths.
  §3 A format that is cut.
  §4 One field.
  §5 One directive.
  §6 The whole format.
  §7 The law.
-/
import Mathlib.Data.Nat.Digits.Lemmas
import HisiRiscv.Osal.Snprintf

namespace HisiRiscv.Osal.Snprintf

open ByteBuffer

/-! ## §1 Additions and stores -/

section Stores

variable {α β : Type} {a b limit : ℕ} {memory text bytes : List UInt8}

@[simp] theorem ok_bind (x : α) (f : α → Except Fault β) : (Except.ok x >>= f) = f x := rfl

@[simp] theorem error_bind (e : Fault) (f : α → Except Fault β) :
    ((Except.error e : Except Fault α) >>= f) = .error e := rfl

@[simp] theorem pure_eq_ok (x : α) : (pure x : Except Fault α) = .ok x := rfl

theorem add_ok (h : a + b ≤ usizeMax) : add a b = .ok (a + b) := if_pos h

theorem add_overflow (h : usizeMax < a + b) : add a b = .error .overflow := if_neg (by omega)

/-- The output after a text. -/
def after (memory text : List UInt8) : Output := ⟨overwrite memory 0 text, text.length⟩

@[simp] theorem after_index : (after memory text).index = text.length := rfl

theorem store_after (h : text.length < memory.length) (byte : UInt8) :
    store (overwrite memory 0 text) text.length byte = .ok (overwrite memory 0 (text ++ [byte])) := by
  have hstore : store? (overwrite memory 0 text) (0 + text.length) byte = _ :=
    store?_overwrite (by omega) byte
  rw [Nat.zero_add] at hstore
  rw [store, hstore]

theorem write_after (h : text.length < memory.length) (hmax : text.length < usizeMax) (byte : UInt8) :
    (after memory text).write byte = .ok (after memory (text ++ [byte])) := by
  rw [Output.write, after, store_after h, ok_bind, add_ok hmax, ok_bind, after, List.length_append]
  rfl

/-- A loop of stores that stay below the limit. -/
theorem writes_after (hroom : limit < memory.length) (hmax : limit < usizeMax) :
    ∀ {text : List UInt8}, text.length + bytes.length ≤ limit →
      bytes.foldlM Output.write (after memory text) = .ok (after memory (text ++ bytes)) := by
  induction bytes with
  | nil =>
    intro text _
    rw [List.append_nil]
    rfl
  | cons byte bytes ih =>
    intro text h
    rw [List.length_cons] at h
    have hlen : (text ++ [byte]).length + bytes.length ≤ limit := by
      rw [List.length_append, List.length_singleton]
      omega
    rw [List.foldlM_cons, write_after (by omega) (by omega), ok_bind, ih hlen, List.append_assoc]
    rfl

theorem writeBytes_after (hroom : limit < memory.length) (hmax : limit < usizeMax) :
    writeBytes limit bytes (after memory text) =
      if usizeMax < text.length + bytes.length then .error .overflow
      else if text.length + bytes.length ≤ limit then .ok (some (after memory (text ++ bytes)))
      else .ok none := by
  by_cases hover : usizeMax < text.length + bytes.length
  · rw [if_pos hover, writeBytes, after, add_overflow hover, error_bind]
  · rw [if_neg hover, writeBytes]
    rw [after_index, add_ok (by omega), ok_bind]
    by_cases hfits : text.length + bytes.length ≤ limit
    · rw [if_neg (by omega), if_pos hfits, writes_after hroom hmax hfits]
      rfl
    · rw [if_pos (by omega), if_neg hfits]
      rfl

end Stores

/-! ## §2 Digits and widths -/

section Digits

variable {radix n room : ℕ}

/-- The digits of a number, the lowest first. -/
theorem numeral_reverse (hradix : 1 < radix) : (numeral radix n).reverse =
    digitByte (n % radix) :: if n / radix = 0 then [] else (numeral radix (n / radix)).reverse := by
  by_cases hn : n = 0
  · subst hn
    rw [numeral, if_pos rfl, Nat.zero_mod, Nat.zero_div, if_pos rfl]
    rfl
  · rw [numeral, if_neg hn, List.reverse_reverse, Nat.digits_def' hradix (Nat.pos_of_ne_zero hn),
      List.map_cons]
    by_cases hq : n / radix = 0
    · rw [if_pos hq, hq, Nat.digits_zero, List.map_nil]
    · rw [if_neg hq, numeral, if_neg hq, List.reverse_reverse]

theorem digitLoop_eq (hradix : 1 < radix) : ∀ {n : ℕ} {digits : List UInt8}, 0 < room →
    n < radix ^ room → digitLoop radix room n digits = .ok (digits ++ (numeral radix n).reverse) := by
  induction room with
  | zero => exact fun h => absurd h (lt_irrefl 0)
  | succ room ih =>
    intro n digits _ hn
    rw [digitLoop, numeral_reverse hradix]
    by_cases hq : n / radix = 0
    · rw [if_pos hq, if_pos hq]
    · rw [if_neg hq, if_neg hq]
      have hlt : n / radix < radix ^ room := by
        rw [pow_succ'] at hn
        exact Nat.div_lt_of_lt_mul hn
      have hroom : 0 < room := by
        by_contra h
        rw [show room = 0 by omega, pow_zero] at hlt
        exact hq (Nat.lt_one_iff.mp hlt)
      rw [ih hroom hlt, List.append_assoc]
      rfl

/-- A 32-bit word has at most ten digits. -/
theorem digitLoop_word (conversion : Conversion) (hn : n < 2 ^ 32) :
    digitLoop (HisiRiscv.Osal.Snprintf.radix conversion) 10 n [] =
      .ok (numeral (HisiRiscv.Osal.Snprintf.radix conversion) n).reverse := by
  have h16 : n < 16 ^ 10 := by omega
  have h10 : n < 10 ^ 10 := by omega
  rw [HisiRiscv.Osal.Snprintf.radix]
  by_cases hx : conversion = .x
  · rw [if_pos hx]
    exact digitLoop_eq (by omega) (by omega) h16
  · rw [if_neg hx]
    exact digitLoop_eq (by omega) (by omega) h10

theorem saturating_step (n d : ℕ) :
    saturatingAdd (saturatingMul (min n usizeMax) 10) d = min (n * 10 + d) usizeMax := by
  rw [saturatingAdd, saturatingMul, usizeMax]
  omega

/-- The loop over a width, which sums up to `usize::MAX` at most. -/
theorem widthLoop_eq {rest : List UInt8} (hrest : ∀ byte ∈ rest.head?, isDigit byte = false) :
    ∀ {width : List UInt8} {conversionEnd n : ℕ}, width.all isDigit = true →
      conversionEnd + width.length ≤ usizeMax →
      widthLoop (width ++ rest) conversionEnd (min n usizeMax) =
        .ok (conversionEnd + width.length,
          min (width.foldl (fun n digit => n * 10 + (digit.toNat - 0x30)) n) usizeMax) := by
  intro width
  induction width with
  | nil =>
    intro conversionEnd n _ _
    cases rest with
    | nil => rfl
    | cons byte rest =>
      rw [List.nil_append, widthLoop, hrest byte rfl]
      rfl
  | cons digit width ih =>
    intro conversionEnd n hall hend
    rw [List.all_cons, Bool.and_eq_true] at hall
    rw [List.length_cons] at hend
    rw [List.cons_append, widthLoop, if_pos hall.1, add_ok (by omega), ok_bind, saturating_step,
      ih hall.2 (by omega), List.foldl_cons, List.length_cons, Nat.add_assoc, Nat.add_comm 1]

end Digits

/-! ## §3 A format that is cut -/

section Cut

variable {rest : List UInt8} {ds : List Directive} {args : List Argument}

@[simp] theorem formatBytes_cons (d : Directive) (ds : List Directive) :
    formatBytes (d :: ds) = d.bytes ++ formatBytes ds := List.flatMap_cons

theorem formatBytes_copied (bytes : List UInt8) :
    formatBytes (bytes.map Directive.copied) = bytes := by
  induction bytes with
  | nil => rfl
  | cons byte bytes ih =>
    rw [List.map_cons, formatBytes_cons, ih]
    rfl

theorem formatBytes_cut (ds : List Directive) :
    ∀ n, formatBytes (cut n ds) = (formatBytes ds).take n := by
  induction ds with
  | nil => exact fun n => List.take_nil.symm
  | cons d ds ih =>
    intro n
    rw [cut, formatBytes_cons, List.take_append]
    by_cases h : d.bytes.length ≤ n
    · rw [if_pos h, formatBytes_cons, ih, List.take_of_length_le h]
    · rw [if_neg h, formatBytes_copied, show n - d.bytes.length = 0 by omega, List.take_zero,
        List.append_nil]

theorem isDigit_byte (conversion : Conversion) : isDigit conversion.byte = false := by
  cases conversion <;> rfl

theorem conversionOf_byte (conversion : Conversion) :
    conversionOf conversion.byte = some conversion := by
  cases conversion <;> rfl

theorem Unsupported.take (h : Unsupported rest) (n : ℕ) : Unsupported (rest.take n) where
  percent := by
    rw [List.head?_take]
    split
    · exact (Option.some_ne_none _).symm
    · exact h.percent
  convert := fun zero width conversion hwidth hpre =>
    h.convert zero width conversion hwidth (hpre.trans (List.take_prefix n rest))

/-- A `%` with digits only. -/
theorem unsupported_digits (h : rest.all isDigit = true) : Unsupported rest where
  percent := by
    cases rest with
    | nil => exact (Option.some_ne_none _).symm
    | cons byte rest =>
      rintro hhead
      rw [List.head?_cons, Option.some.injEq] at hhead
      rw [hhead, List.all_cons] at h
      exact absurd h Bool.false_ne_true
  convert := by
    rintro zero width conversion _ hpre
    have hmem : conversion.byte ∈ rest := hpre.subset (by simp)
    rw [List.all_eq_true] at h
    exact absurd (h _ hmem) (by rw [isDigit_byte]; exact Bool.false_ne_true)

theorem formed_copied : ∀ {bytes : List UInt8}, bytes.all isDigit = true →
    Formed (bytes.map Directive.copied)
  | [], _ => trivial
  | byte :: bytes, h => by
    rw [List.all_cons, Bool.and_eq_true] at h
    refine ⟨?_, formed_copied h.2⟩
    rintro rfl
    exact absurd h.1 Bool.false_ne_true

theorem flag_digits (zero : Bool) : (flag zero).all isDigit = true := by
  cases zero <;> rfl

/-- What is left of a directive at the end of a format is a format. -/
theorem formed_part {d : Directive} (hd : Formed [d]) {n : ℕ} (hn : n < d.bytes.length) :
    Formed ((d.bytes.take n).map Directive.copied) := by
  match d, n with
  | d, 0 => exact trivial
  | .copied byte, n + 1 => exact absurd hn (by simp [Directive.bytes])
  | .percent, 1 => exact ⟨fun _ => unsupported_digits rfl, trivial⟩
  | .percent, n + 2 => exact absurd hn (by simp [Directive.bytes])
  | .convert zero width conversion, n + 1 =>
    have hlen : n ≤ (flag zero ++ width).length := by
      simp only [Directive.bytes, List.length_cons, List.length_append, List.length_nil] at hn ⊢
      omega
    have htake : (Directive.convert zero width conversion).bytes.take (n + 1) =
        0x25 :: (flag zero ++ width).take n := by
      rw [Directive.bytes, List.take_succ_cons, ← List.append_assoc, List.take_append_of_le_length hlen]
    have hdigits : ((flag zero ++ width).take n).all isDigit = true := by
      have hall : (flag zero ++ width).all isDigit = true := by
        rw [List.all_append, flag_digits, hd.1.digits]
        rfl
      rw [List.all_eq_true] at hall ⊢
      exact fun byte hbyte => hall byte (List.mem_of_mem_take hbyte)
    rw [htake, List.map_cons]
    refine ⟨fun _ => ?_, formed_copied hdigits⟩
    rw [formatBytes_copied]
    exact unsupported_digits hdigits

theorem formed_cut : ∀ {ds : List Directive}, Formed ds → ∀ n, Formed (cut n ds)
  | [], _, _ => trivial
  | d :: ds, h, n => by
    rw [cut]
    split
    next hle =>
      match d, h with
      | .copied byte, h =>
        refine ⟨fun hbyte => ?_, formed_cut h.2 _⟩
        rw [formatBytes_cut]
        exact (h.1 hbyte).take _
      | .percent, h =>
        have hds : Formed ds := h
        exact formed_cut hds _
      | .convert zero width conversion, h => exact ⟨h.1, formed_cut h.2 _⟩
    next hgt =>
      refine formed_part ?_ (Nat.lt_of_not_le hgt)
      match d, h with
      | .copied byte, h => exact ⟨fun _ => unsupported_digits rfl, trivial⟩
      | .percent, h => exact trivial
      | .convert zero width conversion, h => exact ⟨h.1, trivial⟩

theorem resolve_cons {d : Directive} {field : Field} {args' : List Argument}
    (h : d.field? args = some (field, args')) :
    resolve (d :: ds) args = (resolve ds args').map (field :: ·) := by
  rw [resolve, h]
  exact (Option.map_eq_bind ..).symm

theorem exists_of_resolve_cons {d : Directive} {fields : List Field}
    (h : resolve (d :: ds) args = some fields) :
    ∃ field args' fields', d.field? args = some (field, args') ∧ resolve ds args' = some fields' ∧
      fields = field :: fields' := by
  rw [resolve, Option.bind_eq_bind, Option.bind_eq_some_iff] at h
  obtain ⟨⟨field, args'⟩, hfield, h⟩ := h
  rw [Option.bind_eq_bind, Option.bind_eq_some_iff] at h
  obtain ⟨fields', hds, h⟩ := h
  exact ⟨field, args', fields', hfield, hds, (Option.some.inj h).symm⟩

theorem resolve_copied (bytes : List UInt8) (args : List Argument) :
    resolve (bytes.map Directive.copied) args = some (bytes.map Field.copied) := by
  induction bytes with
  | nil => rfl
  | cons byte bytes ih =>
    have hbyte : (Directive.copied byte).field? args = some (.copied byte, args) := rfl
    rw [List.map_cons, resolve_cons hbyte, ih, List.map_cons, Option.map_some]

/-- The arguments of a format are those of its first bytes. -/
theorem resolve_cut : ∀ {ds : List Directive} {args : List Argument} {fields : List Field},
    resolve ds args = some fields → ∀ n, ∃ read, resolve (cut n ds) args = some read
  | [], _, _, _, _ => ⟨[], rfl⟩
  | d :: ds, args, fields, h, n => by
    rw [cut]
    split
    · obtain ⟨field, args', fields', hfield, hds, rfl⟩ := exists_of_resolve_cons h
      obtain ⟨read, hread⟩ := resolve_cut hds (n - d.bytes.length)
      exact ⟨field :: read, by rw [resolve_cons hfield, hread, Option.map_some]⟩
    · exact ⟨_, resolve_copied _ _⟩

end Cut

/-! ## §4 One field -/

section Fields

variable {limit width : ℕ} {zero negative : Bool} {memory text digits : List UInt8}
  {conversion : Conversion} {value : UInt32}

/-- One field after a text; none where it is too long. -/
def spellField (limit : ℕ) (text : List UInt8) (field : Field) : Except Fault (Option (List UInt8)) :=
  if usizeMax < text.length + min (textAsRead [field]).length usizeMax then .error .overflow
  else if text.length + (textAsRead [field]).length ≤ limit then .ok (some (text ++ textAsRead [field]))
  else .ok none

theorem textAsRead_cons (field : Field) (fields : List Field) :
    textAsRead (field :: fields) = textAsRead [field] ++ textAsRead fields := by
  rw [textAsRead, textAsRead, textAsRead, rendering, rendering, rendering, List.flatMap_cons,
    List.flatMap_append, List.flatMap_cons, List.flatMap_nil, List.append_nil]

@[simp] theorem textAsRead_copied (byte : UInt8) : textAsRead [.copied byte] = [byte] := rfl

@[simp] theorem textAsRead_string (bytes : List UInt8) :
    textAsRead [.string width bytes] = bytes.take maxLength := by
  simp [textAsRead, rendering, Field.asRead, Field.text]

/-- The sign, then the padding. -/
theorem textAsRead_integer : textAsRead [.integer zero width negative digits] =
    sign negative ++ (List.replicate (width - (digits.length + negative.toNat))
      (if zero then 0x30 else 0x20) ++ digits) := by
  cases negative <;> cases zero <;>
    simp [textAsRead, rendering, Field.asRead, Field.text, sign, Nat.sub_sub, Nat.add_comm]

theorem length_textAsRead_integer : (textAsRead [.integer zero width negative digits]).length =
    max (digits.length + negative.toNat) width := by
  rw [textAsRead_integer, List.length_append, List.length_append, List.length_replicate]
  cases negative <;> simp only [sign, Bool.toNat_true, Bool.toNat_false, List.length_cons,
    List.length_nil, if_true, Bool.false_eq_true, if_false] <;> omega

theorem writeBytes_string {p : CString} (hroom : limit < memory.length) (hmax : limit < usizeMax) :
    writeBytes limit (cstrBytes (some p)) (after memory text) =
      (spellField limit text (.string width p.bytes)).map (Option.map (after memory)) := by
  have hlen : (p.bytes.take maxLength).length ≤ usizeMax :=
    le_trans (List.length_take_le ..) (by decide)
  rw [writeBytes_after hroom hmax, spellField, textAsRead_string, Nat.min_eq_left hlen, cstrBytes]
  split
  · rfl
  · split
    · rfl
    · rfl

/-- The digits of a word leave room for the sign. -/
theorem length_numeral {radix n : ℕ} (hradix : 10 ≤ radix) (hn : n < 2 ^ 32) :
    (numeral radix n).length ≤ 10 := by
  rw [numeral]
  split
  · decide
  · rw [List.length_reverse, List.length_map, Nat.digits_length_le_iff (by omega)]
    exact lt_of_lt_of_le hn (le_trans (by decide) (Nat.pow_le_pow_left hradix 10))

theorem radix_ge (conversion : Conversion) : 10 ≤ radix conversion := by
  rw [radix]
  split <;> decide

theorem magnitude_lt (conversion : Conversion) (value : UInt32) :
    (magnitude conversion value).1 < 2 ^ 32 := by
  rw [magnitude]
  split
  · have hlow := Int32.le_toInt value.toInt32
    have hhigh := Int32.toInt_lt value.toInt32
    simp only
    omega
  · exact value.toNat_lt

theorem integerField_eq (hc : conversion ≠ .s) : integerField zero width conversion value =
    .integer zero width (magnitude conversion value).2
      (numeral (radix conversion) (magnitude conversion value).1) := by
  cases conversion with
  | s => exact absurd rfl hc
  | d => rfl
  | u => rfl
  | x => rfl

theorem length_sign (negative : Bool) : (sign negative).length = negative.toNat := by
  cases negative <;> rfl

theorem write_sign (hroom : limit < memory.length) (hmax : limit < usizeMax)
    (h : text.length + negative.toNat ≤ limit) :
    writeSign negative (after memory text) = .ok (after memory (text ++ sign negative)) := by
  cases negative with
  | false => rw [writeSign, if_neg Bool.false_ne_true, sign, if_neg Bool.false_ne_true, List.append_nil]
  | true =>
    rw [Bool.toNat_true] at h
    rw [writeSign, if_pos rfl, write_after (by omega) (by omega), sign, if_pos rfl]

theorem writeInteger_after (hroom : limit < memory.length) (hmax : limit < usizeMax)
    (hc : conversion ≠ .s) :
    writeInteger limit zero (min width usizeMax) conversion value (after memory text) =
      (spellField limit text (integerField zero width conversion value)).map
        (Option.map (after memory)) := by
  have hdigits := length_numeral (radix_ge conversion) (magnitude_lt conversion value)
  have hloop := digitLoop_word conversion (magnitude_lt conversion value)
  rw [integerField_eq hc, spellField, length_textAsRead_integer, textAsRead_integer, writeInteger]
  generalize magnitude conversion value = absolute at *
  obtain ⟨n, negative⟩ := absolute
  dsimp only at *
  rw [hloop, ok_bind]
  generalize numeral (radix conversion) n = digits at *
  have hneg : negative.toNat ≤ 1 := Bool.toNat_le negative
  have hlen : max (digits.length + negative.toNat) (min width usizeMax) =
      min (max (digits.length + negative.toNat) width) usizeMax := by
    rw [usizeMax]
    omega
  rw [List.length_reverse, add_ok (by rw [usizeMax]; omega), ok_bind, hlen, after_index]
  by_cases hover : usizeMax < text.length + min (max (digits.length + negative.toNat) width) usizeMax
  · rw [if_pos hover, add_overflow hover]
    rfl
  · rw [if_neg hover, add_ok (by omega), ok_bind]
    by_cases hfits : text.length + max (digits.length + negative.toNat) width ≤ limit
    · have hpadding : min (max (digits.length + negative.toNat) width) usizeMax - digits.length -
          negative.toNat = width - (digits.length + negative.toNat) := by omega
      rw [if_pos hfits, if_neg (by omega), hpadding, List.reverse_reverse]
      have hsign := length_sign negative
      rw [write_sign hroom hmax (by omega), ok_bind,
        writes_after hroom hmax (by rw [List.length_append, List.length_replicate]; omega), ok_bind,
        writes_after hroom hmax (by
          rw [List.length_append, List.length_append, List.length_replicate]; omega), ok_bind,
        List.append_assoc, List.append_assoc]
      rfl
    · rw [if_neg hfits, if_pos (by omega)]
      rfl

end Fields

/-! ## §5 One directive -/

section Directives

variable {src rest tail width memory text : List UInt8} {zero : Bool} {i limit : ℕ} {byte : UInt8}
  {args args' : List Argument}

theorem drop_append {xs : List UInt8} (h : src.drop i = xs ++ rest) :
    src.drop (i + xs.length) = rest := by
  rw [← List.drop_drop, h, List.drop_left]

theorem getElem?_of_drop (h : src.drop i = rest) : src[i]? = rest.head? := by
  rw [← h, List.head?_drop]

/-- An index at which something is left is below 256. -/
theorem index_le (hsrc : src.length ≤ maxLength) {xs : List UInt8} (h : src.drop i = xs) (hxs : xs ≠ []) :
    i + xs.length ≤ maxLength := by
  have hlen := congrArg List.length h
  have hpos := List.length_pos_iff.mpr hxs
  rw [List.length_drop] at hlen
  omega

theorem small_le {n : ℕ} (h : n ≤ maxLength + 1) : n ≤ usizeMax := le_trans h (by decide)

/-- Any bytes are a flag and a width before something else. -/
theorem exists_width (rest : List UInt8) : ∃ zero width tail, rest = flag zero ++ (width ++ tail) ∧
    IsWidth zero width ∧ ∀ byte ∈ tail.head?, isDigit byte = false := by
  have hwidth (rest : List UInt8) : rest = rest.takeWhile isDigit ++ rest.dropWhile isDigit ∧
      (rest.takeWhile isDigit).all isDigit = true ∧
      ∀ byte ∈ (rest.dropWhile isDigit).head?, isDigit byte = false := by
    refine ⟨List.takeWhile_append_dropWhile.symm, List.all_takeWhile, fun byte hbyte => ?_⟩
    have hnot := List.head?_dropWhile_not isDigit rest
    rw [Option.mem_def.mp hbyte] at hnot
    simpa using hnot
  match rest with
  | [] => exact ⟨false, [], [], rfl, ⟨rfl, fun _ => (Option.some_ne_none _).symm⟩, by simp⟩
  | first :: rest =>
    by_cases hzero : first = 0x30
    · obtain ⟨hsplit, hall, htail⟩ := hwidth rest
      refine ⟨true, _, _, ?_, ⟨hall, fun h => absurd h.symm Bool.false_ne_true⟩, htail⟩
      rw [flag, if_pos rfl, ← hsplit, hzero]
      rfl
    · obtain ⟨hsplit, hall, htail⟩ := hwidth (first :: rest)
      refine ⟨false, _, _, hsplit, ⟨hall, fun _ => ?_⟩, htail⟩
      rw [List.takeWhile_cons]
      split
      · exact fun h => hzero (Option.some.inj h)
      · exact (Option.some_ne_none _).symm

theorem exists_directives_of_le : ∀ (n : ℕ) (bytes : List UInt8), bytes.length ≤ n →
    ∃ ds, Formed ds ∧ formatBytes ds = bytes
  | _, [], _ => ⟨[], trivial, rfl⟩
  | n + 1, byte :: rest, hlen => by
    have hrest : rest.length ≤ n := Nat.le_of_succ_le_succ hlen
    by_cases hcopied : byte = 0x25 → Unsupported rest
    · obtain ⟨ds, hds, rfl⟩ := exists_directives_of_le n rest hrest
      exact ⟨.copied byte :: ds, ⟨hcopied, hds⟩, rfl⟩
    obtain ⟨rfl, hsupported⟩ := Classical.not_imp.mp hcopied
    by_cases hpercent : rest.head? = some 0x25
    · obtain ⟨rest', rfl⟩ := List.head?_eq_some_iff.mp hpercent
      obtain ⟨ds, hds, rfl⟩ := exists_directives_of_le n rest' (Nat.le_of_succ_le hrest)
      exact ⟨.percent :: ds, hds, rfl⟩
    have hconvert : ∃ zero width conversion, IsWidth zero width ∧
        flag zero ++ (width ++ [Conversion.byte conversion]) <+: rest := by
      by_contra hnone
      exact hsupported ⟨hpercent, fun zero width conversion hwidth hpre =>
        hnone ⟨zero, width, conversion, hwidth, hpre⟩⟩
    obtain ⟨zero, width, conversion, hwidth, rest', rfl⟩ := hconvert
    rw [List.length_append] at hrest
    obtain ⟨ds, hds, rfl⟩ := exists_directives_of_le n rest' (Nat.le_of_add_left_le hrest)
    exact ⟨.convert zero width conversion :: ds, ⟨hwidth, hds⟩, rfl⟩

/-- Every string is a format. -/
theorem exists_directives (bytes : List UInt8) : ∃ ds, Formed ds ∧ formatBytes ds = bytes :=
  exists_directives_of_le bytes.length bytes (le_refl _)

/-- The flag is the zero after the `%`. -/
theorem head_eq_zero_iff (hwidth : IsWidth zero width) (htail : ∀ byte ∈ tail.head?, isDigit byte = false) :
    (flag zero ++ (width ++ tail)).head? = some 0x30 ↔ zero = true := by
  cases zero with
  | true => exact ⟨fun _ => rfl, fun _ => rfl⟩
  | false =>
    refine ⟨fun h => ?_, fun h => absurd h Bool.false_ne_true⟩
    rw [flag, if_neg Bool.false_ne_true, List.nil_append, List.head?_append] at h
    cases width with
    | nil => exact absurd (htail _ h) (by decide)
    | cons digit width => exact absurd h (hwidth.first rfl)

theorem skipFlag_eq (h : i + (flag zero).length ≤ usizeMax) :
    skipFlag zero i = .ok (i + (flag zero).length) := by
  cases zero with
  | false => rfl
  | true => exact add_ok h

theorem readField_percent (hsrc : src.length ≤ maxLength)
    (hdrop : src.drop i = 0x25 :: (flag zero ++ (width ++ tail))) (hwidth : IsWidth zero width)
    (htail : ∀ byte ∈ tail.head?, isDigit byte = false) :
    readField src i = .ok (zero, min (widthValue width) usizeMax,
      i + (0x25 :: (flag zero ++ width)).length) := by
  have hle := index_le hsrc hdrop (List.cons_ne_nil _ _)
  simp only [List.length_cons, List.length_append] at hle
  have hpercent : src.drop i = [0x25] ++ (flag zero ++ (width ++ tail)) := hdrop
  have hafter : src.drop (i + 1) = flag zero ++ (width ++ tail) := drop_append hpercent
  have hflag : src.drop (i + 1 + (flag zero).length) = width ++ tail := drop_append hafter
  have hloop : widthLoop (width ++ tail) (i + 1 + (flag zero).length) (min 0 usizeMax) =
      .ok (i + 1 + (flag zero).length + width.length, min (widthValue width) usizeMax) :=
    widthLoop_eq htail hwidth.digits (small_le (by omega))
  have hzero : decide (src[i + 1]? = some 0x30) = zero := by
    rw [getElem?_of_drop hafter, Bool.decide_congr (head_eq_zero_iff hwidth htail), Bool.decide_eq_true]
  rw [Nat.zero_min] at hloop
  rw [readField, add_ok (small_le (by omega)), ok_bind, getElem?_of_drop hdrop, List.head?_cons,
    if_pos rfl, hzero]
  dsimp only
  rw [skipFlag_eq (small_le (by omega)), ok_bind, hflag, hloop, ok_bind, List.length_cons,
    List.length_append]
  congr 4
  omega

theorem readField_other (hsrc : src.length ≤ maxLength) (hdrop : src.drop i = byte :: rest)
    (hbyte : byte ≠ 0x25) : readField src i = .ok (false, 0, i + 1) := by
  have hle := index_le hsrc hdrop (List.cons_ne_nil _ _)
  rw [List.length_cons] at hle
  have hhead : src[i]? ≠ some 0x25 := by
    rw [getElem?_of_drop hdrop]
    exact fun h => hbyte (Option.some.inj h)
  rw [readField, add_ok (small_le (by omega)), ok_bind, if_neg hhead]
  rfl

/-- The memory after a call that is refused. -/
def cleared (memory text : List UInt8) : List UInt8 := overwrite (overwrite memory 0 text) 0 [0]

theorem reject_after (h : text.length < memory.length) :
    reject (after memory text) = .ok (.returned (-1) (cleared memory text)) := by
  have hlen : 0 < (overwrite memory 0 text).length := by
    rw [length_overwrite (by omega)]
    omega
  rw [reject, after, store, store?_eq hlen]
  rfl

/-- How a turn goes on from what became of its field. -/
def advance (memory text : List UInt8) (inputIndex : ℕ) (args : List Argument) :
    Option (List UInt8) → Progress
  | some text' => .next ⟨inputIndex, after memory text', args⟩
  | none => .returned (-1) (cleared memory text)

theorem spellField_copied (hmax : limit < usizeMax) (htext : text.length ≤ limit) (byte : UInt8) :
    spellField limit text (.copied byte) =
      .ok (if text.length = limit then none else some (text ++ [byte])) := by
  rw [spellField, textAsRead_copied, List.length_singleton, Nat.min_eq_left (by omega),
    if_neg (by omega)]
  by_cases h : text.length = limit
  · rw [if_neg (by omega), if_pos h]
  · rw [if_pos (by omega), if_neg h]

/-- A turn that copies one byte, or one of two. -/
theorem copy_after (hroom : limit < memory.length) (hmax : limit < usizeMax)
    (htext : text.length ≤ limit) {stop : ℕ} (hstop : copyEnd src byte i = .ok stop) :
    copy src limit byte ⟨i, after memory text, args⟩ =
      (spellField limit text (.copied byte)).map (advance memory text stop args) := by
  rw [copy, hstop, ok_bind, spellField_copied hmax htext]
  by_cases h : text.length = limit
  · rw [if_pos h, after_index, if_pos h, reject_after (by omega)]
    rfl
  · rw [if_neg h, after_index, if_neg h, write_after (by omega) (by omega)]
    rfl

theorem settle_after (h : text.length < memory.length) {conversionEnd : ℕ}
    (hadd : conversionEnd + 1 ≤ usizeMax) (spelled : Except Fault (Option (List UInt8)))
    (args : List Argument) :
    (spelled.map (Option.map (after memory)) >>= settle conversionEnd (after memory text) args) =
      spelled.map (advance memory text (conversionEnd + 1) args) := by
  match spelled with
  | .error e => rfl
  | .ok none => exact reject_after h
  | .ok (some text') =>
    have hresume : resume conversionEnd (after memory text') args =
        .ok (.next ⟨conversionEnd + 1, after memory text', args⟩) := by
      rw [resume, add_ok hadd]
      rfl
    exact hresume

theorem field?_word {conversion : Conversion} (hc : conversion ≠ .s) (value : UInt32) :
    (Directive.convert zero width conversion).field? (.word value :: args) =
      some (integerField zero (widthValue width) conversion value, args) := by
  cases conversion with
  | s => exact absurd rfl hc
  | d => rfl
  | u => rfl
  | x => rfl

theorem convert_after {conversion : Conversion} {field : Field} {conversionEnd : ℕ}
    (hroom : limit < memory.length) (hmax : limit < usizeMax) (htext : text.length ≤ limit)
    (hadd : conversionEnd + 1 ≤ usizeMax)
    (hfield : (Directive.convert zero width conversion).field? args = some (field, args')) :
    convert limit zero (min (widthValue width) usizeMax) conversionEnd conversion
      ⟨i, after memory text, args⟩ =
      (spellField limit text field).map (advance memory text (conversionEnd + 1) args') := by
  rw [convert, ← settle_after (lt_of_le_of_lt htext hroom) hadd]
  by_cases hc : conversion = .s
  · subst hc
    match args, hfield with
    | .text p :: args, hfield =>
      cases hfield
      rw [if_pos rfl, ← writeBytes_string hroom hmax]
      rfl
  · match args, hfield with
    | .word value :: args, hfield =>
      rw [field?_word hc] at hfield
      cases hfield
      rw [if_neg hc, ← writeInteger_after hroom hmax hc]
      rfl
    | .text p :: args, hfield => cases conversion <;> first | exact absurd rfl hc | cases hfield
    | [], hfield => cases conversion <;> cases hfield

section Turn

variable {zeroPad : Bool} {columns conversionEnd : ℕ} {s : State}

theorem turn_of_none (hread : readField src s.inputIndex = .ok (zeroPad, columns, conversionEnd))
    (hnone : (if byte = 0x25 then src[conversionEnd]?.bind conversionOf else none) = none) :
    turn src limit byte s = copy src limit byte s := by
  rw [turn, hread, ok_bind]
  dsimp only
  rw [hnone]

theorem turn_of_some {conversion : Conversion}
    (hread : readField src s.inputIndex = .ok (zeroPad, columns, conversionEnd))
    (hsome : src[conversionEnd]?.bind conversionOf = some conversion) :
    turn src limit 0x25 s = convert limit zeroPad columns conversionEnd conversion s := by
  rw [turn, hread, ok_bind]
  dsimp only
  rw [if_pos rfl, hsome]

end Turn

theorem byte_of_conversionOf {conversion : Conversion} (h : conversionOf byte = some conversion) :
    byte = conversion.byte := by
  rw [conversionOf] at h
  split_ifs at h with hs hu hd hx <;> cases h <;> assumption

theorem Unsupported.conversion (h : Unsupported (flag zero ++ (width ++ tail)))
    (hwidth : IsWidth zero width) : tail.head?.bind conversionOf = none := by
  rw [Option.bind_eq_none_iff]
  intro byte hbyte
  match hc : conversionOf byte with
  | none => rfl
  | some conversion =>
    refine absurd ?_ (h.convert zero width conversion hwidth)
    obtain ⟨rest, rfl⟩ := List.head?_eq_some_iff.mp hbyte
    refine ⟨rest, ?_⟩
    rw [byte_of_conversionOf hc]
    simp

/-- A turn at a byte that is copied. -/
theorem turn_copied (hsrc : src.length ≤ maxLength) (hroom : limit < memory.length)
    (hmax : limit < usizeMax) (htext : text.length ≤ limit) (hdrop : src.drop i = byte :: rest)
    (hbyte : byte = 0x25 → Unsupported rest) :
    turn src limit byte ⟨i, after memory text, args⟩ =
      (spellField limit text (.copied byte)).map (advance memory text (i + 1) args) := by
  have hle := index_le hsrc hdrop (List.cons_ne_nil _ _)
  rw [List.length_cons] at hle
  have hone : src.drop i = [byte] ++ rest := hdrop
  have hafter : src.drop (i + 1) = rest := drop_append hone
  have hend : copyEnd src byte i = .ok (i + 1) := by
    rw [copyEnd, add_ok (small_le (by omega)), ok_bind, getElem?_of_drop hafter]
    exact if_neg fun h => (hbyte h.1).percent h.2
  rw [← copy_after hroom hmax htext hend]
  by_cases hpercent : byte = 0x25
  · obtain ⟨zero, width, tail, rfl, hwidth, htail⟩ := exists_width rest
    subst hpercent
    have hfield : src.drop i = (0x25 :: (flag zero ++ width)) ++ tail := by
      rw [hdrop, List.cons_append, List.append_assoc]
    refine turn_of_none (readField_percent hsrc hdrop hwidth htail) ?_
    rw [if_pos rfl, getElem?_of_drop (drop_append hfield)]
    exact (hbyte rfl).conversion hwidth
  · exact turn_of_none (readField_other hsrc hdrop hpercent) (if_neg hpercent)

theorem turn_percent (hsrc : src.length ≤ maxLength) (hroom : limit < memory.length)
    (hmax : limit < usizeMax) (htext : text.length ≤ limit) (hdrop : src.drop i = 0x25 :: 0x25 :: rest) :
    turn src limit 0x25 ⟨i, after memory text, args⟩ =
      (spellField limit text (.copied 0x25)).map (advance memory text (i + 2) args) := by
  have hle := index_le hsrc hdrop (List.cons_ne_nil _ _)
  rw [List.length_cons, List.length_cons] at hle
  have hone : src.drop i = [0x25] ++ (0x25 :: rest) := hdrop
  have hafter : src.drop (i + 1) = 0x25 :: rest := drop_append hone
  have hend : copyEnd src 0x25 i = .ok (i + 2) := by
    rw [copyEnd, add_ok (small_le (by omega)), ok_bind, getElem?_of_drop hafter, if_pos ⟨rfl, rfl⟩]
    exact add_ok (small_le (by omega))
  have hread : readField src i = .ok (false, min (widthValue []) usizeMax, i + 1) :=
    readField_percent hsrc hdrop ⟨rfl, fun _ => (Option.some_ne_none _).symm⟩ (by
      rintro _ ⟨⟩
      rfl)
  rw [← copy_after hroom hmax htext hend]
  refine turn_of_none hread ?_
  rw [if_pos rfl, getElem?_of_drop hafter]
  rfl

theorem turn_convert {conversion : Conversion} {field : Field} (hsrc : src.length ≤ maxLength)
    (hroom : limit < memory.length) (hmax : limit < usizeMax) (htext : text.length ≤ limit)
    (hwidth : IsWidth zero width)
    (hdrop : src.drop i = (Directive.convert zero width conversion).bytes ++ rest)
    (hfield : (Directive.convert zero width conversion).field? args = some (field, args')) :
    turn src limit 0x25 ⟨i, after memory text, args⟩ =
      (spellField limit text field).map
        (advance memory text (i + (Directive.convert zero width conversion).bytes.length) args') := by
  have hlen : (Directive.convert zero width conversion).bytes.length =
      (0x25 :: (flag zero ++ width)).length + 1 := by
    simp [Directive.bytes, Nat.add_assoc]
  have hle := index_le hsrc hdrop (by simp [Directive.bytes])
  rw [List.length_append, hlen] at hle
  have hsplit : src.drop i = 0x25 :: (flag zero ++ (width ++ (conversion.byte :: rest))) := by
    rw [hdrop, Directive.bytes]
    simp
  have hfront : src.drop i = (0x25 :: (flag zero ++ width)) ++ (conversion.byte :: rest) := by
    rw [hsplit, List.cons_append, List.append_assoc]
  have hread := readField_percent hsrc hsplit hwidth (by
    rintro _ ⟨⟩
    exact isDigit_byte conversion)
  rw [turn_of_some hread (by rw [getElem?_of_drop (drop_append hfront)]; exact conversionOf_byte conversion),
    convert_after hroom hmax htext (small_le (by omega)) hfield, hlen, Nat.add_assoc]

end Directives

/-! ## §6 The whole format -/

/-- Fields after a text: whether all of them fit, and the text of those that do. -/
def spell (limit : ℕ) : List UInt8 → List Field → Except Fault (Bool × List UInt8)
  | text, [] => .ok (true, text)
  | text, field :: fields =>
    match spellField limit text field with
    | .error e => .error e
    | .ok none => .ok (false, text)
    | .ok (some text') => spell limit text' fields

/-- What the call gives back. -/
def finish (memory : List UInt8) : Bool × List UInt8 → ℤ × List UInt8
  | (true, text) => ((text.length : ℤ).bmod (2 ^ 32), overwrite memory 0 (text ++ [0]))
  | (false, text) => (-1, cleared memory text)

section Run

variable {src memory text : List UInt8} {limit : ℕ} {args : List Argument}

/-- A turn at any directive. -/
theorem turn_directive {d : Directive} {ds : List Directive} {field : Field} {args' : List Argument}
    {i : ℕ} (hsrc : src.length ≤ maxLength) (hroom : limit < memory.length) (hmax : limit < usizeMax)
    (htext : text.length ≤ limit) (hds : Formed (d :: ds)) (hdrop : src.drop i = formatBytes (d :: ds))
    (hfield : d.field? args = some (field, args')) :
    ∃ byte, src[i]? = some byte ∧ turn src limit byte ⟨i, after memory text, args⟩ =
      (spellField limit text field).map (advance memory text (i + d.bytes.length) args') := by
  rw [formatBytes_cons] at hdrop
  match d, hds, hfield with
  | .copied byte, hds, hfield =>
    cases hfield
    exact ⟨byte, getElem?_of_drop hdrop, turn_copied hsrc hroom hmax htext hdrop hds.1⟩
  | .percent, hds, hfield =>
    cases hfield
    exact ⟨0x25, getElem?_of_drop hdrop, turn_percent hsrc hroom hmax htext hdrop⟩
  | .convert zero width conversion, hds, hfield =>
    exact ⟨0x25, getElem?_of_drop hdrop, turn_convert hsrc hroom hmax htext hds.1 hdrop hfield⟩

theorem spellField_length {field : Field} {text' : List UInt8}
    (h : spellField limit text field = .ok (some text')) : text'.length ≤ limit := by
  rw [spellField] at h
  split_ifs at h with hover hfits
  · cases h
    rw [List.length_append]
    exact hfits
  · cases h

/-- The loop writes what `spell` says. -/
theorem loop_eq (hsrc : src.length ≤ maxLength) (hroom : limit < memory.length)
    (hmax : limit < usizeMax) : ∀ {ds : List Directive} {fields : List Field} {text : List UInt8}
      {args : List Argument} {i turns : ℕ}, text.length ≤ limit → Formed ds →
      src.drop i = formatBytes ds → resolve ds args = some fields → ds.length < turns →
      loop src limit turns ⟨i, after memory text, args⟩ = (spell limit text fields).map (finish memory)
  | [], fields, text, args, i, turns + 1, htext, _, hdrop, hres, _ => by
    cases hres
    have hend : src[i]? = none := getElem?_of_drop hdrop
    rw [loop]
    dsimp only
    rw [hend]
    dsimp only
    rw [terminate, after, store_after (by omega)]
    rfl
  | d :: ds, fields, text, args, i, turns + 1, htext, hds, hdrop, hres, hturns => by
    obtain ⟨field, args', fields', hfield, hrest, rfl⟩ := exists_of_resolve_cons hres
    obtain ⟨byte, hbyte, hturn⟩ := turn_directive hsrc hroom hmax htext hds hdrop hfield
    rw [formatBytes_cons] at hdrop
    rw [loop]
    dsimp only
    rw [hbyte]
    dsimp only
    rw [hturn, spell]
    match hspell : spellField limit text field with
    | .error e => rfl
    | .ok none => rfl
    | .ok (some text') =>
      have hformed : Formed ds := by
        match d, hds with
        | .copied byte, hds => exact hds.2
        | .percent, hds => exact hds
        | .convert zero width conversion, hds => exact hds.2
      exact loop_eq hsrc hroom hmax (spellField_length hspell) hformed (drop_append hdrop) hrest
        (Nat.lt_of_succ_lt_succ hturns)

end Run

/-! ## §7 The law -/

section Law

variable {limit size count : ℕ} {memory text : List UInt8} {ds : List Directive}
  {args : List Argument} {fields : List Field}

/-- `Overflows` for fields after a text. -/
def OverflowsAfter (limit : ℕ) (text : List UInt8) (fields : List Field) : Prop :=
  ∃ before field after, fields = before ++ field :: after ∧
    text.length + (textAsRead before).length ≤ limit ∧
    usizeMax < text.length + (textAsRead before).length + min (textAsRead [field]).length usizeMax

theorem overflowsAfter_nil : OverflowsAfter limit [] fields ↔ Overflows limit fields := by
  simp only [OverflowsAfter, Overflows, List.length_nil, Nat.zero_add]

theorem overflowsAfter_cons (htext : text.length ≤ limit) {field : Field} :
    OverflowsAfter limit text (field :: fields) ↔
      usizeMax < text.length + min (textAsRead [field]).length usizeMax ∨
        OverflowsAfter limit (text ++ textAsRead [field]) fields := by
  constructor
  · rintro ⟨before, wide, after, hsplit, hlen, hover⟩
    match before with
    | [] =>
      cases hsplit
      exact Or.inl hover
    | first :: before =>
      cases hsplit
      rw [textAsRead_cons, List.length_append, ← Nat.add_assoc] at hlen hover
      refine Or.inr ⟨before, wide, after, rfl, ?_⟩
      rw [List.length_append]
      exact ⟨hlen, hover⟩
  · rintro (hover | ⟨before, wide, after, rfl, hlen, hover⟩)
    · exact ⟨[], field, fields, rfl, htext, hover⟩
    · rw [List.length_append, Nat.add_assoc text.length, ← List.length_append, ← textAsRead_cons]
        at hlen hover
      exact ⟨field :: before, wide, after, rfl, hlen, hover⟩

/-- What the fields come to. -/
inductive Spelled (limit : ℕ) (text : List UInt8) (fields : List Field) :
    Except Fault (Bool × List UInt8) → Prop
  | overflows : OverflowsAfter limit text fields → Spelled limit text fields (.error .overflow)
  | fits : ¬ OverflowsAfter limit text fields → text.length + (textAsRead fields).length ≤ limit →
      Spelled limit text fields (.ok (true, text ++ textAsRead fields))
  | long {part : List UInt8} : ¬ OverflowsAfter limit text fields →
      limit < text.length + (textAsRead fields).length → part.length ≤ limit →
      Spelled limit text fields (.ok (false, part))

theorem overflowsAfter_le (h : OverflowsAfter limit text fields) : text.length ≤ limit := by
  obtain ⟨before, field, after, _, hlen, _⟩ := h
  omega

theorem spell_spec : ∀ {fields : List Field} {text : List UInt8}, text.length ≤ limit →
    Spelled limit text fields (spell limit text fields)
  | [], text, htext => by
    have hnone : ¬ OverflowsAfter limit text [] := by
      rintro ⟨before, field, after, hsplit, _⟩
      exact absurd hsplit.symm (by simp)
    have h := Spelled.fits hnone htext
    rwa [show textAsRead [] = [] from rfl, List.append_nil] at h
  | field :: fields, text, htext => by
    have hcons : OverflowsAfter limit text (field :: fields) ↔ _ := overflowsAfter_cons htext
    rw [spell, spellField]
    by_cases hover : usizeMax < text.length + min (textAsRead [field]).length usizeMax
    · rw [if_pos hover]
      exact .overflows (hcons.mpr (Or.inl hover))
    · rw [if_neg hover]
      have hnot (h : ¬ OverflowsAfter limit (text ++ textAsRead [field]) fields) :
          ¬ OverflowsAfter limit text (field :: fields) := fun h' => (hcons.mp h').elim hover h
      have hlen : text.length + (textAsRead (field :: fields)).length =
          (text ++ textAsRead [field]).length + (textAsRead fields).length := by
        rw [textAsRead_cons, List.length_append, List.length_append, Nat.add_assoc]
      by_cases hfits : text.length + (textAsRead [field]).length ≤ limit
      · rw [if_pos hfits]
        dsimp only
        have hrest : Spelled limit (text ++ textAsRead [field]) fields _ :=
          spell_spec (by rw [List.length_append]; exact hfits)
        generalize spell limit (text ++ textAsRead [field]) fields = spelled at hrest
        cases hrest with
        | overflows h => exact .overflows (hcons.mpr (Or.inr h))
        | fits h hall =>
          rw [List.append_assoc, ← textAsRead_cons]
          exact .fits (hnot h) (hlen ▸ hall)
        | long h hall hpart => exact .long (hnot h) (hlen ▸ hall) hpart
      · rw [if_neg hfits]
        refine .long (hnot fun h => hfits ?_) ?_ htext
        · have hle := overflowsAfter_le h
          rwa [List.length_append] at hle
        · rw [hlen, List.length_append]
          omega

theorem length_le_formatBytes : ∀ ds : List Directive, ds.length ≤ (formatBytes ds).length
  | [] => le_refl 0
  | d :: ds => by
    have hd : 0 < d.bytes.length := by cases d <;> exact Nat.succ_pos _
    have hds := length_le_formatBytes ds
    rw [formatBytes_cons, List.length_append, List.length_cons]
    omega

/-- A call, in terms of the fields that are read. -/
theorem snprintfS_eq {fmt : CString} {read : List Field} (hfmt : fmt.bytes = formatBytes ds)
    (hds : Formed ds) (hread : resolve (cut maxLength ds) args = some read) (hsize : 1 ≤ size)
    (hmax : size ≤ usizeMax) (hmemory : size ≤ memory.length) :
    snprintfS (some memory) size count (some fmt) args =
      (spell (min (size - 1) count) [] read).map
        fun spelled => ((finish memory spelled).1, some (finish memory spelled).2) := by
  have hbytes : cstrBytes (some fmt) = formatBytes (cut maxLength ds) := by
    rw [formatBytes_cut, cstrBytes, hfmt]
  have hlen : (cstrBytes (some fmt)).length ≤ maxLength := List.length_take_le ..
  have hstart : (⟨memory, 0⟩ : Output) = after memory [] := by
    rw [after, overwrite_nil]
    rfl
  have hturns : (cut maxLength ds).length < (cstrBytes (some fmt)).length + 1 := by
    rw [hbytes]
    exact Nat.lt_succ_of_le (length_le_formatBytes _)
  have hloop : loop (cstrBytes (some fmt)) (min (size - 1) count) ((cstrBytes (some fmt)).length + 1)
      ⟨0, after memory [], args⟩ = (spell (min (size - 1) count) [] read).map (finish memory) :=
    loop_eq hlen (by omega) (by omega) (Nat.zero_le _) (formed_cut hds maxLength) hbytes hread hturns
  rw [snprintfS, vsnprintfSubset]
  dsimp only
  rw [if_neg (by omega), hstart, hloop]
  cases spell (min (size - 1) count) [] read <;> rfl

theorem overwrite_front (memory xs : List UInt8) : overwrite memory 0 xs = xs ++ memory.drop xs.length := by
  rw [overwrite, List.take_zero, List.nil_append, Nat.zero_add]

theorem drop_overwrite {xs : List UInt8} (h : xs.length ≤ size) :
    (overwrite memory 0 xs).drop size = memory.drop size := by
  rw [overwrite_front, List.drop_append, List.drop_of_length_le h, List.nil_append, List.drop_drop]
  congr 1
  omega

/-- A terminated text is read back. -/
theorem overwrite_injective {xs ys : List UInt8} (hlen : xs.length = ys.length)
    (h : overwrite memory 0 (xs ++ [0]) = overwrite memory 0 (ys ++ [0])) : xs = ys := by
  have htake := congrArg (List.take xs.length) h
  rwa [overwrite_front, overwrite_front, List.append_assoc, List.append_assoc, List.take_left, hlen,
    List.take_left] at htake

theorem length_cleared (h : text.length < memory.length) :
    (cleared memory text).length = memory.length := by
  have hlen : (overwrite memory 0 text).length = memory.length := length_overwrite (by omega)
  rw [cleared, length_overwrite (by rw [hlen, List.length_singleton]; omega), hlen]

theorem drop_cleared (h : text.length < size) : (cleared memory text).drop size = memory.drop size := by
  rw [cleared, drop_overwrite (by rw [List.length_singleton]; omega), drop_overwrite (Nat.le_of_lt h)]

theorem cleared_first : (cleared memory text)[0]? = some 0 := by
  rw [cleared, overwrite_front]
  rfl

theorem bmod_length {n : ℕ} (h : n < 2 ^ 31) : (n : ℤ).bmod (2 ^ 32) = n :=
  Int.bmod_eq_of_le (by omega) (by omega)

/-- A length from 2³¹ on comes back negative, and never as −1. -/
theorem bmod_length_large {n : ℕ} (h : 2 ^ 31 ≤ n) (hmax : n < usizeMax) :
    (n : ℤ).bmod (2 ^ 32) < -1 := by
  rw [usizeMax] at hmax
  rw [Int.bmod_def]
  omega

theorem law_returned_iff {result : ℤ} {memory' : List UInt8} :
    SnprintfLaw text size count memory (.ok (result, some memory')) ↔
      memory'.length = memory.length ∧ memory'.drop size = memory.drop size ∧
        if text.length ≤ min (size - 1) count then
          result = text.length ∧ memory' = overwrite memory 0 (text ++ [0])
        else result = -1 ∧ memory'[0]? = some 0 := by
  constructor
  · rintro ⟨_, _, hrun, h⟩
    cases hrun
    exact h
  · exact fun h => ⟨_, _, rfl, h⟩

/-- The law of a call that writes all of a text. -/
theorem law_written_iff {written : List UInt8} (hsize : 1 ≤ size) (hmax : size ≤ usizeMax)
    (hmemory : size ≤ memory.length) (hall : written.length ≤ min (size - 1) count) :
    SnprintfLaw text size count memory
        (.ok ((written.length : ℤ).bmod (2 ^ 32), some (overwrite memory 0 (written ++ [0])))) ↔
      text.length ≤ min (size - 1) count ∧ written = text ∧ text.length < 2 ^ 31 := by
  rw [law_returned_iff]
  constructor
  · rintro ⟨_, _, hlaw⟩
    by_cases hlarge : 2 ^ 31 ≤ written.length
    · have hneg := bmod_length_large hlarge (by omega)
      split at hlaw
      · exact absurd (hlaw.1.symm.trans_lt hneg) (by omega)
      · exact absurd (hlaw.1.symm.trans_lt hneg) (lt_irrefl _)
    · have hsmall : (written.length : ℤ).bmod (2 ^ 32) = written.length := bmod_length (by omega)
      split at hlaw
      next hfits =>
        have hlen := Int.ofNat_inj.mp (hsmall.symm.trans hlaw.1)
        exact ⟨hfits, overwrite_injective hlen hlaw.2, by omega⟩
      next => exact absurd (hsmall.symm.trans hlaw.1) (by omega)
  · rintro ⟨hfits, rfl, hsmall⟩
    have hlen : (written ++ [0]).length ≤ size := by
      rw [List.length_append, List.length_singleton]
      omega
    refine ⟨length_overwrite (by omega), drop_overwrite hlen, ?_⟩
    rw [if_pos hfits]
    exact ⟨bmod_length hsmall, rfl⟩

/-- The law of a call that clears the buffer. -/
theorem law_cleared_iff {part : List UInt8} (hmemory : size ≤ memory.length) (hpart : part.length < size) :
    SnprintfLaw text size count memory (.ok (-1, some (cleared memory part))) ↔
      min (size - 1) count < text.length := by
  rw [law_returned_iff]
  constructor
  · rintro ⟨_, _, hlaw⟩
    split at hlaw
    · exact absurd hlaw.1 (by omega)
    next hlong => exact Nat.lt_of_not_le hlong
  · rintro hlong
    refine ⟨length_cleared (by omega), drop_cleared hpart, ?_⟩
    rw [if_neg (Nat.not_le.mpr hlong)]
    exact ⟨rfl, cleared_first⟩

/-- Where a field is read as ISO C renders it. -/
def Field.Plain : Field → Prop
  | .copied _ => True
  | .string width bytes => width ≤ bytes.length ∧ bytes.length ≤ maxLength
  | .integer zero width negative digits =>
    zero = false → negative = true → width ≤ digits.length + 1

theorem Field.plain_iff (field : Field) : textAsRead [field] = field.text ↔ field.Plain := by
  match field with
  | .copied byte => exact ⟨fun _ => trivial, fun _ => rfl⟩
  | .string width bytes =>
    rw [textAsRead_string, Field.text]
    constructor
    · rintro h
      have hlen := congrArg List.length h
      rw [List.length_take, List.length_append, List.length_replicate] at hlen
      exact ⟨by omega, by omega⟩
    · rintro ⟨hwidth, hlen⟩
      rw [List.take_of_length_le hlen, Nat.sub_eq_zero_of_le hwidth]
      rfl
  | .integer true width negative digits =>
    refine ⟨fun _ h => absurd h.symm Bool.false_ne_true, fun _ => ?_⟩
    rw [textAsRead_integer, Field.text, List.length_append, length_sign, Nat.add_comm digits.length,
      if_pos rfl]
  | .integer false width false digits =>
    refine ⟨fun _ _ h => absurd h Bool.false_ne_true, fun _ => ?_⟩
    rw [textAsRead_integer]
    rfl
  | .integer false width true digits =>
    rw [textAsRead_integer, Field.text, sign, if_pos rfl, if_neg Bool.false_ne_true, Bool.toNat_true,
      List.length_append, List.length_singleton, Nat.add_comm 1]
    constructor
    · rintro h _ _
      by_contra hwide
      rw [show width - (digits.length + 1) = (width - (digits.length + 1) - 1) + 1 by omega,
        List.replicate_succ] at h
      exact absurd (List.head_eq_of_cons_eq h) (by decide)
    · rintro h
      rw [Nat.sub_eq_zero_of_le (h rfl rfl)]
      rfl

theorem textAsRead_plain : ∀ {fields : List Field}, (∀ field ∈ fields, field.Plain) →
    textAsRead fields = rendering fields
  | [], _ => rfl
  | field :: fields, h => by
    rw [textAsRead_cons, field.plain_iff.mpr (h field List.mem_cons_self),
      textAsRead_plain fun field hfield => h field (List.mem_cons_of_mem _ hfield)]
    exact List.flatMap_cons.symm

theorem cut_of_le : ∀ {ds : List Directive} {n : ℕ}, (formatBytes ds).length ≤ n → cut n ds = ds
  | [], _, _ => rfl
  | d :: ds, n, h => by
    rw [formatBytes_cons, List.length_append] at h
    rw [cut, if_pos (by omega), cut_of_le (by omega)]

/-- A format of at most 256 bytes whose fields are plain is read alike, where its text fits. -/
theorem readAlike_of_plain (hfields : resolve ds args = some fields)
    (hlen : (formatBytes ds).length ≤ maxLength) (hplain : ∀ field ∈ fields, field.Plain)
    (hfits : (rendering fields).length ≤ limit) (hsmall : (rendering fields).length < 2 ^ 31) :
    ReadAlike limit ds args (rendering fields) := by
  have htext := textAsRead_plain hplain
  refine ⟨fields, by rw [cut_of_le hlen, hfields], ?_, ?_⟩
  · rintro ⟨before, field, after, rfl, _, hover⟩
    have happend : (textAsRead (before ++ field :: after)).length =
        (textAsRead before).length + ((textAsRead [field]).length + (textAsRead after).length) := by
      simp [textAsRead, rendering]
    rw [← htext, happend] at hsmall
    rw [usizeMax] at hover
    omega
  · rw [if_pos hfits]
    exact ⟨htext, hsmall⟩

theorem Field.length_asRead_le (field : Field) : (textAsRead [field]).length ≤ field.text.length := by
  match field with
  | .copied byte => exact le_rfl
  | .string width bytes =>
    rw [textAsRead_string, Field.text, List.length_take, List.length_append, List.length_replicate]
    omega
  | .integer true width negative digits =>
    rw [textAsRead_integer, Field.text]
    simp only [List.length_append, List.length_replicate, length_sign]
    omega
  | .integer false width negative digits =>
    rw [textAsRead_integer, Field.text]
    simp only [List.length_append, List.length_replicate, length_sign]
    omega

theorem length_textAsRead_le : ∀ fields : List Field, (textAsRead fields).length ≤ (rendering fields).length
  | [] => le_rfl
  | field :: fields => by
    rw [textAsRead_cons, rendering, List.flatMap_cons, List.length_append, List.length_append]
    exact Nat.add_le_add field.length_asRead_le (length_textAsRead_le fields)

/-- No field is read longer than it is rendered, so that equal texts are made of equal fields. -/
theorem plain_of_textAsRead : ∀ {fields : List Field}, textAsRead fields = rendering fields →
    ∀ field ∈ fields, field.Plain
  | [], _ => by simp
  | field :: fields, h => by
    rw [textAsRead_cons, rendering, List.flatMap_cons, ← rendering] at h
    have hlen := congrArg List.length h
    have hfield := field.length_asRead_le
    have hfields := length_textAsRead_le fields
    rw [List.length_append, List.length_append] at hlen
    obtain ⟨hfront, hrest⟩ := List.append_inj h (by omega)
    exact List.forall_mem_cons.mpr ⟨field.plain_iff.mp hfront, plain_of_textAsRead hrest⟩

/-- Where a format of at most 256 bytes is read alike. -/
theorem readAlike_iff_plain (hfields : resolve ds args = some fields)
    (hlen : (formatBytes ds).length ≤ maxLength) :
    ReadAlike limit ds args (rendering fields) ↔
      if (rendering fields).length ≤ limit then
        (∀ field ∈ fields, field.Plain) ∧ (rendering fields).length < 2 ^ 31
      else ¬ Overflows limit fields ∧ limit < (textAsRead fields).length := by
  constructor
  · rintro ⟨read, hread, hover, h⟩
    rw [cut_of_le hlen, hfields] at hread
    cases hread
    split at h
    next hfits =>
      rw [if_pos hfits]
      exact ⟨plain_of_textAsRead h.1, h.2⟩
    next hlong =>
      rw [if_neg hlong]
      exact ⟨hover, h⟩
  · intro h
    split at h
    next hfits => exact readAlike_of_plain hfields hlen h.1 hfits h.2
    next hlong =>
      refine ⟨fields, by rw [cut_of_le hlen, hfields], h.1, ?_⟩
      rw [if_neg hlong]
      exact h.2

/-- The call meets the law exactly where the format is read alike; a format of at most 256 bytes is, if
the text fits, exactly where each field is plain. -/
theorem snprintf_law_iff {fmt : CString} (hfmt : fmt.bytes = formatBytes ds) (hds : Formed ds)
    (hfields : resolve ds args = some fields) (hsize : 1 ≤ size) (hmax : size ≤ usizeMax)
    (hmemory : size ≤ memory.length) :
    (SnprintfLaw (rendering fields) size count memory
        (snprintfS (some memory) size count (some fmt) args) ↔
      ReadAlike (min (size - 1) count) ds args (rendering fields)) ∧
    ((formatBytes ds).length ≤ maxLength →
      (ReadAlike (min (size - 1) count) ds args (rendering fields) ↔
        if (rendering fields).length ≤ min (size - 1) count then
          (∀ field ∈ fields, field.Plain) ∧ (rendering fields).length < 2 ^ 31
        else ¬ Overflows (min (size - 1) count) fields ∧
          min (size - 1) count < (textAsRead fields).length)) := by
  refine ⟨?_, readAlike_iff_plain hfields⟩
  obtain ⟨read, hread⟩ := resolve_cut hfields maxLength
  have halike : ReadAlike (min (size - 1) count) ds args (rendering fields) ↔
      ¬ Overflows (min (size - 1) count) read ∧
        if (rendering fields).length ≤ min (size - 1) count then
          textAsRead read = rendering fields ∧ (rendering fields).length < 2 ^ 31
        else min (size - 1) count < (textAsRead read).length := by
    constructor
    · rintro ⟨read', hread', h⟩
      rw [hread] at hread'
      cases hread'
      exact h
    · exact fun h => ⟨read, hread, h⟩
  have hspec : Spelled (min (size - 1) count) [] read _ := spell_spec (Nat.zero_le _)
  rw [snprintfS_eq hfmt hds hread hsize hmax hmemory, halike, ← overflowsAfter_nil]
  generalize spell (min (size - 1) count) [] read = spelled at hspec
  cases hspec with
  | overflows h =>
    constructor
    · rintro ⟨result, memory', hrun, _⟩
      cases hrun
    · exact fun hcond => absurd h hcond.1
  | fits h hall =>
    rw [List.length_nil, Nat.zero_add] at hall
    dsimp only [Except.map, finish, List.nil_append]
    refine (law_written_iff hsize hmax hmemory hall).trans ⟨fun hlaw => ⟨h, ?_⟩, ?_⟩
    · rw [if_pos hlaw.1]
      exact hlaw.2
    · rintro ⟨_, hcond⟩
      split at hcond
      next hfits => exact ⟨hfits, hcond⟩
      next => omega
  | long h hall hpart =>
    rw [List.length_nil, Nat.zero_add] at hall
    dsimp only [Except.map, finish]
    refine (law_cleared_iff hmemory (by omega)).trans ⟨fun hlong => ⟨h, ?_⟩, ?_⟩
    · rwa [if_neg (Nat.not_le.mpr hlong)]
    · rintro ⟨_, hcond⟩
      split at hcond
      · rw [hcond.1] at hall
        omega
      next hlong => exact Nat.lt_of_not_le hlong

/-- `[%02x%%%s`. -/
theorem snprintf_law_directives : SnprintfLaw [0x5b, 0x32, 0x65, 0x25, 0x6f, 0x6b] 18 17 (List.replicate 18 0)
    (snprintfS (some (List.replicate 18 0)) 18 17
      (some ⟨[0x5b, 0x25, 0x30, 0x32, 0x78, 0x25, 0x25, 0x25, 0x73], by simp⟩)
      [.word 0x2e, .text ⟨[0x6f, 0x6b], by simp⟩]) := by
  have hformed : Formed [.copied 0x5b, .convert true [0x32] .x, .percent, .convert false [] .s] :=
    ⟨fun h => absurd h (by decide), ⟨rfl, fun h => absurd h.symm Bool.false_ne_true⟩, ⟨rfl, by simp⟩, trivial⟩
  have hfields : resolve [.copied 0x5b, .convert true [0x32] .x, .percent, .convert false [] .s]
      [.word 0x2e, .text ⟨[0x6f, 0x6b], by simp⟩] =
      some [.copied 0x5b, integerField true (widthValue [0x32]) .x 0x2e, .copied 0x25,
        .string (widthValue []) [0x6f, 0x6b]] := rfl
  have htext : rendering [.copied 0x5b, integerField true (widthValue [0x32]) .x 0x2e, .copied 0x25,
      .string (widthValue []) [0x6f, 0x6b]] = [0x5b, 0x32, 0x65, 0x25, 0x6f, 0x6b] := by
    simp [rendering, integerField, numeral, Field.text, sign, digitByte, widthValue]
  have hplain : ∀ field ∈ [Field.copied 0x5b, integerField true (widthValue [0x32]) .x 0x2e, .copied 0x25,
      .string (widthValue []) [0x6f, 0x6b]], field.Plain := by
    simp [Field.Plain, integerField, widthValue, maxLength]
  have hfmt : (⟨[0x5b, 0x25, 0x30, 0x32, 0x78, 0x25, 0x25, 0x25, 0x73], by simp⟩ : CString).bytes =
      formatBytes [.copied 0x5b, .convert true [0x32] .x, .percent, .convert false [] .s] := rfl
  have hlaw : (SnprintfLaw _ 18 17 (List.replicate 18 0) _ ↔ ReadAlike 17 _ _ _) ∧ _ :=
    snprintf_law_iff hfmt hformed hfields (by decide) (by decide) (by decide)
  rw [htext] at hlaw
  obtain ⟨hlaw, hread⟩ := hlaw
  exact hlaw.mpr ((hread (by decide)).mpr ((if_pos (by decide)).mpr ⟨hplain, by decide⟩))

/-- `%5d` of −42 puts the sign before the spaces. -/
theorem not_snprintf_law : ¬ ∀ (fmt : CString) (ds : List Directive) (args : List Argument)
    (fields : List Field) (size count : ℕ) (memory : List UInt8), fmt.bytes = formatBytes ds →
    Formed ds → resolve ds args = some fields → 1 ≤ size → size ≤ usizeMax → size ≤ memory.length →
    SnprintfLaw (rendering fields) size count memory
      (snprintfS (some memory) size count (some fmt) args) := by
  intro h
  have hwidth : IsWidth false [0x35] := ⟨rfl, by decide⟩
  have hlaw := h ⟨[0x25, 0x35, 0x64], by simp⟩ [.convert false [0x35] .d] [.word (-42)]
    [integerField false (widthValue [0x35]) .d (-42)] 8 7 (List.replicate 8 1) rfl ⟨hwidth, trivial⟩
    rfl (by decide) (by decide) (by decide)
  have hcall : snprintfS (some (List.replicate 8 1)) 8 7 (some ⟨[0x25, 0x35, 0x64], by simp⟩)
      [.word (-42)] = .ok (5, some [0x2d, 0x20, 0x20, 0x34, 0x32, 0, 1, 1]) := rfl
  have htext : rendering [integerField false (widthValue [0x35]) .d (-42)] =
      [0x20, 0x20, 0x2d, 0x34, 0x32] := by
    simp [rendering, integerField, numeral, Field.text, sign, digitByte, widthValue]
  rw [hcall, htext, law_returned_iff] at hlaw
  exact absurd hlaw.2.2.2 (by decide)

end Law

end HisiRiscv.Osal.Snprintf
