/-
HisiRiscv.Hil.DiagnosticLine — the fields of a printed line that has been cut.

A diagnostic line is a word and its fields, each a counter of 32 bits printed with eight
hexadecimal digits. `parse_hex_fields` reads the fields that stand before the cut, and
of the field at the cut the number of the digits that are left (`parseHexFields_take`).

  §1 Dictionaries.
  §2 Printed lines.
  §3 The field at the cut.
  §4 The line.
  §5 One field.
-/
import HisiRiscv.Hil.RustContract

namespace HisiRiscv.Hil.RustContract

open PyText PyNumber

/-! ## §1 Dictionaries -/

section Dictionaries

variable {β : Type} {fields : List (Text × β)} {key name : Text} {value : β}

theorem lookup_cons_if :
    ((name, value) :: fields).lookup key = if key = name then some value else fields.lookup key := by
  rw [List.lookup_cons]
  by_cases h : key = name
  · rw [if_pos h, beq_iff_eq.mpr h]
  · rw [if_neg h, beq_false_of_ne h]

theorem get_cons : get ((name, value) :: fields) key =
    (get fields key).or (if key = name then some value else none) := by
  rw [get, List.reverse_cons, List.lookup_append, lookup_cons_if, List.lookup_nil, get]

theorem get_concat : get (fields ++ [(name, value)]) key =
    if key = name then some value else get fields key := by
  rw [get, List.reverse_append, List.reverse_singleton, List.singleton_append, lookup_cons_if, get]

end Dictionaries

/-! ## §2 Printed lines -/

/-- The name of a field: ASCII without white space and without `=`. -/
def PlainName (name : Text) : Prop := ∀ c ∈ name, c.toNat < 128 ∧ isSpace c = false ∧ c ≠ '='

/-- `name=0x` and eight digits. -/
def fieldToken (name : Text) (value : UInt32) : Text :=
  name ++ '=' :: '0' :: 'x' :: hexText 8 value.toNat

def fieldsText (names : List Text) (value : Text → UInt32) : Text :=
  names.flatMap fun name => ' ' :: fieldToken name (value name)

def printedLine (word : Text) (names : List Text) (value : Text → UInt32) : Text :=
  word ++ fieldsText names value

/-- The fields of the first `n` characters of `fieldsText`. -/
def cutFields (value : Text → UInt32) : List Text → ℕ → List (Text × ℕ)
  | [], _ => []
  | name :: names, n =>
    let width := name.length + 12
    if width ≤ n then (name, (value name).toNat) :: cutFields value names (n - width)
    else if name.length + 4 < n then [(name, (value name).toNat / 16 ^ (width - n))]
    else []

/-! ## §3 The field at the cut -/

section Cut

variable {name : Text} {value : UInt32} {j : ℕ}

theorem value_lt (value : UInt32) : value.toNat < 16 ^ 8 := value.toNat_lt

theorem length_fieldToken (name : Text) (value : UInt32) : (fieldToken name value).length = name.length + 11 := by
  simp [fieldToken]

theorem hexField_of_plain {text : Text} (plain : PlainName name) :
    hexField (name ++ '=' :: text) = (intHex text).map fun n => (name, n) := by
  have hname : ∀ c ∈ name, decide (c ≠ '=') = true := fun c hc => decide_eq_true (plain c hc).2.2
  rw [hexField, keyValue, if_pos (by simp), List.takeWhile_append_of_pos hname,
    List.dropWhile_append_of_pos hname]
  simp

theorem hexField_of_no_equals {token : Text} (h : '=' ∉ token) : hexField token = none := by
  rw [hexField, keyValue, if_neg h, Option.bind_none]

theorem hexField_fieldToken (plain : PlainName name) :
    hexField (fieldToken name value) = some (name, value.toNat) := by
  rw [fieldToken, hexField_of_plain plain, intHex_hexText (by decide) (value_lt value),
    Option.map_some]

/-- The cut leaves the name, or less of it. -/
theorem hexField_take_name (plain : PlainName name) (h : j ≤ name.length) :
    hexField ((fieldToken name value).take j) = none := by
  rw [fieldToken, List.take_append_of_le_length h]
  exact hexField_of_no_equals fun member => (plain _ (List.mem_of_mem_take member)).2.2 rfl

/-- The cut leaves no digit. -/
theorem hexField_take_mark (plain : PlainName name) (h : name.length < j) (h' : j ≤ name.length + 3) :
    hexField ((fieldToken name value).take j) = none := by
  obtain ⟨k, rfl⟩ := Nat.exists_eq_add_of_lt h
  have hk : k ≤ 2 := by omega
  rw [fieldToken, Nat.add_assoc, List.take_length_add_append, List.take_succ_cons,
    hexField_of_plain plain, Option.map_eq_none_iff]
  obtain rfl | rfl | rfl : k = 0 ∨ k = 1 ∨ k = 2 := by omega
  all_goals rfl

/-- The cut leaves some digits, which are read as a number. -/
theorem hexField_take_digits (plain : PlainName name) (h : name.length + 3 < j)
    (h' : j ≤ name.length + 11) :
    hexField ((fieldToken name value).take j) =
      some (name, value.toNat / 16 ^ (name.length + 11 - j)) := by
  obtain ⟨k, rfl⟩ := Nat.exists_eq_add_of_lt h
  have hk : k + 1 ≤ 8 := by omega
  have hlt : value.toNat / 16 ^ (8 - (k + 1)) < 16 ^ (k + 1) := by
    rw [Nat.div_lt_iff_lt_mul (Nat.pow_pos (by decide)), ← pow_add,
      Nat.add_sub_cancel' hk]
    exact value_lt value
  rw [fieldToken, show name.length + 3 + k + 1 = name.length + (k + 1 + 1 + 1 + 1) by omega,
    List.take_length_add_append, List.take_succ_cons, List.take_succ_cons, List.take_succ_cons,
    take_hexText hk, hexField_of_plain plain, intHex_hexText (Nat.succ_ne_zero k) hlt,
    Option.map_some]
  congr 4
  omega

end Cut

/-! ## §4 The line -/

section Line

variable {names : List Text} {value : Text → UInt32}

theorem isSpace_hexDigit {w n : ℕ} : ∀ c ∈ hexText w n, c.toNat < 128 ∧ isSpace c = false := by
  intro c hc
  obtain ⟨d, hd, rfl⟩ := exists_of_mem_hexText hc
  have hall : ∀ d : Fin 16, (Nat.digitChar d).toNat < 128 ∧ isSpace (Nat.digitChar d) = false := by
    decide
  exact hall ⟨d, hd⟩

theorem plain_fieldToken {name : Text} {v : UInt32} (plain : PlainName name) :
    ∀ c ∈ fieldToken name v, c.toNat < 128 ∧ isSpace c = false := by
  intro c hc
  rcases List.mem_append.mp hc with hc | hc
  · exact ⟨(plain c hc).1, (plain c hc).2.1⟩
  · simp only [List.mem_cons] at hc
    rcases hc with rfl | rfl | rfl | hc
    · decide
    · decide
    · decide
    · exact isSpace_hexDigit c hc

theorem head_fieldsText_take (n : ℕ) :
    ∀ c ∈ ((fieldsText names value).take n).head?, isSpace c = true := by
  intro c hc
  cases names with
  | nil => simp [fieldsText] at hc
  | cons name names =>
    cases n with
    | zero => cases hc
    | succ n =>
      obtain rfl : ' ' = c := Option.some.inj hc
      rfl

/-- The token at the cut, as a word of its own. -/
theorem words_fieldToken_take {name : Text} {v : UInt32} (plain : PlainName name) {m : ℕ}
    (hm : m ≤ name.length + 11) : (words ((fieldToken name v).take m)).filterMap hexField =
      if name.length + 3 < m then [(name, v.toNat / 16 ^ (name.length + 11 - m))] else [] := by
  have hlen := length_fieldToken name v
  have hne : fieldToken name v ≠ [] := List.ne_nil_of_length_pos (by omega)
  by_cases hzero : m = 0
  · rw [hzero, List.take_zero, if_neg (by omega)]
    rfl
  have token : ∀ c ∈ (fieldToken name v).take m, isSpace c = false := fun c hc =>
    (plain_fieldToken plain c (List.mem_of_mem_take hc)).2
  have single : words ((fieldToken name v).take m) = [(fieldToken name v).take m] := by
    have hpart : (fieldToken name v).take m ≠ [] := fun h =>
      hzero ((List.take_eq_nil_iff.mp h).resolve_right hne)
    have hword : words ((fieldToken name v).take m ++ []) = (fieldToken name v).take m :: words [] :=
      words_append token hpart (by simp)
    rwa [List.append_nil] at hword
  rw [single, List.filterMap_cons, List.filterMap_nil]
  split_ifs with hdigits
  · rw [hexField_take_digits plain hdigits hm]
  · rcases Nat.lt_or_ge name.length m with hm | hm
    · rw [hexField_take_mark plain hm (by omega)]
    · rw [hexField_take_name plain hm]

theorem words_fieldsText_take (plain : ∀ name ∈ names, PlainName name) (n : ℕ) :
    (words ((fieldsText names value).take n)).filterMap hexField = cutFields value names n := by
  induction names generalizing n with
  | nil => rw [fieldsText, List.flatMap_nil, List.take_nil]; rfl
  | cons name names ih =>
    obtain ⟨hname, plain⟩ := List.forall_mem_cons.mp plain
    have hlen := length_fieldToken name (value name)
    rw [fieldsText, List.flatMap_cons, cutFields, ← fieldsText]
    cases n with
    | zero =>
      rw [List.take_zero, if_neg (by omega), if_neg (by omega)]
      rfl
    | succ m =>
      rw [List.cons_append, List.take_succ_cons, words_space (by decide)]
      split
      · rename_i hwidth
        obtain ⟨k, hk⟩ := Nat.exists_eq_add_of_le hwidth
        obtain rfl : m = (fieldToken name (value name)).length + k := by omega
        rw [List.take_length_add_append,
          words_append (fun c hc => (plain_fieldToken hname c hc).2)
            (List.ne_nil_of_length_pos (by omega)) (head_fieldsText_take k),
          List.filterMap_cons_some (hexField_fieldToken hname), ih plain, hk,
          Nat.add_sub_cancel_left]
      · rename_i hwidth
        rw [List.take_append_of_le_length (by omega), words_fieldToken_take hname (by omega)]
        have hdigits : name.length + 3 < m ↔ name.length + 4 < m + 1 := Nat.succ_lt_succ_iff.symm
        have hwidth : name.length + 11 - m = name.length + 12 - (m + 1) := by omega
        simp only [hdigits, hwidth]

/-- A word, and the fields of the rest. -/
theorem parseHexFields_take {word : Text} (hword : ∀ c ∈ word, c.toNat < 128 ∧ isSpace c = false)
    (hne : word ≠ []) (plain : ∀ name ∈ names, PlainName name) (n : ℕ) :
    parseHexFields (PyBytes.encode ((printedLine word names value).take n)) =
      cutFields value names (n - word.length) := by
  have ascii_line : ∀ c ∈ printedLine word names value, c.toNat < 128 := by
    intro c hc
    rcases List.mem_append.mp hc with hc | hc
    · exact (hword c hc).1
    · obtain ⟨name, hname, hc⟩ := List.mem_flatMap.mp hc
      rcases List.mem_cons.mp hc with rfl | hc
      · decide
      · exact (plain_fieldToken (plain name hname) c hc).1
  rw [parseHexFields, tokens,
    PyBytes.decode_encode fun c hc => ascii_line c (List.mem_of_mem_take hc),
    ← words_fieldsText_take plain, printedLine, List.take_append]
  congr 1
  by_cases hn : n = 0
  · rw [hn, List.take_zero, Nat.zero_sub, List.take_zero]
    rfl
  · rw [words_append (fun c hc => (hword c (List.mem_of_mem_take hc)).2)
      (fun h => hn ((List.take_eq_nil_iff.mp h).resolve_right hne))
      (head_fieldsText_take (n - word.length)), List.tail_cons]

/-- What a line with this word begins with. -/
def wordHead (word : Text) : Bytes := PyBytes.encode (word ++ [' '])

section Head

variable {n : ℕ}

theorem length_wordHead (word : Text) : (wordHead word).length = word.length + 1 := by
  simp [wordHead, PyBytes.encode]

theorem wordHead_prefix_line (word : Text) (value : Text → UInt32) (hnames : names ≠ []) :
    wordHead word <+: PyBytes.encode (printedLine word names value) := by
  obtain ⟨name, names, rfl⟩ := List.exists_cons_of_ne_nil hnames
  refine List.IsPrefix.map _ ?_
  rw [printedLine, fieldsText, List.flatMap_cons, List.cons_append]
  exact (List.prefix_append_right_inj word).mpr (List.cons_prefix_cons.mpr ⟨rfl, List.nil_prefix⟩)

theorem wordHead_prefix_take (word : Text) (value : Text → UInt32) (hnames : names ≠ []) :
    wordHead word <+: (PyBytes.encode (printedLine word names value)).take n ↔ word.length < n := by
  have hline := wordHead_prefix_line word value hnames
  constructor
  · intro h
    have hlen := h.length_le
    rw [length_wordHead, List.length_take] at hlen
    omega
  · intro h
    refine List.prefix_of_prefix_length_le hline (List.take_prefix n _) ?_
    have hlen := hline.length_le
    rw [length_wordHead] at hlen ⊢
    rw [List.length_take]
    omega

end Head

end Line

/-! ## §5 One field -/

/-- Where the digits of a field begin in `fieldsText`. -/
def valueStart (field : Text) : List Text → ℕ
  | [] => 0
  | name :: names =>
    if field = name then name.length + 4 else name.length + 12 + valueStart field names

/-- How many digits of a field stand among the first `n` characters. -/
def digitsLeft (names : List Text) (field : Text) (n : ℕ) : ℕ := min 8 (n - valueStart field names)

section Field

variable {names : List Text} {value : Text → UInt32} {field : Text}

theorem get_nil {β : Type} {key : Text} : get ([] : List (Text × β)) key = none := rfl

theorem get_cutFields_of_notMem (h : field ∉ names) (n : ℕ) :
    get (cutFields value names n) field = none := by
  induction names generalizing n with
  | nil => rfl
  | cons name names ih =>
    rw [List.mem_cons, not_or] at h
    rw [cutFields]
    split
    · rw [get_cons, ih h.2, if_neg h.1, Option.or_none]
    · split
      · rw [get_cons, if_neg h.1, get_nil, Option.or_none]
      · rfl

/-- The digits that are left are read as a number. -/
theorem get_cutFields (distinct : names.Nodup) (h : field ∈ names) (n : ℕ) :
    get (cutFields value names n) field =
      if digitsLeft names field n = 0 then none
      else some ((value field).toNat / 16 ^ (8 - digitsLeft names field n)) := by
  induction names generalizing n with
  | nil => cases h
  | cons name names ih =>
    obtain ⟨hnew, distinct⟩ := List.nodup_cons.mp distinct
    rw [cutFields, digitsLeft, valueStart]
    by_cases hfield : field = name
    · subst hfield
      rw [if_pos rfl]
      split
      · have hall : min 8 (n - (field.length + 4)) = 8 := by omega
        rw [get_cons, get_cutFields_of_notMem hnew, Option.none_or, if_pos rfl, hall,
          if_neg (by decide), Nat.sub_self, pow_zero, Nat.div_one]
      · split
        · have hpart : field.length + 12 - n = 8 - min 8 (n - (field.length + 4)) := by omega
          rw [get_cons, get_nil, Option.none_or, if_pos rfl, hpart, if_neg (by omega)]
        · rw [get_nil, if_pos (by omega)]
    · rw [if_neg hfield]
      split
      · have hrest : n - (name.length + 12 + valueStart field names) =
            n - (name.length + 12) - valueStart field names := Nat.sub_add_eq _ _ _
        rw [get_cons, if_neg hfield, Option.or_none,
          ih distinct ((List.mem_cons.mp h).resolve_left hfield), hrest, digitsLeft]
      · rw [if_pos (show min 8 (n - (name.length + 12 + valueStart field names)) = 0 by omega)]
        split
        · rw [get_cons, if_neg hfield, Option.or_none, get_nil]
        · rfl

theorem valueStart_add_le (value : Text → UInt32) (h : field ∈ names) :
    valueStart field names + 8 ≤ (fieldsText names value).length := by
  induction names with
  | nil => cases h
  | cons name names ih =>
    rw [fieldsText, List.flatMap_cons, List.length_append, List.length_cons, length_fieldToken,
      ← fieldsText, valueStart]
    split
    · omega
    · rename_i hfield
      have := ih ((List.mem_cons.mp h).resolve_left hfield)
      omega

end Field

end HisiRiscv.Hil.RustContract
