/-
HisiRiscv.Lib.PyNumber — `int` of a text.

`int` takes the decimal digits of every script, and an underscore between two digits; with base 16,
after `0x`, the hexadecimal letters too and an underscore before the first digit. What `:0{w}x`
prints is read back (`intHex_hexText`); a part of it is the number without its last digits
(`take_hexText`).

  §1 Reading.
  §2 Printing.
-/
import Mathlib.Algebra.Group.Nat.Defs
import HisiRiscv.Lib.PyText

namespace HisiRiscv.PyNumber

open PyText

/-! ## §1 Reading -/

/-- The code points of the decimal zeros (Unicode 14); the digits of a script follow its zero. -/
def zeros : List ℕ :=
  [0x30, 0x660, 0x6f0, 0x7c0, 0x966, 0x9e6, 0xa66, 0xae6, 0xb66, 0xbe6, 0xc66, 0xce6, 0xd66, 0xde6,
    0xe50, 0xed0, 0xf20, 0x1040, 0x1090, 0x17e0, 0x1810, 0x1946, 0x19d0, 0x1a80, 0x1a90, 0x1b50,
    0x1bb0, 0x1c40, 0x1c50, 0xa620, 0xa8d0, 0xa900, 0xa9d0, 0xa9f0, 0xaa50, 0xabf0, 0xff10, 0x104a0,
    0x10d30, 0x11066, 0x110f0, 0x11136, 0x111d0, 0x112f0, 0x11450, 0x114d0, 0x11650, 0x116c0,
    0x11730, 0x118e0, 0x11950, 0x11c50, 0x11d50, 0x11da0, 0x16a60, 0x16ac0, 0x16b50, 0x1d7ce,
    0x1d7d8, 0x1d7e2, 0x1d7ec, 0x1d7f6, 0x1e140, 0x1e2f0, 0x1e950, 0x1fbf0]

/-- `unicodedata.decimal`. -/
def decimal (c : Char) : Option ℕ :=
  (zeros.find? fun first => first ≤ c.toNat && c.toNat < first + 10).map (c.toNat - ·)

/-- A digit of base 10 or 16. -/
def digit (base : ℕ) (c : Char) : Option ℕ :=
  match decimal c with
  | some d => some d
  | none =>
    let n := c.toNat
    if base ≠ 16 then none
    else if 97 ≤ n ∧ n ≤ 102 then some (n - 87)
    else if 65 ≤ n ∧ n ≤ 70 then some (n - 55)
    else none

/-- The rest of a numeral after a digit: `value` is that of the digits before. -/
def digits (base value : ℕ) : Text → Option ℕ
  | [] => some value
  | '_' :: c :: text => (digit base c).bind fun d => digits base (value * base + d) text
  | c :: text => (digit base c).bind fun d => digits base (value * base + d) text

/-- A numeral: a digit, and the rest. -/
def numeral (base : ℕ) : Text → Option ℕ
  | [] => none
  | c :: text => (digit base c).bind fun d => digits base d text

/-- `int(text, 16)` of a text that begins with `0x`. -/
def intHex : Text → Option ℕ
  | '0' :: x :: text =>
    if x = 'x' ∨ x = 'X' then numeral 16 (PyText.removePrefix '_' text) else none
  | _ => none

/-! ## §2 Printing -/

/-- `{value:0{w}x}`, of a value of at most `w` digits. -/
def hexText : (w value : ℕ) → Text
  | 0, _ => []
  | w + 1, value => hexText w (value / 16) ++ [Nat.digitChar (value % 16)]

@[simp] theorem length_hexText (w value : ℕ) : (hexText w value).length = w := by
  induction w generalizing value with
  | zero => rfl
  | succ w ih => rw [hexText, List.length_append, ih, List.length_singleton]

theorem take_hexText {w j : ℕ} (h : j ≤ w) (value : ℕ) :
    (hexText w value).take j = hexText j (value / 16 ^ (w - j)) := by
  induction w generalizing value with
  | zero =>
    obtain rfl := Nat.le_zero.mp h
    rfl
  | succ w ih =>
    obtain rfl | hlt := Nat.eq_or_lt_of_le h
    · rw [Nat.sub_self, pow_zero, Nat.div_one, List.take_of_length_le (Nat.le_of_eq (length_hexText _ _))]
    · have hle : j ≤ w := Nat.le_of_lt_succ hlt
      rw [hexText, List.take_append_of_le_length (by rwa [length_hexText]), ih hle,
        Nat.div_div_eq_div_mul, ← pow_succ', Nat.succ_sub hle]

theorem digit_digitChar {base d : ℕ} (hbase : base = 16) (h : d < 16) :
    digit base (Nat.digitChar d) = some d := by
  subst hbase
  have hall : ∀ d : Fin 16, digit 16 (Nat.digitChar d) = some d.val := by decide
  exact hall ⟨d, h⟩

theorem digitChar_ne_underscore {d : ℕ} (h : d < 16) : Nat.digitChar d ≠ '_' := by
  have hall : ∀ d : Fin 16, Nat.digitChar d ≠ '_' := by decide
  exact hall ⟨d, h⟩

theorem digits_cons {base value d : ℕ} {c : Char} {text : Text} (hc : c ≠ '_')
    (hd : digit base c = some d) : digits base value (c :: text) = digits base (value * base + d) text := by
  rw [digits, hd]
  · rfl
  · rintro c' text' rfl
    exact absurd rfl hc

theorem digits_append_hexText (w a value : ℕ) (text : Text) :
    digits 16 a (hexText w value ++ text) = digits 16 (a * 16 ^ w + value % 16 ^ w) text := by
  induction w generalizing value text with
  | zero => rw [hexText, List.nil_append, pow_zero, Nat.mod_one, mul_one, add_zero]
  | succ w ih =>
    have hd := Nat.mod_lt value (show 0 < 16 by decide)
    have hvalue : value % 16 ^ (w + 1) = value % 16 + 16 * (value / 16 % 16 ^ w) := by
      rw [pow_succ', Nat.mod_mul]
    rw [hexText, List.append_assoc, List.singleton_append, ih,
      digits_cons (digitChar_ne_underscore hd) (digit_digitChar rfl hd), hvalue, pow_succ]
    congr 1
    rw [Nat.add_mul, Nat.mul_assoc, Nat.mul_comm 16]
    omega

theorem exists_of_mem_hexText {w value : ℕ} {c : Char} (h : c ∈ hexText w value) :
    ∃ d < 16, c = Nat.digitChar d := by
  induction w generalizing value with
  | zero => cases h
  | succ w ih =>
    obtain h | h := List.mem_append.mp h
    · exact ih h
    · exact ⟨value % 16, Nat.mod_lt value (by decide), List.mem_singleton.mp h⟩

theorem numeral_eq_digits {base : ℕ} {c : Char} {text : Text} (hc : c ≠ '_') :
    numeral base (c :: text) = digits base 0 (c :: text) := by
  rw [numeral, digits]
  · simp only [Nat.zero_mul, Nat.zero_add]
  · rintro c' text' rfl
    exact absurd rfl hc

/-- What has been printed is read. -/
theorem intHex_hexText {w value : ℕ} (hw : w ≠ 0) (h : value < 16 ^ w) :
    intHex ('0' :: 'x' :: hexText w value) = some value := by
  have hne : hexText w value ≠ [] := fun heq => hw (by rw [← length_hexText w value, heq]; rfl)
  obtain ⟨c, text, heq⟩ := List.exists_cons_of_ne_nil hne
  have hc : c ≠ '_' := by
    obtain ⟨d, hd, rfl⟩ := exists_of_mem_hexText (heq ▸ List.mem_cons_self : c ∈ hexText w value)
    exact digitChar_ne_underscore hd
  have hvalue := digits_append_hexText w 0 value []
  rw [intHex, if_pos (.inl rfl), removePrefix_of_ne (by rw [heq]; simpa using hc), heq,
    numeral_eq_digits hc, ← heq, ← List.append_nil (hexText w value), hvalue, digits,
    Nat.zero_mul, Nat.zero_add, Nat.mod_eq_of_lt h]

end HisiRiscv.PyNumber
