/-
HisiRiscv.Osal.Strtol — `osal_strtol` of `osal_ext.rs`, and what ISO C says of `strtol`.

One index moves over white space, the sign, a prefix and the digits, and where it stops is the
end pointer. ISO C instead speaks of the subject sequence, the longest initial part of the
expected form, and gives back the start of the string where there is none.

Translation notes. A string is its bytes before the NUL, and a pointer into it is an index
with the bytes from there to the NUL. A read past the NUL is none. The sum is an `i64` that
wraps around, and `c_long` has 32 bits. White space is that of the source: space, tab,
newline, and carriage return.

  §1 Pointers into a string.
  §2 The function.
  §3 The subject sequence.
  §4 What `strtol` gives.
-/
import Mathlib.Data.List.TakeWhile
import Mathlib.Data.List.Infix
import Mathlib.Algebra.Group.Nat.Defs
import Mathlib.Algebra.Ring.Int.Defs

namespace HisiRiscv.Osal.Strtol

/-! ## §1 Pointers into a string -/

structure Cursor where
  index : ℕ
  /-- the bytes from the index to the NUL -/
  rest : List UInt8
  deriving DecidableEq

/-- `rd(i)`. -/
def Cursor.read (c : Cursor) : Option UInt8 := c.rest.head?

/-- `i += n`. -/
def Cursor.add (c : Cursor) (n : ℕ) : Cursor := ⟨c.index + n, c.rest.drop n⟩

def Cursor.start (bytes : List UInt8) : Cursor := ⟨0, bytes ++ [0]⟩

/-! ## §2 The function -/

def isSpace (c : UInt8) : Bool := c == 0x20 || c == 0x09 || c == 0x0a || c == 0x0d

def isMinus (c : UInt8) : Bool := c == 0x2d

def isPlus (c : UInt8) : Bool := c == 0x2b

def isX (c : UInt8) : Bool := c == 0x78 || c == 0x58

/-- The loop over white space. -/
def skipSpace : List UInt8 → ℕ → Option Cursor
  | [], _ => none
  | c :: rest, i => if isSpace c then skipSpace rest (i + 1) else some ⟨i, c :: rest⟩

def skipSign (c : Cursor) : Option (Bool × Cursor) := do
  let sign ← c.read
  return (isMinus sign, if isMinus sign || isPlus sign then c.add 1 else c)

/-- `rd(i) == b'0' && matches!(rd(i + 1), b'x' | b'X')`. -/
def atHexPrefix (c : Cursor) : Option Bool := do
  if (← c.read) ≠ 0x30 then return false
  return isX (← (c.add 1).read)

/-- The radix, and the pointer after the prefix. -/
def skipPrefix (base : ℕ) (c : Cursor) : Option (ℕ × Cursor) := do
  if base = 0 then
    if ← atHexPrefix c then return (16, c.add 2)
    if (← c.read) = 0x30 then return (8, c)
    return (10, c)
  else if base = 16 then
    if ← atHexPrefix c then return (16, c.add 2)
    return (16, c)
  else return (base, c)

def digitOf (c : UInt8) : Option ℕ :=
  if 0x30 ≤ c ∧ c ≤ 0x39 then some (c.toNat - 0x30)
  else if 0x61 ≤ c ∧ c ≤ 0x7a then some (c.toNat - 0x61 + 10)
  else if 0x41 ≤ c ∧ c ≤ 0x5a then some (c.toNat - 0x41 + 10)
  else none

/-- The loop over digits: where it stops, and the sum. -/
def digitLoop (radix : ℕ) : List UInt8 → ℕ → ℤ → Option (ℕ × ℤ)
  | [], _, _ => none
  | c :: rest, i, acc =>
    match digitOf c with
    | none => some (i, acc)
    | some d =>
      if radix ≤ d then some (i, acc)
      else digitLoop radix rest (i + 1) ((acc * radix + d).bmod (2 ^ 64))

/-- `osal_strtol`: the value, and the index that is written to the end pointer. -/
def osalStrtol (cp : Option (List UInt8)) (endp : Bool) (base : ℕ) : Option (ℤ × Option ℕ) := do
  let some bytes := cp | return (0, none)
  let c ← skipSpace (Cursor.start bytes).rest (Cursor.start bytes).index
  let (neg, c) ← skipSign c
  let (radix, c) ← skipPrefix base c
  let (stop, acc) ← digitLoop radix c.rest c.index 0
  let v := if neg then (-acc).bmod (2 ^ 64) else acc
  return (v.bmod (2 ^ 32), if endp then some stop else none)

/-- `strtol`. -/
def strtol (cp : Option (List UInt8)) (endp : Bool) (base : ℕ) : Option (ℤ × Option ℕ) :=
  osalStrtol cp endp base

/-- `atoi`. -/
def atoi (s : Option (List UInt8)) : Option ℤ := do
  let (value, _) ← osalStrtol s false 10
  return value

/-! ## §3 The subject sequence -/

/-- A letter or digit whose value is below the radix. -/
def isDigit (radix : ℕ) (c : UInt8) : Bool := (digitOf c).any (· < radix)

/-- The number that digits stand for. -/
def numeral (radix : ℕ) (digits : List UInt8) : ℕ :=
  digits.foldl (fun n c => n * radix + (digitOf c).getD 0) 0

/-- The expected form, less its sign, and its value. -/
inductive Unsigned : ℕ → List UInt8 → ℕ → Prop
  | decimal {first : UInt8} {digits : List UInt8} : first ≠ 0x30 →
      (first :: digits).all (isDigit 10) = true →
      Unsigned 0 (first :: digits) (numeral 10 (first :: digits))
  | octal {digits : List UInt8} : digits.all (isDigit 8) = true →
      Unsigned 0 (0x30 :: digits) (numeral 8 digits)
  | hexadecimal {base : ℕ} {x : UInt8} {digits : List UInt8} : base = 0 ∨ base = 16 →
      isX x = true → digits ≠ [] → digits.all (isDigit 16) = true →
      Unsigned base (0x30 :: x :: digits) (numeral 16 digits)
  | positional {base : ℕ} {digits : List UInt8} : base ≠ 0 → digits ≠ [] →
      digits.all (isDigit base) = true → Unsigned base digits (numeral base digits)

/-- The expected form, and its value. -/
inductive Subject (base : ℕ) : List UInt8 → ℤ → Prop
  | unsigned {seq : List UInt8} {n : ℕ} : Unsigned base seq n → Subject base seq n
  | plus {seq : List UInt8} {n : ℕ} : Unsigned base seq n → Subject base (0x2b :: seq) n
  | minus {seq : List UInt8} {n : ℕ} : Unsigned base seq n → Subject base (0x2d :: seq) (-n)

/-! ## §4 What `strtol` gives -/

/-- The value and the end pointer: those of the subject sequence, or 0 and the start of the
string where there is none. -/
inductive IsoStrtol (base : ℕ) : List UInt8 → ℤ → ℕ → Prop
  | converts {spaces seq rest : List UInt8} {value : ℤ} : spaces.all isSpace = true →
      (∀ c ∈ (seq ++ rest).head?, isSpace c = false) → Subject base seq value →
      (∀ seq' value', seq' <+: seq ++ rest → Subject base seq' value' → seq'.length ≤ seq.length) →
      IsoStrtol base (spaces ++ (seq ++ rest)) value (spaces.length + seq.length)
  | noConversion {spaces rest : List UInt8} : spaces.all isSpace = true →
      (∀ c ∈ rest.head?, isSpace c = false) →
      (∀ seq value, seq <+: rest → ¬ Subject base seq value) →
      IsoStrtol base (spaces ++ rest) 0 0

end HisiRiscv.Osal.Strtol
