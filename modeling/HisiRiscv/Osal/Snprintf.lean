/-
HisiRiscv.Osal.Snprintf — `snprintf_s` of `log.rs`, and what ISO C says its text is.

One loop moves over the format. At a `%` it reads the zero flag and the width, and at `s`, `d`,
`u` and `x` it takes an argument and writes a field. Every other byte is copied. ISO C instead
speaks of directives, each with its argument.

Translation notes. A `usize` has 32 bits, and an addition that overflows ends the run as a
fault. A string is its bytes before the NUL. A variadic argument is a 32-bit word, which `%d`
reads as signed, or a pointer to a string. A call starts with the memory that begins at `buf`,
which may be longer than `size`, and gives it back; a store past its end is a fault. The turns of the loop
are counted, and `loop_eq` shows that they do not run out.

  §1 Strings and arguments.
  §2 Checked additions and stores.
  §3 One conversion.
  §4 The loop.
  §5 Directives.
  §6 What ISO C renders.
  §7 The format as it is read.
  §8 The law.
-/
import Mathlib.Data.Nat.Digits.Defs
import HisiRiscv.Lib.ByteBuffer

namespace HisiRiscv.Osal.Snprintf

open ByteBuffer

/-! ## §1 Strings and arguments -/

structure CString where
  /-- the bytes before the NUL -/
  bytes : List UInt8
  noNul : ∀ byte ∈ bytes, byte ≠ 0
  deriving DecidableEq

/-- `MAX` of `cstr_bytes`. -/
def maxLength : ℕ := 256

def cstrBytes : Option CString → List UInt8
  | none => []
  | some p => p.bytes.take maxLength

inductive Argument where
  | word (value : UInt32)
  | text (string : CString)
  deriving DecidableEq

/-! ## §2 Checked additions and stores -/

inductive Fault where
  /-- an addition overflows `usize` -/
  | overflow
  /-- a store or an index out of bounds -/
  | bounds
  /-- `next_arg` finds no argument of its type -/
  | mismatch
  /-- the loop needs another turn -/
  | unfinished
  deriving DecidableEq

def usizeMax : ℕ := 2 ^ 32 - 1

def add (a b : ℕ) : Except Fault ℕ := if a + b ≤ usizeMax then .ok (a + b) else .error .overflow

def saturatingAdd (a b : ℕ) : ℕ := min (a + b) usizeMax

def saturatingMul (a b : ℕ) : ℕ := min (a * b) usizeMax

structure Output where
  memory : List UInt8
  /-- `output_index` -/
  index : ℕ
  deriving DecidableEq

/-- `output.add(i).write(byte)`. -/
def store (memory : List UInt8) (i : ℕ) (byte : UInt8) : Except Fault (List UInt8) :=
  match store? memory i byte with
  | none => .error .bounds
  | some memory => .ok memory

/-- A store at `output_index`, which then goes up by one. -/
def Output.write (o : Output) (byte : UInt8) : Except Fault Output := do
  let memory ← store o.memory o.index byte
  let index ← add o.index 1
  return ⟨memory, index⟩

/-- `write_bytes`; none is `false`. -/
def writeBytes (limit : ℕ) (bytes : List UInt8) (o : Output) : Except Fault (Option Output) := do
  let stop ← add o.index bytes.length
  if limit < stop then return none
  let o ← bytes.foldlM Output.write o
  return some o

/-! ## §3 One conversion -/

inductive Conversion where
  | s | d | u | x
  deriving DecidableEq

def Conversion.byte : Conversion → UInt8
  | .s => 0x73
  | .d => 0x64
  | .u => 0x75
  | .x => 0x78

/-- `matches!(conversion, Some(b's' | b'u' | b'd' | b'x'))`. -/
def conversionOf (byte : UInt8) : Option Conversion :=
  if byte = 0x73 then some .s
  else if byte = 0x75 then some .u
  else if byte = 0x64 then some .d
  else if byte = 0x78 then some .x
  else none

def isDigit (byte : UInt8) : Bool := 0x30 ≤ byte && byte ≤ 0x39

/-- The loop over the digits of a width: `conversion_end`, and the width. -/
def widthLoop : List UInt8 → ℕ → ℕ → Except Fault (ℕ × ℕ)
  | [], conversionEnd, width => .ok (conversionEnd, width)
  | digit :: rest, conversionEnd, width =>
    if isDigit digit then do
      let next ← add conversionEnd 1
      widthLoop rest next (saturatingAdd (saturatingMul width 10) (digit.toNat - 0x30))
    else .ok (conversionEnd, width)

def skipFlag (zeroPad : Bool) (conversionEnd : ℕ) : Except Fault ℕ :=
  if zeroPad then add conversionEnd 1 else .ok conversionEnd

/-- `zero_pad`, `width` and `conversion_end`. -/
def readField (src : List UInt8) (inputIndex : ℕ) : Except Fault (Bool × ℕ × ℕ) := do
  let conversionEnd ← add inputIndex 1
  if src[inputIndex]? = some 0x25 then
    let zeroPad := decide (src[conversionEnd]? = some 0x30)
    let conversionEnd ← skipFlag zeroPad conversionEnd
    let (conversionEnd, width) ← widthLoop (src.drop conversionEnd) conversionEnd 0
    return (zeroPad, width, conversionEnd)
  else return (false, 0, conversionEnd)

def digitByte (digit : ℕ) : UInt8 :=
  if digit < 10 then 0x30 + digit.toUInt8 else 0x61 + digit.toUInt8 - 10

/-- The loop that fills `digits`, of which `room` places are free. -/
def digitLoop (radix : ℕ) : ℕ → ℕ → List UInt8 → Except Fault (List UInt8)
  | 0, _, _ => .error .bounds
  | room + 1, value, digits =>
    if value / radix = 0 then .ok (digits ++ [digitByte (value % radix)])
    else digitLoop radix room (value / radix) (digits ++ [digitByte (value % radix)])

/-- `signed.unsigned_abs()` and `signed < 0`, or the word itself. -/
def magnitude (conversion : Conversion) (argument : UInt32) : ℕ × Bool :=
  if conversion = .d then
    (argument.toInt32.toInt.natAbs, decide (argument.toInt32.toInt < 0))
  else (argument.toNat, false)

def radix (conversion : Conversion) : ℕ := if conversion = .x then 16 else 10

def writeSign (negative : Bool) (o : Output) : Except Fault Output :=
  if negative then o.write 0x2d else .ok o

/-- An integer conversion; none where it does not fit. -/
def writeInteger (limit : ℕ) (zeroPad : Bool) (width : ℕ) (conversion : Conversion)
    (argument : UInt32) (o : Output) : Except Fault (Option Output) := do
  let (value, negative) := magnitude conversion argument
  let digits ← digitLoop (radix conversion) 10 value []
  let length ← add digits.length negative.toNat
  let renderedLen := max length width
  let stop ← add o.index renderedLen
  if limit < stop then return none
  let o ← writeSign negative o
  let padding := renderedLen - digits.length - negative.toNat
  let o ← (List.replicate padding (if zeroPad then 0x30 else 0x20)).foldlM Output.write o
  let o ← digits.reverse.foldlM Output.write o
  return some o

/-! ## §4 The loop -/

structure State where
  inputIndex : ℕ
  output : Output
  arguments : List Argument
  deriving DecidableEq

inductive Progress where
  | next (s : State)
  | returned (result : ℤ) (memory : List UInt8)
  deriving DecidableEq

/-- `arguments.next_arg::<*const c_char>()`. -/
def nextText : List Argument → Except Fault (CString × List Argument)
  | .text string :: arguments => .ok (string, arguments)
  | _ => .error .mismatch

/-- `arguments.next_arg::<c_int>()` and `arguments.next_arg::<c_uint>()`. -/
def nextWord : List Argument → Except Fault (UInt32 × List Argument)
  | .word value :: arguments => .ok (value, arguments)
  | _ => .error .mismatch

/-- `output.write(0); return -1`. -/
def reject (o : Output) : Except Fault Progress := do
  let memory ← store o.memory 0 0
  return .returned (-1) memory

/-- `input_index = conversion_end + 1; continue`. -/
def resume (conversionEnd : ℕ) (o : Output) (arguments : List Argument) : Except Fault Progress := do
  let inputIndex ← add conversionEnd 1
  return .next ⟨inputIndex, o, arguments⟩

/-- What follows a conversion; none is one that did not fit. -/
def settle (conversionEnd : ℕ) (o : Output) (arguments : List Argument) :
    Option Output → Except Fault Progress
  | none => reject o
  | some o => resume conversionEnd o arguments

/-- A turn at a conversion. -/
def convert (limit : ℕ) (zeroPad : Bool) (width conversionEnd : ℕ) (conversion : Conversion)
    (s : State) : Except Fault Progress := do
  if conversion = .s then
    let (argument, arguments) ← nextText s.arguments
    let written ← writeBytes limit (cstrBytes (some argument)) s.output
    settle conversionEnd s.output arguments written
  else
    let (argument, arguments) ← nextWord s.arguments
    let written ← writeInteger limit zeroPad width conversion argument s.output
    settle conversionEnd s.output arguments written

/-- `input_index` after a byte that is copied, which stands for two in `%%`. -/
def copyEnd (src : List UInt8) (byte : UInt8) (inputIndex : ℕ) : Except Fault ℕ := do
  let next ← add inputIndex 1
  if byte = 0x25 ∧ src[next]? = some 0x25 then add inputIndex 2 else .ok next

/-- A turn at a byte that is copied. -/
def copy (src : List UInt8) (limit : ℕ) (byte : UInt8) (s : State) : Except Fault Progress := do
  let inputIndex ← copyEnd src byte s.inputIndex
  if s.output.index = limit then reject s.output
  else
    let o ← s.output.write byte
    return .next ⟨inputIndex, o, s.arguments⟩

/-- A turn of the loop, at `src[input_index]`. -/
def turn (src : List UInt8) (limit : ℕ) (byte : UInt8) (s : State) : Except Fault Progress := do
  let (zeroPad, width, conversionEnd) ← readField src s.inputIndex
  match if byte = 0x25 then src[conversionEnd]?.bind conversionOf else none with
  | some conversion => convert limit zeroPad width conversionEnd conversion s
  | none => copy src limit byte s

/-- `output.add(output_index).write(0); output_index as c_int`. -/
def terminate (o : Output) : Except Fault (ℤ × List UInt8) := do
  let memory ← store o.memory o.index 0
  return ((o.index : ℤ).bmod (2 ^ 32), memory)

def loop (src : List UInt8) (limit : ℕ) : ℕ → State → Except Fault (ℤ × List UInt8)
  | 0, _ => .error .unfinished
  | turns + 1, s =>
    match src[s.inputIndex]? with
    | none => terminate s.output
    | some byte => do
      match ← turn src limit byte s with
      | .next s => loop src limit turns s
      | .returned result memory => return (result, memory)

def vsnprintfSubset (buf : Option (List UInt8)) (size count : ℕ) (fmt : Option CString)
    (arguments : List Argument) : Except Fault (ℤ × Option (List UInt8)) := do
  let some memory := buf | return (-1, none)
  if size = 0 then return (-1, some memory)
  let src := cstrBytes fmt
  let limit := min (size - 1) count
  let (result, memory) ← loop src limit (src.length + 1) ⟨0, ⟨memory, 0⟩, arguments⟩
  return (result, some memory)

def snprintfS (buf : Option (List UInt8)) (size count : ℕ) (fmt : Option CString)
    (arguments : List Argument) : Except Fault (ℤ × Option (List UInt8)) :=
  vsnprintfSubset buf size count fmt arguments

/-! ## §5 Directives -/

inductive Directive where
  /-- a literal byte, or the `%` of an unsupported conversion -/
  | copied (byte : UInt8)
  | percent
  | convert (zero : Bool) (width : List UInt8) (conversion : Conversion)
  deriving DecidableEq

def flag (zero : Bool) : List UInt8 := if zero then [0x30] else []

def Directive.bytes : Directive → List UInt8
  | .copied byte => [byte]
  | .percent => [0x25, 0x25]
  | .convert zero width conversion => 0x25 :: (flag zero ++ (width ++ [conversion.byte]))

def formatBytes (directives : List Directive) : List UInt8 := directives.flatMap Directive.bytes

/-- A width is decimal digits, and a zero in front is the flag. -/
structure IsWidth (zero : Bool) (width : List UInt8) : Prop where
  digits : width.all isDigit = true
  first : zero = false → width.head? ≠ some 0x30

/-- What follows a `%` makes neither `%%` nor a supported conversion. -/
structure Unsupported (rest : List UInt8) : Prop where
  percent : rest.head? ≠ some 0x25
  convert : ∀ (zero : Bool) (width : List UInt8) (conversion : Conversion), IsWidth zero width →
    ¬ flag zero ++ (width ++ [conversion.byte]) <+: rest

def Formed : List Directive → Prop
  | [] => True
  | .copied byte :: ds => (byte = 0x25 → Unsupported (formatBytes ds)) ∧ Formed ds
  | .percent :: ds => Formed ds
  | .convert zero width _ :: ds => IsWidth zero width ∧ Formed ds

/-! ## §6 What ISO C renders -/

/-- A directive with its argument. -/
inductive Field where
  | copied (byte : UInt8)
  | string (width : ℕ) (bytes : List UInt8)
  | integer (zero : Bool) (width : ℕ) (negative : Bool) (digits : List UInt8)
  deriving DecidableEq

def widthValue (width : List UInt8) : ℕ := width.foldl (fun n digit => n * 10 + (digit.toNat - 0x30)) 0

/-- A number without leading zeros. -/
def numeral (radix n : ℕ) : List UInt8 :=
  if n = 0 then [digitByte 0] else ((Nat.digits radix n).map digitByte).reverse

/-- A `%d` of the value, and a `%u` or `%x`. -/
def integerField (zero : Bool) (width : ℕ) (conversion : Conversion) (value : UInt32) : Field :=
  match conversion with
  | .d => .integer zero width (decide (value.toInt32.toInt < 0)) (numeral 10 value.toInt32.toInt.natAbs)
  | .x => .integer zero width false (numeral 16 value.toNat)
  | _ => .integer zero width false (numeral 10 value.toNat)

/-- The field of a directive, and the arguments after it. -/
def Directive.field? : Directive → List Argument → Option (Field × List Argument)
  | .copied byte, arguments => some (.copied byte, arguments)
  | .percent, arguments => some (.copied 0x25, arguments)
  | .convert _ width .s, .text p :: arguments => some (.string (widthValue width) p.bytes, arguments)
  | .convert _ _ .s, _ => none
  | .convert zero width conversion, .word value :: arguments =>
    some (integerField zero (widthValue width) conversion value, arguments)
  | .convert _ _ _, _ => none

/-- The fields of a format; none where the arguments do not match it. -/
def resolve : List Directive → List Argument → Option (List Field)
  | [], _ => some []
  | d :: ds, arguments => do
    let (field, arguments) ← d.field? arguments
    let fields ← resolve ds arguments
    return field :: fields

def sign (negative : Bool) : List UInt8 := if negative then [0x2d] else []

/-- The sign comes before zeros and after spaces; the flag says nothing of a string. -/
def Field.text : Field → List UInt8
  | .copied byte => [byte]
  | .string width bytes => List.replicate (width - bytes.length) 0x20 ++ bytes
  | .integer true width negative digits =>
    sign negative ++ (List.replicate (width - (sign negative ++ digits).length) 0x30 ++ digits)
  | .integer false width negative digits =>
    List.replicate (width - (sign negative ++ digits).length) 0x20 ++ (sign negative ++ digits)

def rendering (fields : List Field) : List UInt8 := fields.flatMap Field.text

/-! ## §7 The format as it is read -/

/-- A sign is a byte of its own, a string has no width and at most 256 bytes. -/
def Field.asRead : Field → List Field
  | .string _ bytes => [.string 0 (bytes.take maxLength)]
  | .integer zero width true digits => [.copied 0x2d, .integer zero (width - 1) false digits]
  | field => [field]

/-- The first bytes of a format; what is left of a directive is copied. -/
def cut : ℕ → List Directive → List Directive
  | _, [] => []
  | n, d :: ds =>
    if d.bytes.length ≤ n then d :: cut (n - d.bytes.length) ds
    else (d.bytes.take n).map Directive.copied

def textAsRead (fields : List Field) : List UInt8 := rendering (fields.flatMap Field.asRead)

/-- Some field that is reached is so wide that its width and what is before it overflow. -/
def Overflows (limit : ℕ) (fields : List Field) : Prop :=
  ∃ before field after, fields = before ++ field :: after ∧ (textAsRead before).length ≤ limit ∧
    usizeMax < (textAsRead before).length + min (textAsRead [field]).length usizeMax

/-- The format as it is read renders to the same text, or is too long like it, and nothing
overflows. -/
def ReadAlike (limit : ℕ) (directives : List Directive) (arguments : List Argument)
    (text : List UInt8) : Prop :=
  ∃ fields, resolve (cut maxLength directives) arguments = some fields ∧ ¬ Overflows limit fields ∧
    if text.length ≤ limit then textAsRead fields = text ∧ text.length < 2 ^ 31
    else limit < (textAsRead fields).length

/-! ## §8 The law -/

/-- The call ends, changes nothing from `size` on, and writes the text and a NUL, or clears the
buffer where the text is too long. -/
def SnprintfLaw (text : List UInt8) (size count : ℕ) (memory : List UInt8)
    (run : Except Fault (ℤ × Option (List UInt8))) : Prop :=
  ∃ result memory', run = .ok (result, some memory') ∧ memory'.length = memory.length ∧
    memory'.drop size = memory.drop size ∧
    if text.length ≤ min (size - 1) count then
      result = text.length ∧ memory' = overwrite memory 0 (text ++ [0])
    else result = -1 ∧ memory'[0]? = some 0

end HisiRiscv.Osal.Snprintf
