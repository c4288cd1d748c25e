/-
HisiRiscv.Hil.FlashPlan — `validate_flash_plan` of `check-flash-plan.py`.

A plan is a JSON object: where an image goes, what is erased, which parts of the image
are written where, and the SHA-256 digest of its body. `validateFlashPlan` raises the
first objection.

Translation notes. Integers are unbounded. To Python a Boolean is an integer, and a
float equals the integer it stands for; `asInt` is `isinstance(value, int)`,
`number` is the integer a value equals. SHA-256 is the standard's, on bytes.
`validate_image_semantics`, which runs another program, is left out.

  §1 JSON values.
  §2 SHA-256.
  §3 The checks.
  §4 The plan.
  §5 Programming.
  §6 Layouts.
-/
import Mathlib.Data.Rat.Defs
import HisiRiscv.Flashboot.Fips180
import HisiRiscv.Lib.BigEndian
import HisiRiscv.Lib.Tiling

namespace HisiRiscv.Hil.FlashPlan

/-! ## §1 JSON values -/

inductive Json where
  | null
  | bool (value : Bool)
  | int (value : ℤ)
  /-- `none` is not a finite number -/
  | float (value : Option ℚ)
  | string (value : String)
  | array (items : List Json)
  | object (fields : List (String × Json))

abbrev Fields : Type := List (String × Json)

/-- `dict.get`. -/
def get (fields : Fields) (key : String) : Option Json :=
  (fields.find? fun field => field.1 == key).map fun field => field.2

namespace Json

/-- The value, if it is an instance of `int`. -/
def asInt : Json → Option ℤ
  | bool value => some (if value then 1 else 0)
  | int value => some value
  | _ => none

/-- The integer that the value equals. -/
def number : Json → Option ℤ
  | bool value => some (if value then 1 else 0)
  | int value => some value
  | float (some value) => if value.den = 1 then some value.num else none
  | _ => none

end Json

/-! ## §2 SHA-256 -/

/-- `hashlib.sha256(data).digest()`. -/
def sha256 (data : List UInt8) : List UInt8 :=
  let blocks := BlockStream.blocks 512 (Fips180.pad (BitString.ofBytes data))
  (blocks.foldl (Fips180.compressWith Fips180.K) Fips180.H0).toList.flatMap fun word =>
    BigEndian.toBe 4 word.toNat

/-! ## §3 The checks -/

def check (ok : Bool) (message : String) : Except String Unit :=
  if ok then .ok () else .error message

def requiredKeys : List String :=
  ["base_addr", "image_len", "body_range", "code_area_len", "code_area_hash", "erase_range",
    "write_chunks"]

/-- A list of strings as Python prints it. -/
def showList (items : List String) : String :=
  "[" ++ ", ".intercalate (items.map fun item => "'" ++ item ++ "'") ++ "]"

/-- `f"{value:#x}"`. -/
def showHex (value : ℤ) : String :=
  (if value < 0 then "-0x" else "0x") ++ String.ofList (Nat.toDigits 16 value.natAbs)

def requireRange (value : Json) (name : String) : Except String (ℤ × ℤ) :=
  match value with
  | .object fields =>
    let startKey := if name = "body_range" then "image_offset" else "start"
    match (get fields startKey).bind Json.asInt, (get fields "len").bind Json.asInt with
    | some start, some length =>
      if start < 0 ∨ length ≤ 0 then .error (name ++ " must be non-negative and non-empty")
      else .ok (start, length)
    | _, _ => .error (name ++ " must contain integer " ++ startKey ++ " and len")
  | _ => .error (name ++ " must be an object")

def requireBase (value : Json) (expected : Option ℤ) : Except String ℤ :=
  match value.asInt with
  | none => .error "base_addr must be a non-negative integer"
  | some base =>
    if base < 0 then .error "base_addr must be a non-negative integer"
    else if expected.any (· ≠ base) then
      .error ("unexpected base_addr: " ++ showHex base ++ ", expected " ++
        showHex (expected.getD base))
    else .ok base

/-- The bytes of a list of integers from 0 to 255. -/
def asBytes : List Json → Option (List UInt8)
  | [] => some []
  | item :: items =>
    match item.asInt with
    | some byte =>
      if 0 ≤ byte ∧ byte ≤ 255 then (asBytes items).map (UInt8.ofNat byte.toNat :: ·) else none
    | none => none

def requireHash (value : Json) : Except String (List UInt8) :=
  match value with
  | .array items =>
    match asBytes items with
    | some bytes =>
      if bytes.length = 32 then .ok bytes
      else .error "code_area_hash must contain exactly 32 bytes"
    | none => .error "code_area_hash must contain exactly 32 bytes"
  | _ => .error "code_area_hash must contain exactly 32 bytes"

structure Chunk where
  addr : ℤ
  offset : ℤ
  length : ℤ

/-- One entry of `write_chunks`, against the image, its base and the erase range. -/
def requireChunk (imageLen base eraseStart eraseEnd : ℤ) (index : ℕ) (value : Json) :
    Except String Chunk :=
  let label := "write_chunks[" ++ toString index ++ "]"
  match value with
  | .object fields =>
    match (get fields "addr").bind Json.asInt, (get fields "image_offset").bind Json.asInt,
        (get fields "len").bind Json.asInt with
    | some addr, some offset, some length =>
      if offset < 0 ∨ length ≤ 0 ∨ offset + length > imageLen then
        .error (label ++ " extends beyond the image")
      else if addr ≠ base + offset then .error (label ++ " address does not match image offset")
      else if addr < eraseStart ∨ addr + length > eraseEnd then
        .error (label ++ " extends beyond erase_range")
      else .ok ⟨addr, offset, length⟩
    | _, _, _ => .error (label ++ " fields must be integers")
  | _ => .error (label ++ " must be an object")

/-- The loop over `write_chunks`. -/
def requireChunks (imageLen base eraseStart eraseEnd : ℤ) : ℕ → List Json →
    Except String (List Chunk)
  | _, [] => .ok []
  | index, value :: values => do
    let chunk ← requireChunk imageLen base eraseStart eraseEnd index value
    let chunks ← requireChunks imageLen base eraseStart eraseEnd (index + 1) values
    return chunk :: chunks

/-- The part of the image that a chunk writes. -/
def Chunk.covered (chunk : Chunk) : ℤ × ℤ := (chunk.offset, chunk.offset + chunk.length)

/-! ## §4 The plan -/

/-- `image[start:stop]`, for non-negative bounds. -/
def slice (image : List UInt8) (start stop : ℤ) : List UInt8 :=
  (image.take stop.toNat).drop start.toNat

/-- `plan[key]`, once the key is known to be there. -/
def field (plan : Fields) (key : String) : Json := (get plan key).getD .null

/-- The integer that `body_range["flash_addr"]` equals. -/
def bodyFlashAddr (value : Json) : Option ℤ :=
  match value with
  | .object fields => (get fields "flash_addr").bind Json.number
  | _ => none

def writeChunks (value : Json) : List Json :=
  match value with
  | .array items => items
  | _ => []

def validateFlashPlan (plan : Fields) (image : List UInt8) (expectedBaseAddress : Option ℤ) :
    Except String Unit := do
  let missing := requiredKeys.filter fun key => (get plan key).isNone
  check missing.isEmpty ("missing plan keys: " ++ showList missing)
  let base ← requireBase (field plan "base_addr") expectedBaseAddress
  check ((field plan "image_len").number = some (image.length : ℤ))
    "plan image_len does not match image file size"
  let (bodyOffset, bodyLen) ← requireRange (field plan "body_range") "body_range"
  check (bodyOffset + bodyLen ≤ image.length) "body_range extends beyond the image"
  check (bodyFlashAddr (field plan "body_range") = some (base + bodyOffset))
    "body_range flash_addr does not match base_addr + image_offset"
  check ((field plan "code_area_len").number = some bodyLen)
    "code_area_len does not match body_range.len"
  let expectedHash ← requireHash (field plan "code_area_hash")
  check (sha256 (slice image bodyOffset (bodyOffset + bodyLen)) = expectedHash)
    "code_area_hash does not match the planned image body"
  let (eraseStart, eraseLen) ← requireRange (field plan "erase_range") "erase_range"
  check (eraseStart ≤ base && base + image.length ≤ eraseStart + eraseLen)
    "erase_range does not cover the complete planned image"
  check (!(writeChunks (field plan "write_chunks")).isEmpty) "write_chunks must not be empty"
  let chunks ← requireChunks image.length base eraseStart (eraseStart + eraseLen) 0
    (writeChunks (field plan "write_chunks"))
  check (Tiling.walk 0 ((chunks.map Chunk.covered).mergeSort Tiling.before) = some (image.length : ℤ))
    "write_chunks must cover the complete image exactly once"

/-! ## §5 Programming -/

/-- The numbers of a plan. -/
structure Plan where
  base : ℤ
  bodyFlashAddr : ℤ
  bodyLen : ℤ
  codeAreaHash : List UInt8
  eraseStart : ℤ
  eraseEnd : ℤ
  chunks : List Chunk

/-- A flash memory. Programming may depend on what is there, as where it can only
clear bits, but not after an erase. -/
structure Device where
  erased : UInt8
  program : UInt8 → UInt8 → UInt8
  program_erased : ∀ byte, program erased byte = byte

abbrev Flash : Type := ℤ → UInt8

def Chunk.writes (chunk : Chunk) (address : ℤ) : Bool :=
  chunk.addr ≤ address && address < chunk.addr + chunk.length

namespace Device

variable (device : Device) (image : List UInt8)

def erase (start stop : ℤ) (flash : Flash) : Flash := fun address =>
  if start ≤ address ∧ address < stop then device.erased else flash address

def writeChunk (flash : Flash) (chunk : Chunk) : Flash := fun address =>
  if chunk.writes address then
    device.program (flash address) (image.getD (chunk.offset + (address - chunk.addr)).toNat 0)
  else flash address

/-- The range is erased, then the chunks are written in the given order. -/
def programPlan (plan : Plan) (order : List Chunk) (flash : Flash) : Flash :=
  order.foldl (device.writeChunk image) (device.erase plan.eraseStart plan.eraseEnd flash)

end Device

def readFlash (flash : Flash) (start length : ℤ) : List UInt8 :=
  (List.range length.toNat).map fun i : ℕ => flash (start + i)

/-- What programming is to achieve, whatever the device holds and in whatever order the
chunks are written. -/
structure Programs (plan : Plan) (image : List UInt8) (device : Device) (before : Flash)
    (order : List Chunk) : Prop where
  programmed : ∀ i (hi : i < image.length),
    device.programPlan image plan order before (plan.base + i) = image[i]
  once : ∀ i < image.length, order.countP (fun chunk => chunk.writes (plan.base + i)) = 1
  inside : ∀ chunk ∈ order, ∀ address, chunk.writes address = true →
    (plan.eraseStart ≤ address ∧ address < plan.eraseEnd) ∧
      plan.base ≤ address ∧ address < plan.base + image.length
  outside : ∀ address, ¬ (plan.eraseStart ≤ address ∧ address < plan.eraseEnd) →
    device.programPlan image plan order before address = before address
  body : sha256 (readFlash (device.programPlan image plan order before) plan.bodyFlashAddr
    plan.bodyLen) = plan.codeAreaHash

/-- The numbers that a JSON plan gives. -/
def asRange (value : Json) (startKey : String) : Option (ℤ × ℤ) :=
  match value with
  | .object fields =>
    match (get fields startKey).bind Json.asInt, (get fields "len").bind Json.asInt with
    | some start, some length => some (start, length)
    | _, _ => none
  | _ => none

def asChunk (value : Json) : Option Chunk :=
  match value with
  | .object fields =>
    match (get fields "addr").bind Json.asInt, (get fields "image_offset").bind Json.asInt,
        (get fields "len").bind Json.asInt with
    | some addr, some offset, some length => some ⟨addr, offset, length⟩
    | _, _, _ => none
  | _ => none

def readPlan (plan : Fields) : Option Plan := do
  let base ← (field plan "base_addr").asInt
  let flashAddr ← bodyFlashAddr (field plan "body_range")
  let body ← asRange (field plan "body_range") "image_offset"
  let hash ← match field plan "code_area_hash" with
    | .array items => asBytes items
    | _ => none
  let erase ← asRange (field plan "erase_range") "start"
  let chunks ← (writeChunks (field plan "write_chunks")).mapM asChunk
  return ⟨base, flashAddr, body.2, hash, erase.1, erase.1 + erase.2, chunks⟩

/-! ## §6 Layouts -/

/-- A way to write an image: where it goes, what is erased, which part is the body, and
a partition of the image into pieces with the order in which they are listed. Ranges of the flash
begin at 0 or above. -/
structure Layout (image : List UInt8) where
  base : ℕ
  bodyOffset : ℕ
  bodyLen : ℕ
  bodyLen_pos : 0 < bodyLen
  body_le : bodyOffset + bodyLen ≤ image.length
  eraseStart : ℕ
  eraseLen : ℕ
  eraseStart_le : eraseStart ≤ base
  le_eraseEnd : base + image.length ≤ eraseStart + eraseLen
  lengths : List ℕ
  lengths_pos : ∀ length ∈ lengths, 0 < length
  lengths_sum : lengths.sum = image.length
  listed : List (ℤ × ℤ)
  listed_perm : listed.Perm (Tiling.pieces 0 (lengths.map Nat.cast))

namespace Layout

variable {image : List UInt8} (layout : Layout image)

def body : List UInt8 := slice image layout.bodyOffset (layout.bodyOffset + layout.bodyLen)

/-- The chunk of a piece of the image. -/
def chunk (piece : ℤ × ℤ) : Chunk := ⟨layout.base + piece.1, piece.1, piece.2 - piece.1⟩

/-- `value` is an object that describes the piece. -/
def DescribesChunk (value : Json) (piece : ℤ × ℤ) : Prop :=
  ∃ fields, value = .object fields ∧ get fields "addr" = some (.int (layout.chunk piece).addr) ∧
    get fields "image_offset" = some (.int (layout.chunk piece).offset) ∧
    get fields "len" = some (.int (layout.chunk piece).length)

/-- The entries of the plan are the layout's; there may be others, in any order. -/
structure Describes (plan : Fields) : Prop where
  base_addr : get plan "base_addr" = some (.int layout.base)
  image_len : get plan "image_len" = some (.int image.length)
  body_range : ∃ fields, get plan "body_range" = some (.object fields) ∧
    get fields "image_offset" = some (.int layout.bodyOffset) ∧
    get fields "flash_addr" = some (.int (layout.base + layout.bodyOffset)) ∧
    get fields "len" = some (.int layout.bodyLen)
  code_area_len : get plan "code_area_len" = some (.int layout.bodyLen)
  code_area_hash : get plan "code_area_hash" =
    some (.array ((sha256 layout.body).map fun byte => .int byte.toNat))
  erase_range : ∃ fields, get plan "erase_range" = some (.object fields) ∧
    get fields "start" = some (.int layout.eraseStart) ∧
    get fields "len" = some (.int layout.eraseLen)
  write_chunks : ∃ values, get plan "write_chunks" = some (.array values) ∧
    List.Forall₂ layout.DescribesChunk values layout.listed

def chunkJson (piece : ℤ × ℤ) : Json :=
  .object [("addr", .int (layout.chunk piece).addr),
    ("image_offset", .int (layout.chunk piece).offset), ("len", .int (layout.chunk piece).length)]

/-- A plan of the layout. -/
def planOf : Fields :=
  [("base_addr", .int layout.base), ("image_len", .int image.length),
    ("body_range", .object [("image_offset", .int layout.bodyOffset),
      ("flash_addr", .int (layout.base + layout.bodyOffset)), ("len", .int layout.bodyLen)]),
    ("code_area_len", .int layout.bodyLen),
    ("code_area_hash", .array ((sha256 layout.body).map fun byte => .int byte.toNat)),
    ("erase_range", .object [("start", .int layout.eraseStart), ("len", .int layout.eraseLen)]),
    ("write_chunks", .array (layout.listed.map layout.chunkJson))]

end Layout

end HisiRiscv.Hil.FlashPlan
