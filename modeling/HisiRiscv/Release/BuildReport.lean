/-
HisiRiscv.Release.BuildReport — `assemble` of `assemble-radio-build-report.py`.

A resource report says how much memory a build of the radio needs. `assemble` accepts twelve
revisions of it, with other checks for each, and merges it with the plan for the flash. Each
block of checks says for which revisions it is, as in the source.

Translation notes. The reports are given as the JSON values that they hold. `elftools` is not
part of the repository: it is the parameter `elffile`, which returns what is read of an ELF
file, or nothing when it raises an exception. `readInt` is `resource[key]` of a key that has
been checked to be there, with an integer. Exceptions other than `ValueError` are `.other`.

  §1 Reports.
  §2 ELF files.
  §3 The checks of each revision.
  §4 Tasks.
  §5 The storage of the second layer.
  §6 The merged report.
-/
import HisiRiscv.Lib.OrderedDict
import HisiRiscv.Release.Checksums

namespace HisiRiscv.Release.BuildReport

open HisiRiscv.Hil.FlashPlan (Json Fields get showList)

/-! ## §1 Reports -/

/-- `RESOURCE_SCHEMAS`. -/
inductive Revision where
  | v3
  | v4
  | v5
  | v6
  | v7
  | v8
  | v9
  | v10
  | v11
  | v12
  | v13
  | v14
  deriving DecidableEq

namespace Revision

/-- What follows the last slash of the schema. -/
def name : Revision → String
  | v3 => "v3"
  | v4 => "v4"
  | v5 => "v5"
  | v6 => "v6"
  | v7 => "v7"
  | v8 => "v8"
  | v9 => "v9"
  | v10 => "v10"
  | v11 => "v11"
  | v12 => "v12"
  | v13 => "v13"
  | v14 => "v14"

def all : List Revision := [v3, v4, v5, v6, v7, v8, v9, v10, v11, v12, v13, v14]

def schema (revision : Revision) : String := "hisi-rf-resource-report/" ++ revision.name

def ofSchema (schema : String) : Option Revision := all.find? fun revision => revision.schema = schema

end Revision

inductive Raised where
  | valueError (message : String)
  /-- the text of this one shows the schema -/
  | unsupported (schema : Json)
  | other

def check (ok : Prop) [Decidable ok] (message : String) : Except Raised Unit :=
  if ok then .ok () else .error (.valueError message)

/-- `load_object`, of the value. -/
def loadObject (value : Json) (label : String) : Except Raised Fields :=
  match value with
  | .object fields => .ok fields
  | _ => .error (.valueError (label ++ " must contain one JSON object"))

/-- The check that a key has an integer that is not a Boolean, and not below `least`. -/
def requireInt (least : ℤ) (fields : Fields) (message : String) (key : String) :
    Except Raised Unit :=
  match get fields key with
  | some (.int value) => check (least ≤ value) message
  | _ => .error (.valueError message)

def requireInts (least : ℤ) (fields : Fields) (message : String → String) :
    List String → Except Raised Unit
  | [] => .ok ()
  | key :: keys => do
    requireInt least fields (message key) key
    requireInts least fields message keys

def readInt (fields : Fields) (key : String) : ℤ :=
  match get fields key with
  | some (.int value) => value
  | _ => 0

/-- `fields[key] = value`. -/
def insert (fields : Fields) (key : String) (value : Json) : Fields :=
  OrderedDict.insert Prod.fst fields (key, value)

/-! ## §2 ELF files -/

structure Symbol where
  size : ℕ
  value : ℕ
  /-- none for an index with a name of its own -/
  shndx : Option ℕ

structure Section where
  addr : ℕ
  size : ℕ
  data : List UInt8
  /-- `get_symbol_by_name`, of a symbol table -/
  symbols : Option (String → List Symbol)

structure ElfFile where
  elfclass : ℕ
  littleEndian : Bool
  machine : String
  sectionByName : String → Option Section
  /-- `get_section` -/
  sections : ℕ → Option Section

structure File where
  path : String
  name : String
  /-- none if it is not a file -/
  data : Option (List UInt8)

/-! ## §3 The checks of each revision -/

variable (revision : Revision) (resource : Fields)

def checkTasks : Except Raised Unit :=
  if revision ∈ [.v4, .v5, .v6, .v7, .v8, .v9, .v10, .v11, .v12, .v13, .v14] then
    requireInts 0 resource ("resource report v4 requires non-negative integer " ++ ·)
      ["runtime_internal_tasks", "task_stack_bytes"]
  else .ok ()

def checkSharedArena : Except Raised Unit :=
  if revision ∈ [.v5, .v6, .v7, .v8, .v9, .v10, .v11, .v12, .v13, .v14] then
    requireInt 1 resource ("resource report " ++ revision.name ++
      " requires positive integer shared_rf_arena_bytes") "shared_rf_arena_bytes"
  else .ok ()

def positiveKeys : List String :=
  ["event_capacity", "caller_owned_bytes", "control_storage_bytes", "radio_state_bytes",
    "crypto_dma_bytes", "arena_storage_bytes", "main_stack_bytes_required",
    "dynamic_tasks_required", "task_stack_bytes"]

def nonNegativeKeys : List String := ["composition_handle_bytes", "linker_packet_ram_bytes"]

def isBool : Option Json → Bool
  | some (.bool _) => true
  | _ => false

def checkRegions : Except Raised Unit :=
  if revision ∈ [.v6, .v7, .v8, .v9, .v10, .v11, .v12, .v13, .v14] then do
    requireInts 1 resource ("resource report v6 requires positive integer " ++ ·) positiveKeys
    requireInts 0 resource ("resource report v6 requires non-negative integer " ++ ·)
      nonNegativeKeys
    check (readInt resource "shared_rf_arena_bytes" ≤ readInt resource "arena_storage_bytes")
      ("resource report " ++ revision.name ++
        " arena_storage_bytes must cover shared_rf_arena_bytes")
    check (isBool (get resource "runtime_resources_calibrated"))
      ("resource report " ++ revision.name ++ " requires boolean runtime_resources_calibrated")
  else .ok ()

def checkV6 : Except Raised Unit :=
  if revision = .v6 then
    check (readInt resource "caller_owned_bytes" =
        readInt resource "control_storage_bytes" + readInt resource "arena_storage_bytes")
      ("resource report v6 caller_owned_bytes must equal " ++
        "control_storage_bytes + arena_storage_bytes")
  else .ok ()

def checkV7 : Except Raised Unit :=
  if revision = .v7 then do
    requireInt 1 resource "resource report v7 requires positive integer task_stack_arena_bytes"
      "task_stack_arena_bytes"
    check (readInt resource "task_stack_bytes" ≤ readInt resource "task_stack_arena_bytes")
      "resource report v7 task_stack_arena_bytes must cover task_stack_bytes"
    check (readInt resource "caller_owned_bytes" =
        readInt resource "control_storage_bytes" + readInt resource "arena_storage_bytes" +
          readInt resource "task_stack_arena_bytes")
      ("resource report v7 caller_owned_bytes must equal control_storage_bytes " ++
        "+ arena_storage_bytes + task_stack_arena_bytes")
  else .ok ()

def checkRuntimeArena : Except Raised Unit :=
  if revision ∈ [.v8, .v9, .v10, .v11, .v12, .v13, .v14] then do
    requireInts 1 resource
      (("resource report " ++ revision.name ++ " requires positive integer ") ++ ·)
      ["runtime_object_headroom_bytes", "runtime_arena_bytes"]
    check (readInt resource "task_stack_bytes" + readInt resource "runtime_object_headroom_bytes" ≤
        readInt resource "runtime_arena_bytes")
      ("resource report " ++ revision.name ++ " runtime_arena_bytes must cover " ++
        "task_stack_bytes + runtime_object_headroom_bytes")
    check (readInt resource "caller_owned_bytes" =
        readInt resource "control_storage_bytes" + readInt resource "arena_storage_bytes" +
          readInt resource "runtime_arena_bytes")
      ("resource report " ++ revision.name ++ " caller_owned_bytes must equal " ++
        "control_storage_bytes + arena_storage_bytes + runtime_arena_bytes")
  else .ok ()

def checkMinimumStack : Except Raised Unit :=
  if revision ∈ [.v9, .v10, .v11, .v12, .v13, .v14] then
    requireInt 1 resource
      "resource report v9+ requires positive integer minimum_task_stack_bytes"
      "minimum_task_stack_bytes"
  else .ok ()

/-! ## §4 Tasks -/

/-- One of the two values of the worker, which may be left out from v12 on. -/
def workerValue (key : String) : Except Raised ℤ :=
  let error := .error (.valueError ("resource report " ++ revision.name ++
    " requires a non-negative integer or absent optional worker value for " ++ key))
  match get resource key with
  | none | some .null => if revision ∈ [.v12, .v13, .v14] then .ok 0 else error
  | some (.int value) => if 0 ≤ value then .ok value else error
  | _ => error

/-- The slots and the stacks of the coexistence group. -/
def coexistence : Except Raised (ℤ × ℤ) :=
  if revision ∈ [.v11, .v12, .v13, .v14] then do
    requireInts 0 resource
      (("resource report " ++ revision.name ++ " requires non-negative integer ") ++ ·)
      ["coexistence_task_slots", "coexistence_stack_bytes"]
    check (readInt resource "coexistence_task_slots" = 0 ↔
        readInt resource "coexistence_stack_bytes" = 0)
      ("resource report " ++ revision.name ++ " coexistence slots and stacks must both be zero " ++
        "or both be positive")
    .ok (readInt resource "coexistence_task_slots", readInt resource "coexistence_stack_bytes")
  else .ok (0, 0)

def validateTaskResourceTree : Except Raised Unit :=
  if revision ∈ [.v10, .v11, .v12, .v13, .v14] then do
    requireInts 1 resource
      (("resource report " ++ revision.name ++ " requires positive integer ") ++ ·)
      ["vendor_task_slots", "vendor_stack_bytes_per_task"]
    let workerSlots ← workerValue revision resource "worker_task_slots"
    let workerStackBytes ← workerValue revision resource "worker_stack_bytes_per_task"
    check (workerSlots = 0 ↔ workerStackBytes = 0)
      ("resource report " ++ revision.name ++ " worker slots and stack bytes must " ++
        "both be absent/zero or both be positive")
    let (coexistenceSlots, coexistenceStacks) ← coexistence revision resource
    check (readInt resource "dynamic_tasks_required" =
        readInt resource "vendor_task_slots" + workerSlots + coexistenceSlots)
      ("resource report " ++ revision.name ++ " task total does not equal child groups")
    check (readInt resource "task_stack_bytes" =
        readInt resource "vendor_task_slots" * readInt resource "vendor_stack_bytes_per_task" +
          workerSlots * workerStackBytes + coexistenceStacks)
      ("resource report " ++ revision.name ++ " stack total does not equal child groups")
  else .ok ()

/-! ## §5 The storage of the second layer -/

def l2Keys : List String :=
  ["rx_slots", "tx_slots", "mtu", "payload_bytes", "metadata_bytes", "total_bytes"]

def validateL2Storage : Except Raised Unit :=
  if revision = .v14 then
    match get resource "l2_storage" with
    | some (.object l2) => do
      requireInts 1 l2 ("resource report v14 requires positive L2 " ++ ·) l2Keys
      requireInt 0 resource "resource report v14 requires non-negative l2_storage_offset"
        "l2_storage_offset"
      check (readInt l2 "payload_bytes" =
          (readInt l2 "rx_slots" + readInt l2 "tx_slots") * readInt l2 "mtu")
        "resource report v14 L2 payload does not equal slot capacity"
      check (readInt l2 "total_bytes" = readInt l2 "payload_bytes" + readInt l2 "metadata_bytes")
        "resource report v14 L2 size does not equal its children"
      check (readInt resource "l2_storage_offset" + readInt l2 "total_bytes" ≤
          readInt resource "control_storage_bytes")
        "resource report v14 L2 storage exceeds control storage"
    | _ => .error (.valueError "resource report v14 requires l2_storage")
  else .ok ()

/-- The one symbol of a name. -/
def unique (parsed : ElfFile) (name : String) : Except Raised Symbol :=
  let error := .error (.valueError ("v14 target layout is missing or ambiguous: " ++ name))
  match parsed.sectionByName ".symtab" with
  | none => error
  | some table =>
    match table.symbols with
    | none => .error .other
    | some symbols =>
      match symbols name with
      | [symbol] => .ok symbol
      | _ => error

/-- The words of the descriptor that the report asks for; the first is `NET0`. -/
def expectedWords (l2 : Fields) : List ℤ :=
  [0x3054454e, 1, readInt resource "control_storage_bytes", readInt resource "l2_storage_offset",
    readInt l2 "total_bytes", readInt l2 "payload_bytes", readInt l2 "metadata_bytes",
    readInt l2 "rx_slots", readInt l2 "tx_slots", readInt l2 "mtu",
    readInt resource "arena_storage_bytes" + readInt resource "runtime_arena_bytes",
    readInt resource "main_stack_bytes_required", readInt resource "linker_packet_ram_bytes"]

/-- `struct.unpack("<13I", data)`. -/
def unpackWords (data : List UInt8) : List ℤ :=
  (List.range 13).map fun i => BigEndian.fromBe ((data.drop (4 * i)).take 4).reverse

def l2Fields : Fields :=
  match get resource "l2_storage" with
  | some (.object l2) => l2
  | _ => []

def validateL2Layout (parsed : ElfFile) : Except Raised Unit :=
  if revision = .v14 then do
    check (parsed.elfclass = 32 ∧ parsed.littleEndian = true ∧ parsed.machine = "EM_RISCV")
      "resource report v14 requires the RV32 target ELF"
    let control ← unique parsed "NET0_CONTROL"
    let layout ← unique parsed "NET0_STORAGE_LAYOUT"
    check (control.size = readInt resource "control_storage_bytes" ∧ layout.size = 52)
      "v14 control storage or descriptor size differs from target ELF"
    match layout.shndx.bind parsed.sections with
    | none => .error .other
    | some sec => do
      check (sec.addr ≤ layout.value ∧ layout.value - sec.addr + 52 ≤ sec.data.length)
        "v14 descriptor is outside its ELF section"
      check (unpackWords ((sec.data.drop (layout.value - sec.addr)).take 52) =
          expectedWords resource (l2Fields resource))
        "v14 resource report differs from target-built layout descriptor"
  else .ok ()

/-! ## §6 The merged report -/

/-- The size of the section with the arenas, for the revisions that have it. -/
def linkedSharedArenaBytes (parsed : Option ElfFile) : Except Raised (Option ℕ) :=
  if revision ∈ [.v10, .v11, .v12, .v13, .v14] then
    match parsed with
    | none => .error .other
    | some parsed => do
      validateL2Layout revision resource parsed
      match parsed.sectionByName ".hisi_shared_arenas" with
      | none => .error (.valueError "ELF is missing .hisi_shared_arenas")
      | some sec => do
        let expected := readInt resource "arena_storage_bytes" + readInt resource "runtime_arena_bytes"
        check (sec.size = expected)
          ("ELF .hisi_shared_arenas size does not match resource report: linked=" ++
            toString sec.size ++ ", expected=" ++ toString expected)
        .ok (some sec.size)
  else .ok none

def planKeys : List String :=
  ["base_addr", "image_len", "body_range", "code_area_len", "code_area_hash", "erase_range",
    "write_chunks"]

def getD (fields : Fields) (key : String) : Json := (get fields key).getD .null

def hexdigest (data : List UInt8) : Json := .string (String.ofList (sha data))

def findRevision : Except Raised Revision :=
  match get resource "schema" with
  | some (.string schema) =>
    match Revision.ofSchema schema with
    | some revision => .ok revision
    | none => .error (.unsupported (.string schema))
  | some (.array _) | some (.object _) => .error .other
  | schema => .error (.unsupported (schema.getD .null))

/-- The checks of the report on its own, up to those of the tasks. -/
def checkResource : Except Raised Unit := do
  checkTasks revision resource
  checkSharedArena revision resource
  checkRegions revision resource
  checkV6 revision resource
  checkV7 revision resource
  checkRuntimeArena revision resource
  checkMinimumStack revision resource

/-- The checks of the plan and of the two files; their contents. -/
def checkFiles (plan : Fields) (elf image : File) : Except Raised (List UInt8 × List UInt8) := do
  let missing := planKeys.filter fun key => (get plan key).isNone
  check (missing = []) ("FlashPlan is missing keys: " ++ showList missing)
  match elf.data with
  | none => .error (.valueError ("ELF does not exist: " ++ elf.path))
  | some elfData =>
    match image.data with
    | none => .error (.valueError ("image does not exist: " ++ image.path))
    | some imageData => do
      check ((get plan "image_len").bind Json.number = some (imageData.length : ℤ))
        "FlashPlan image_len does not match the generated image"
      .ok (elfData, imageData)

def report (resource plan : Fields) (planData elfData imageData : List UInt8)
    (elf image : File) (linked : Option ℕ) : Json :=
  let resolved := insert resource "flash_bytes" (getD plan "image_len")
  let resolved :=
    match linked with
    | some bytes => insert resolved "linked_shared_arena_bytes" (.int bytes)
    | none => resolved
  .object [("schema", .string "hisi-rf-build-report/v1"), ("profile", getD resource "profile"),
    ("profile_revision", getD resource "profile_revision"), ("resource", .object resolved),
    ("artifact", .object [("elf_name", .string elf.name), ("elf_file_bytes", .int elfData.length),
      ("elf_sha256", hexdigest elfData), ("image_name", .string image.name),
      ("image_bytes", .int imageData.length), ("image_sha256", hexdigest imageData),
      ("flash_plan_sha256", hexdigest planData),
      ("flash_plan", .object (planKeys.map fun key => (key, getD plan key)))])]

/-- The files of the plan and of the two artifacts, and what the parser makes of an ELF file. -/
structure Build where
  plan : Json
  planData : List UInt8
  elf : File
  image : File
  elffile : List UInt8 → Option ElfFile

def assemble (resource : Json) (build : Build) : Except Raised Json := do
  let resource ← loadObject resource "resource report"
  let plan ← loadObject build.plan "FlashPlan"
  let revision ← findRevision resource
  checkResource revision resource
  let (elfData, imageData) ← checkFiles plan build.elf build.image
  validateTaskResourceTree revision resource
  validateL2Storage revision resource
  let linked ← linkedSharedArenaBytes revision resource (build.elffile elfData)
  .ok (report resource plan build.planData elfData imageData build.elf build.image linked)

end HisiRiscv.Release.BuildReport
