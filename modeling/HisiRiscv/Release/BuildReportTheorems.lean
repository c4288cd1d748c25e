/-
HisiRiscv.Release.BuildReportTheorems — an accepted resource report accounts for its bytes.

The checks of `assemble` are read back block by block (§2). From the revision on that brings
it each law holds for every later one, since no list of revisions leaves one out
(`mem_since`). The laws determine each of the totals by the rest of the report, the ELF
file and the plan, so that no total can be changed alone (`Detects`).

  §1 The laws.
  §2 What the checks say.
  §3 An accepted report.
  §4 A changed report.
  §5 Main results.
-/
import HisiRiscv.Hil.FlashPlanTheorems
import HisiRiscv.Release.BuildReport

namespace HisiRiscv.Release.BuildReport

open HisiRiscv.Hil.FlashPlan (Json Fields get bind_eq_ok)

/-! ## §1 The laws -/

def Revision.number : Revision → ℕ
  | .v3 => 3
  | .v4 => 4
  | .v5 => 5
  | .v6 => 6
  | .v7 => 7
  | .v8 => 8
  | .v9 => 9
  | .v10 => 10
  | .v11 => 11
  | .v12 => 12
  | .v13 => 13
  | .v14 => 14

/-- The regions that the caller owns. -/
def Revision.regions : Revision → List String
  | .v3 | .v4 | .v5 => []
  | .v6 => ["control_storage_bytes", "arena_storage_bytes"]
  | .v7 => ["control_storage_bytes", "arena_storage_bytes", "task_stack_arena_bytes"]
  | .v8 | .v9 | .v10 | .v11 | .v12 | .v13 | .v14 =>
    ["control_storage_bytes", "arena_storage_bytes", "runtime_arena_bytes"]

/-- The key has an integer, not below `least`. -/
def IntFrom (least : ℤ) (fields : Fields) (key : String) : Prop :=
  ∃ value, get fields key = some (.int value) ∧ least ≤ value

/-- A value of the worker group that may be absent. -/
def Optional (revision : Revision) (fields : Fields) (key : String) : Prop :=
  IntFrom 0 fields key ∨
    12 ≤ revision.number ∧ (get fields key = none ∨ get fields key = some .null)

/-- The totals are those of the vendor, the worker and, from v11 on, the coexistence group. -/
structure Grouped (revision : Revision) (resource : Fields) : Prop where
  vendor : ∀ key ∈ ["vendor_task_slots", "vendor_stack_bytes_per_task"], IntFrom 1 resource key
  worker : ∀ key ∈ ["worker_task_slots", "worker_stack_bytes_per_task"],
    Optional revision resource key
  coexistence : 11 ≤ revision.number →
    ∀ key ∈ ["coexistence_task_slots", "coexistence_stack_bytes"], IntFrom 0 resource key
  slots : readInt resource "dynamic_tasks_required" =
    readInt resource "vendor_task_slots" + readInt resource "worker_task_slots" +
      (if 11 ≤ revision.number then readInt resource "coexistence_task_slots" else 0)
  stackBytes : readInt resource "task_stack_bytes" =
    readInt resource "vendor_task_slots" * readInt resource "vendor_stack_bytes_per_task" +
      readInt resource "worker_task_slots" * readInt resource "worker_stack_bytes_per_task" +
      (if 11 ≤ revision.number then readInt resource "coexistence_stack_bytes" else 0)

/-- The words of the descriptor that the target has been built with. -/
def descriptor (parsed : ElfFile) : Option (List ℤ) :=
  match unique parsed "NET0_STORAGE_LAYOUT" with
  | .ok layout =>
    (layout.shndx.bind parsed.sections).map fun sec =>
      unpackWords ((sec.data.drop (layout.value - sec.addr)).take 52)
  | .error _ => none

/-- The region of the second layer. -/
structure Placed (resource l2 : Fields) (parsed : ElfFile) : Prop where
  storage : get resource "l2_storage" = some (.object l2)
  sizes : ∀ key ∈ l2Keys, IntFrom 1 l2 key
  /-- it lies in the control storage -/
  offset : IntFrom 0 resource "l2_storage_offset"
  inside : readInt resource "l2_storage_offset" + readInt l2 "total_bytes" ≤
    readInt resource "control_storage_bytes"
  total : readInt l2 "total_bytes" = readInt l2 "payload_bytes" + readInt l2 "metadata_bytes"
  others : ∀ key ∈ ["main_stack_bytes_required", "linker_packet_ram_bytes"], IntFrom 0 resource key
  words : descriptor parsed = some (expectedWords resource l2)

structure Accounted (revision : Revision) (resource : Fields) (elf : Option ElfFile) : Prop where
  /-- the caller owns its regions and nothing else -/
  integers : 6 ≤ revision.number → ∀ key ∈ "caller_owned_bytes" :: "dynamic_tasks_required" ::
    "task_stack_bytes" :: revision.regions, IntFrom 1 resource key
  caller : 6 ≤ revision.number →
    readInt resource "caller_owned_bytes" = (revision.regions.map (readInt resource)).sum
  /-- the stacks of the tasks have room -/
  stackArena : revision.number = 7 →
    readInt resource "task_stack_bytes" ≤ readInt resource "task_stack_arena_bytes"
  runtimeArena : 8 ≤ revision.number → IntFrom 1 resource "runtime_object_headroom_bytes" ∧
    readInt resource "task_stack_bytes" + readInt resource "runtime_object_headroom_bytes" ≤
      readInt resource "runtime_arena_bytes"
  grouped : 10 ≤ revision.number → Grouped revision resource
  linked : 10 ≤ revision.number → ∃ parsed sec, elf = some parsed ∧
    parsed.sectionByName ".hisi_shared_arenas" = some sec ∧
      (sec.size : ℤ) = readInt resource "arena_storage_bytes" + readInt resource "runtime_arena_bytes"
  placed : revision.number = 14 → ∃ parsed l2, elf = some parsed ∧ Placed resource l2 parsed

/-- The ELF file of a build, as it is read. -/
def Build.parsed (build : Build) : Option ElfFile := build.elf.data.bind build.elffile

def totals : List String :=
  ["caller_owned_bytes", "control_storage_bytes", "arena_storage_bytes", "runtime_arena_bytes",
    "dynamic_tasks_required", "task_stack_bytes"]

/-- None of the totals can be changed alone. -/
structure Detects (revision : Revision) (resource : Fields) (build : Build) : Prop where
  total : 10 ≤ revision.number → ∀ key ∈ totals, ∀ value, get resource key ≠ some value →
    ∃ e, assemble (.object (insert resource key value)) build = .error e
  storage : revision.number = 14 → ∀ l2, get resource "l2_storage" = some (.object l2) →
    ∀ key ∈ l2Keys, ∀ value, get l2 key ≠ some value →
      ∃ e, assemble (.object (insert resource "l2_storage" (.object (insert l2 key value)))) build =
        .error e

/-! ## §2 What the checks say -/

section Checks

variable {revision : Revision} {resource : Fields} {least : ℤ} {key : String} {u : Unit}

theorem check_eq_ok {ok : Prop} [Decidable ok] {message : String} :
    check ok message = .ok u ↔ ok := by
  rw [check]
  split
  · rename_i hok
    exact iff_of_true rfl hok
  · rename_i hok
    exact iff_of_false nofun hok

theorem requireInt_eq_ok {message : String} :
    requireInt least resource message key = .ok u ↔ IntFrom least resource key := by
  rw [requireInt, IntFrom]
  split
  · rename_i value hget
    rw [check_eq_ok, hget]
    constructor
    · intro hle
      exact ⟨value, rfl, hle⟩
    · rintro ⟨value', hvalue, hle⟩
      cases hvalue
      exact hle
  · rename_i hno
    refine iff_of_false nofun ?_
    rintro ⟨value, hget, -⟩
    exact hno value hget

theorem requireInts_eq_ok {message : String → String} {keys : List String} :
    requireInts least resource message keys = .ok u ↔ ∀ key ∈ keys, IntFrom least resource key := by
  induction keys with
  | nil => exact iff_of_true rfl nofun
  | cons key keys ih =>
    rw [requireInts, bind_eq_ok, List.forall_mem_cons]
    constructor
    · rintro ⟨_, hkey, hkeys⟩
      exact ⟨requireInt_eq_ok.mp hkey, ih.mp hkeys⟩
    · rintro ⟨hkey, hkeys⟩
      exact ⟨(), requireInt_eq_ok.mpr hkey, ih.mpr hkeys⟩

/-- The lists of revisions leave none out. -/
theorem mem_since (revision : Revision) :
    (revision ∈ [.v6, .v7, .v8, .v9, .v10, .v11, .v12, .v13, .v14] ↔ 6 ≤ revision.number) ∧
    (revision ∈ [.v8, .v9, .v10, .v11, .v12, .v13, .v14] ↔ 8 ≤ revision.number) ∧
    (revision ∈ [.v10, .v11, .v12, .v13, .v14] ↔ 10 ≤ revision.number) ∧
    (revision ∈ [.v11, .v12, .v13, .v14] ↔ 11 ≤ revision.number) ∧
    (revision ∈ [.v12, .v13, .v14] ↔ 12 ≤ revision.number) := by
  cases revision <;> decide

theorem ofSchema_schema (revision : Revision) :
    Revision.ofSchema revision.schema = some revision := by
  cases revision <;> decide +kernel

theorem checkRegions_eq_ok (h : checkRegions revision resource = .ok u)
    (hrevision : 6 ≤ revision.number) :
    (∀ key ∈ positiveKeys, IntFrom 1 resource key) ∧
      ∀ key ∈ nonNegativeKeys, IntFrom 0 resource key := by
  rw [checkRegions, if_pos ((mem_since revision).1.mpr hrevision), bind_eq_ok] at h
  obtain ⟨_, hpositive, h⟩ := h
  obtain ⟨_, hnonNegative, -⟩ := bind_eq_ok.mp h
  exact ⟨requireInts_eq_ok.mp hpositive, requireInts_eq_ok.mp hnonNegative⟩

theorem checkV6_eq_ok (h : checkV6 revision resource = .ok u) (hrevision : revision = .v6) :
    readInt resource "caller_owned_bytes" =
      readInt resource "control_storage_bytes" + readInt resource "arena_storage_bytes" := by
  rw [checkV6, if_pos hrevision] at h
  exact check_eq_ok.mp h

theorem checkV7_eq_ok (h : checkV7 revision resource = .ok u) (hrevision : revision = .v7) :
    IntFrom 1 resource "task_stack_arena_bytes" ∧
      readInt resource "task_stack_bytes" ≤ readInt resource "task_stack_arena_bytes" ∧
      readInt resource "caller_owned_bytes" =
        readInt resource "control_storage_bytes" + readInt resource "arena_storage_bytes" +
          readInt resource "task_stack_arena_bytes" := by
  rw [checkV7, if_pos hrevision, bind_eq_ok] at h
  obtain ⟨_, harena, h⟩ := h
  obtain ⟨_, hcovers, hsum⟩ := bind_eq_ok.mp h
  exact ⟨requireInt_eq_ok.mp harena, check_eq_ok.mp hcovers, check_eq_ok.mp hsum⟩

theorem checkRuntimeArena_eq_ok (h : checkRuntimeArena revision resource = .ok u)
    (hrevision : 8 ≤ revision.number) :
    (∀ key ∈ ["runtime_object_headroom_bytes", "runtime_arena_bytes"], IntFrom 1 resource key) ∧
      readInt resource "task_stack_bytes" + readInt resource "runtime_object_headroom_bytes" ≤
        readInt resource "runtime_arena_bytes" ∧
      readInt resource "caller_owned_bytes" =
        readInt resource "control_storage_bytes" + readInt resource "arena_storage_bytes" +
          readInt resource "runtime_arena_bytes" := by
  rw [checkRuntimeArena, if_pos ((mem_since revision).2.1.mpr hrevision), bind_eq_ok] at h
  obtain ⟨_, hkeys, h⟩ := h
  obtain ⟨_, hcovers, hsum⟩ := bind_eq_ok.mp h
  exact ⟨requireInts_eq_ok.mp hkeys, check_eq_ok.mp hcovers, check_eq_ok.mp hsum⟩

theorem readInt_of_get {value : ℤ} (h : get resource key = some (.int value)) :
    readInt resource key = value := by
  rw [readInt, h]

/-- A worker value that is absent counts as zero. -/
theorem workerValue_eq_ok {value : ℤ} (h : workerValue revision resource key = .ok value) :
    Optional revision resource key ∧ value = readInt resource key := by
  have absent : ∀ {message : String},
      (if revision ∈ [.v12, .v13, .v14] then .ok 0 else .error (Raised.valueError message)) =
        Except.ok value → 12 ≤ revision.number ∧ value = 0 := by
    intro message h
    split at h
    · rename_i hmem
      cases h
      exact ⟨(mem_since revision).2.2.2.2.mp hmem, rfl⟩
    · cases h
  rw [workerValue] at h
  split at h
  · rename_i hget
    obtain ⟨hrevision, rfl⟩ := absent h
    exact ⟨.inr ⟨hrevision, .inl hget⟩, by rw [readInt, hget]⟩
  · rename_i hget
    obtain ⟨hrevision, rfl⟩ := absent h
    exact ⟨.inr ⟨hrevision, .inr hget⟩, by rw [readInt, hget]⟩
  · rename_i value' hget
    split at h
    · rename_i hle
      cases h
      exact ⟨.inl ⟨_, hget, hle⟩, (readInt_of_get hget).symm⟩
    · cases h
  · cases h

theorem coexistence_eq_ok {totals : ℤ × ℤ} (h : coexistence revision resource = .ok totals) :
    (11 ≤ revision.number → ∀ key ∈ ["coexistence_task_slots", "coexistence_stack_bytes"],
      IntFrom 0 resource key) ∧
    totals.1 = (if 11 ≤ revision.number then readInt resource "coexistence_task_slots" else 0) ∧
    totals.2 = if 11 ≤ revision.number then readInt resource "coexistence_stack_bytes" else 0 := by
  rw [coexistence] at h
  split at h
  · rename_i hmem
    have hrevision := (mem_since revision).2.2.2.1.mp hmem
    obtain ⟨_, hkeys, h⟩ := bind_eq_ok.mp h
    obtain ⟨_, -, h⟩ := bind_eq_ok.mp h
    cases h
    rw [if_pos hrevision, if_pos hrevision]
    exact ⟨fun _ => requireInts_eq_ok.mp hkeys, rfl, rfl⟩
  · rename_i hmem
    have hrevision := mt (mem_since revision).2.2.2.1.mpr hmem
    cases h
    rw [if_neg hrevision, if_neg hrevision]
    exact ⟨fun hle => absurd hle hrevision, rfl, rfl⟩

theorem grouped_of_ok (h : validateTaskResourceTree revision resource = .ok u)
    (hrevision : 10 ≤ revision.number) : Grouped revision resource := by
  rw [validateTaskResourceTree, if_pos ((mem_since revision).2.2.1.mpr hrevision), bind_eq_ok] at h
  obtain ⟨_, hvendor, h⟩ := h
  obtain ⟨slots, hslots, h⟩ := bind_eq_ok.mp h
  obtain ⟨stackBytes, hstack, h⟩ := bind_eq_ok.mp h
  obtain ⟨_, -, h⟩ := bind_eq_ok.mp h
  obtain ⟨⟨coexistenceSlots, coexistenceStacks⟩, hcoexistence, h⟩ := bind_eq_ok.mp h
  obtain ⟨_, htasks, hstacks⟩ := bind_eq_ok.mp h
  obtain ⟨hslots', rfl⟩ := workerValue_eq_ok hslots
  obtain ⟨hstack', rfl⟩ := workerValue_eq_ok hstack
  obtain ⟨hkeys, hfirst, hsecond⟩ := coexistence_eq_ok hcoexistence
  refine ⟨requireInts_eq_ok.mp hvendor, ?_, hkeys, ?_, ?_⟩
  · rw [List.forall_mem_cons, List.forall_mem_singleton]
    exact ⟨hslots', hstack'⟩
  · rw [← hfirst]
    exact check_eq_ok.mp htasks
  · rw [← hsecond]
    exact check_eq_ok.mp hstacks

theorem placed_of_ok {parsed : ElfFile} (hstorage : validateL2Storage revision resource = .ok u)
    (hlayout : validateL2Layout revision resource parsed = .ok u) (hrevision : revision = .v14)
    (hother : ∀ key ∈ ["main_stack_bytes_required", "linker_packet_ram_bytes"],
      IntFrom 0 resource key) :
    ∃ l2, Placed resource l2 parsed := by
  rw [validateL2Storage, if_pos hrevision] at hstorage
  rw [validateL2Layout, if_pos hrevision, bind_eq_ok] at hlayout
  split at hstorage
  · rename_i l2 hl2
    obtain ⟨_, hkeys, hstorage⟩ := bind_eq_ok.mp hstorage
    obtain ⟨_, hoffset, hstorage⟩ := bind_eq_ok.mp hstorage
    obtain ⟨_, -, hstorage⟩ := bind_eq_ok.mp hstorage
    obtain ⟨_, htotal, hinside⟩ := bind_eq_ok.mp hstorage
    obtain ⟨_, -, hlayout⟩ := hlayout
    obtain ⟨control, -, hlayout⟩ := bind_eq_ok.mp hlayout
    obtain ⟨layout, hunique, hlayout⟩ := bind_eq_ok.mp hlayout
    obtain ⟨_, -, hlayout⟩ := bind_eq_ok.mp hlayout
    refine ⟨l2, hl2, requireInts_eq_ok.mp hkeys, requireInt_eq_ok.mp hoffset, check_eq_ok.mp hinside,
      check_eq_ok.mp htotal, hother, ?_⟩
    split at hlayout
    · cases hlayout
    · rename_i sec hsec
      obtain ⟨_, -, hwords⟩ := bind_eq_ok.mp hlayout
      have hwords := check_eq_ok.mp hwords
      rw [l2Fields, hl2] at hwords
      rw [descriptor, hunique]
      dsimp only
      rw [hsec, Option.map_some, hwords]
  · cases hstorage

theorem linked_of_ok {parsed : Option ElfFile} {linked : Option ℕ}
    (h : linkedSharedArenaBytes revision resource parsed = .ok linked)
    (hrevision : 10 ≤ revision.number) :
    ∃ elf sec, parsed = some elf ∧ validateL2Layout revision resource elf = .ok () ∧
      elf.sectionByName ".hisi_shared_arenas" = some sec ∧
      (sec.size : ℤ) =
        readInt resource "arena_storage_bytes" + readInt resource "runtime_arena_bytes" := by
  unfold linkedSharedArenaBytes at h
  rw [if_pos ((mem_since revision).2.2.1.mpr hrevision)] at h
  split at h
  · cases h
  · rename_i elf
    obtain ⟨_, hlayout, h⟩ := bind_eq_ok.mp h
    split at h
    · cases h
    · rename_i sec hsec
      obtain ⟨_, hsize, -⟩ := bind_eq_ok.mp h
      exact ⟨elf, sec, rfl, hlayout, hsec, check_eq_ok.mp hsize⟩

end Checks

/-! ## §3 An accepted report -/

section Accepted

variable {revision : Revision} {resource : Fields} {build : Build} {report : Json}

/-- The checks that an accepted report has passed. -/
structure Passed (revision : Revision) (resource : Fields) (build : Build) : Prop where
  checked : checkResource revision resource = .ok ()
  tree : validateTaskResourceTree revision resource = .ok ()
  storage : validateL2Storage revision resource = .ok ()
  linked : ∃ data linked, build.elf.data = some data ∧
    linkedSharedArenaBytes revision resource (build.elffile data) = .ok linked

theorem findRevision_eq (hschema : get resource "schema" = some (.string revision.schema)) :
    findRevision resource = .ok revision := by
  rw [findRevision, hschema]
  dsimp only
  rw [ofSchema_schema]

theorem checkFiles_data {plan : Fields} {elf image : File} {elfData imageData : List UInt8}
    (h : checkFiles plan elf image = .ok (elfData, imageData)) : elf.data = some elfData := by
  rw [checkFiles, bind_eq_ok] at h
  obtain ⟨_, -, h⟩ := h
  split at h
  · cases h
  · rename_i data hdata
    split at h
    · cases h
    · obtain ⟨_, -, h⟩ := bind_eq_ok.mp h
      cases h
      exact hdata

theorem passed_of_ok (hschema : get resource "schema" = some (.string revision.schema))
    (h : assemble (.object resource) build = .ok report) : Passed revision resource build := by
  rw [assemble, loadObject] at h
  obtain ⟨fields, hfields, h⟩ := bind_eq_ok.mp h
  cases hfields
  obtain ⟨plan, -, h⟩ := bind_eq_ok.mp h
  obtain ⟨revision', hrevision, h⟩ := bind_eq_ok.mp h
  rw [findRevision_eq hschema] at hrevision
  cases hrevision
  obtain ⟨_, hchecked, h⟩ := bind_eq_ok.mp h
  obtain ⟨⟨elfData, imageData⟩, hfiles, h⟩ := bind_eq_ok.mp h
  obtain ⟨_, htree, h⟩ := bind_eq_ok.mp h
  obtain ⟨_, hstorage, h⟩ := bind_eq_ok.mp h
  obtain ⟨linked, hlinked, -⟩ := bind_eq_ok.mp h
  exact ⟨hchecked, htree, hstorage, elfData, linked, checkFiles_data hfiles, hlinked⟩

theorem checkResource_eq_ok {u : Unit} (h : checkResource revision resource = .ok u) :
    checkRegions revision resource = .ok () ∧ checkV6 revision resource = .ok () ∧
      checkV7 revision resource = .ok () ∧ checkRuntimeArena revision resource = .ok () := by
  rw [checkResource, bind_eq_ok] at h
  obtain ⟨_, -, h⟩ := h
  obtain ⟨_, -, h⟩ := bind_eq_ok.mp h
  obtain ⟨_, hregions, h⟩ := bind_eq_ok.mp h
  obtain ⟨_, hv6, h⟩ := bind_eq_ok.mp h
  obtain ⟨_, hv7, h⟩ := bind_eq_ok.mp h
  obtain ⟨_, hruntime, -⟩ := bind_eq_ok.mp h
  exact ⟨hregions, hv6, hv7, hruntime⟩

theorem IntFrom.mono {least least' : ℤ} {key : String} (h : IntFrom least resource key)
    (hle : least' ≤ least) : IntFrom least' resource key := by
  obtain ⟨value, hget, hvalue⟩ := h
  exact ⟨value, hget, hle.trans hvalue⟩

theorem IntFrom.get_eq {least : ℤ} {key : String} (h : IntFrom least resource key) :
    get resource key = some (.int (readInt resource key)) := by
  obtain ⟨value, hget, -⟩ := h
  rw [hget, readInt_of_get hget]

theorem eq_v7 (h : revision.number = 7) : revision = .v7 := by
  cases revision <;> first | rfl | cases h

theorem eq_v14 (h : revision.number = 14) : revision = .v14 := by
  cases revision <;> first | rfl | cases h

/-- The regions of the caller have integers, and he owns their sum. -/
theorem regions_of_ok (h : checkResource revision resource = .ok ())
    (hrevision : 6 ≤ revision.number) :
    (∀ key ∈ revision.regions, IntFrom 1 resource key) ∧
      readInt resource "caller_owned_bytes" = (revision.regions.map (readInt resource)).sum := by
  obtain ⟨hregions, hv6, hv7, hruntime⟩ := checkResource_eq_ok h
  have hpositive := (checkRegions_eq_ok hregions hrevision).1
  have hcontrol := hpositive "control_storage_bytes" (by decide)
  have harena := hpositive "arena_storage_bytes" (by decide)
  have three : ∀ {region : String}, IntFrom 1 resource region →
      readInt resource "caller_owned_bytes" = readInt resource "control_storage_bytes" +
        readInt resource "arena_storage_bytes" + readInt resource region →
      (∀ key ∈ ["control_storage_bytes", "arena_storage_bytes", region], IntFrom 1 resource key) ∧
        readInt resource "caller_owned_bytes" =
          (["control_storage_bytes", "arena_storage_bytes", region].map (readInt resource)).sum := by
    intro region hregion hsum
    simp only [List.forall_mem_cons, List.map_cons, List.sum_cons]
    exact ⟨⟨hcontrol, harena, hregion, nofun⟩, hsum.trans (by simp [Int.add_assoc])⟩
  cases revision with
  | v3 | v4 | v5 => exact absurd hrevision (by decide)
  | v6 =>
    simp only [Revision.regions, List.forall_mem_cons, List.map_cons, List.sum_cons]
    exact ⟨⟨hcontrol, harena, nofun⟩, (checkV6_eq_ok hv6 rfl).trans (by simp)⟩
  | v7 =>
    obtain ⟨hstack, -, hsum⟩ := checkV7_eq_ok hv7 rfl
    exact three hstack hsum
  | v8 | v9 | v10 | v11 | v12 | v13 | v14 =>
    obtain ⟨hkeys, -, hsum⟩ := checkRuntimeArena_eq_ok hruntime (by decide)
    exact three (hkeys _ (by decide)) hsum

theorem Passed.accounted (h : Passed revision resource build) :
    Accounted revision resource build.parsed := by
  obtain ⟨hchecked, htree, hstorage, data, linked, hdata, hlinked⟩ := h
  obtain ⟨hregions, -, hv7, hruntime⟩ := checkResource_eq_ok hchecked
  have hparsed : build.parsed = build.elffile data := by rw [Build.parsed, hdata, Option.bind_some]
  refine
    { integers := fun hrevision => ?_
      caller := fun hrevision => (regions_of_ok hchecked hrevision).2
      stackArena := fun hrevision => (checkV7_eq_ok hv7 (eq_v7 hrevision)).2.1
      runtimeArena := fun hrevision => ?_
      grouped := fun hrevision => grouped_of_ok htree hrevision
      linked := fun hrevision => ?_
      placed := fun hrevision => ?_ }
  · have hpositive := (checkRegions_eq_ok hregions hrevision).1
    simp only [List.forall_mem_cons]
    exact ⟨hpositive _ (by decide), hpositive _ (by decide), hpositive _ (by decide),
      (regions_of_ok hchecked hrevision).1⟩
  · obtain ⟨hkeys, hcovers, -⟩ := checkRuntimeArena_eq_ok hruntime hrevision
    exact ⟨hkeys _ (by decide), hcovers⟩
  · obtain ⟨elf, sec, helf, -, hsec, hsize⟩ := linked_of_ok hlinked hrevision
    exact ⟨elf, sec, hparsed.trans helf, hsec, hsize⟩
  · obtain ⟨elf, -, helf, hlayout, -, -⟩ := linked_of_ok hlinked (by omega)
    obtain ⟨hpositive, hnonNegative⟩ := checkRegions_eq_ok hregions (by omega)
    have hothers : ∀ key ∈ ["main_stack_bytes_required", "linker_packet_ram_bytes"],
        IntFrom 0 resource key := by
      rw [List.forall_mem_cons, List.forall_mem_singleton]
      exact ⟨(hpositive _ (by decide)).mono (by decide), hnonNegative _ (by decide)⟩
    obtain ⟨l2, hplaced⟩ := placed_of_ok hstorage hlayout (eq_v14 hrevision) hothers
    exact ⟨elf, l2, hparsed.trans helf, hplaced⟩

end Accepted

/-! ## §4 A changed report -/

section Changed

variable {revision : Revision} {resource changed : Fields} {elf : Option ElfFile}
  {key other : String} {value : Json}

theorem get_insert_self (fields : Fields) (key : String) (value : Json) :
    get (insert fields key value) key = some value := by
  induction fields with
  | nil => simp [insert, OrderedDict.insert, Hil.FlashPlan.get]
  | cons field fields ih =>
    rw [insert, OrderedDict.insert]
    split
    · simp [Hil.FlashPlan.get]
    · rename_i hne
      have hne : (field.1 == key) = false := beq_eq_false_iff_ne.mpr hne
      rw [Hil.FlashPlan.get, List.find?_cons, hne]
      exact ih

theorem get_insert_of_ne (fields : Fields) (value : Json) (hne : other ≠ key) :
    get (insert fields key value) other = get fields other := by
  have hkey : (key == other) = false := beq_eq_false_iff_ne.mpr hne.symm
  induction fields with
  | nil => simp [insert, OrderedDict.insert, Hil.FlashPlan.get, hkey]
  | cons field fields ih =>
    rw [insert, OrderedDict.insert]
    split
    · rename_i heq
      have heq : (field.1 == other) = false := by
        rw [heq]
        exact hkey
      rw [Hil.FlashPlan.get, Hil.FlashPlan.get, List.find?_cons, List.find?_cons, hkey, heq]
    · rw [Hil.FlashPlan.get, Hil.FlashPlan.get, List.find?_cons, List.find?_cons]
      cases field.1 == other with
      | true => rfl
      | false => exact ih

theorem readInt_insert_of_ne (fields : Fields) (value : Json) (hne : other ≠ key) :
    readInt (insert fields key value) other = readInt fields other := by
  rw [readInt, readInt, get_insert_of_ne fields value hne]

theorem caller_eq (h : Accounted revision resource elf) (hrevision : 10 ≤ revision.number) :
    readInt resource "caller_owned_bytes" = readInt resource "control_storage_bytes" +
      readInt resource "arena_storage_bytes" + readInt resource "runtime_arena_bytes" := by
  have hcaller := h.caller (by omega)
  cases revision with
  | v3 | v4 | v5 | v6 | v7 | v8 | v9 => exact absurd hrevision (by decide)
  | v10 | v11 | v12 | v13 | v14 =>
    simp only [Revision.regions, List.map_cons, List.map_nil, List.sum_cons, List.sum_nil] at hcaller
    omega

/-- The laws determine each total by the rest. -/
theorem totals_determined (h : Accounted revision resource elf)
    (h' : Accounted revision changed elf) (hrevision : 10 ≤ revision.number) (hkey : key ∈ totals)
    (hsame : ∀ other, other ≠ key → readInt changed other = readInt resource other) :
    readInt changed key = readInt resource key := by
  have hcaller := caller_eq h hrevision
  have hcaller' := caller_eq h' hrevision
  have hgrouped := h.grouped hrevision
  have hgrouped' := h'.grouped hrevision
  simp only [totals, List.mem_cons, List.not_mem_nil, or_false] at hkey
  rcases hkey with rfl | rfl | rfl | rfl | rfl | rfl
  · rw [hcaller', hcaller, hsame "control_storage_bytes" (by decide),
      hsame "arena_storage_bytes" (by decide), hsame "runtime_arena_bytes" (by decide)]
  · rw [hsame "caller_owned_bytes" (by decide), hsame "arena_storage_bytes" (by decide),
      hsame "runtime_arena_bytes" (by decide)] at hcaller'
    omega
  · rw [hsame "caller_owned_bytes" (by decide), hsame "control_storage_bytes" (by decide),
      hsame "runtime_arena_bytes" (by decide)] at hcaller'
    omega
  · rw [hsame "caller_owned_bytes" (by decide), hsame "control_storage_bytes" (by decide),
      hsame "arena_storage_bytes" (by decide)] at hcaller'
    omega
  · rw [hgrouped'.slots, hgrouped.slots, hsame "vendor_task_slots" (by decide),
      hsame "worker_task_slots" (by decide), hsame "coexistence_task_slots" (by decide)]
  · rw [hgrouped'.stackBytes, hgrouped.stackBytes, hsame "vendor_task_slots" (by decide),
      hsame "vendor_stack_bytes_per_task" (by decide), hsame "worker_task_slots" (by decide),
      hsame "worker_stack_bytes_per_task" (by decide),
      hsame "coexistence_stack_bytes" (by decide)]

/-- The totals have integers. -/
theorem intFrom_total (h : Accounted revision resource elf) (hrevision : 10 ≤ revision.number)
    (hkey : key ∈ totals) : IntFrom 1 resource key := by
  have hintegers := h.integers (by omega)
  cases revision with
  | v3 | v4 | v5 | v6 | v7 | v8 | v9 => exact absurd hrevision (by decide)
  | v10 | v11 | v12 | v13 | v14 =>
    refine hintegers key ?_
    simp only [totals, List.mem_cons, List.not_mem_nil, or_false] at hkey
    rcases hkey with rfl | rfl | rfl | rfl | rfl | rfl <;> decide

/-- The descriptor determines each size of the second layer. -/
theorem sizes_determined {parsed : ElfFile} {l2 l2' : Fields} (h : Placed resource l2 parsed)
    (h' : Placed changed l2' parsed) (hkey : key ∈ l2Keys) : readInt l2' key = readInt l2 key := by
  have hwords : expectedWords changed l2' = expectedWords resource l2 :=
    Option.some.inj (h'.words.symm.trans h.words)
  simp only [expectedWords, List.cons.injEq, and_true, true_and] at hwords
  obtain ⟨-, -, htotal, hpayload, hmetadata, hrx, htx, hmtu, -⟩ := hwords
  simp only [l2Keys, List.mem_cons, List.not_mem_nil, or_false] at hkey
  rcases hkey with rfl | rfl | rfl | rfl | rfl | rfl
  · exact hrx
  · exact htx
  · exact hmtu
  · exact hpayload
  · exact hmetadata
  · exact htotal

end Changed

/-! ## §5 Main results -/

section Main

variable {revision : Revision} {resource : Fields} {build : Build} {report : Json}

theorem raises_of_not_ok {x : Except Raised Json} (h : ∀ report, x ≠ .ok report) :
    ∃ e, x = .error e := by
  cases x with
  | ok report => exact absurd rfl (h report)
  | error e => exact ⟨e, rfl⟩

theorem Passed.detects (hschema : get resource "schema" = some (.string revision.schema))
    (h : Passed revision resource build) : Detects revision resource build where
  total := by
    intro hrevision key hkey value hne
    refine raises_of_not_ok fun report hok => hne ?_
    have hschema' : get (insert resource key value) "schema" = some (.string revision.schema) := by
      rw [get_insert_of_ne, hschema]
      rintro rfl
      exact absurd hkey (by decide)
    have haccounted := (passed_of_ok hschema' hok).accounted
    have hsame := totals_determined h.accounted haccounted hrevision hkey fun other hother =>
      readInt_insert_of_ne resource value hother
    have hget := (intFrom_total haccounted hrevision hkey).get_eq
    rw [get_insert_self, hsame] at hget
    rw [hget]
    exact (intFrom_total h.accounted hrevision hkey).get_eq
  storage := by
    intro hrevision l2 hl2 key hkey value hne
    refine raises_of_not_ok fun report hok => hne ?_
    have hschema' : get (insert resource "l2_storage" (.object (insert l2 key value))) "schema" =
        some (.string revision.schema) := by
      rw [get_insert_of_ne _ _ (by decide), hschema]
    obtain ⟨parsed, l2₁, hparsed, hplaced⟩ := h.accounted.placed hrevision
    obtain ⟨parsed', l2₂, hparsed', hplaced'⟩ :=
      (passed_of_ok hschema' hok).accounted.placed hrevision
    rw [hparsed] at hparsed'
    cases hparsed'
    have hl2₁ := hplaced.storage
    rw [hl2] at hl2₁
    cases hl2₁
    have hl2₂ := hplaced'.storage
    rw [get_insert_self] at hl2₂
    cases hl2₂
    have hsame := sizes_determined hplaced hplaced' hkey
    have hget := (hplaced'.sizes key hkey).get_eq
    rw [get_insert_self, hsame] at hget
    rw [hget]
    exact (hplaced.sizes key hkey).get_eq

/-- An accepted report accounts for its bytes, and none of its totals can be changed alone. -/
theorem assemble_accounts (hschema : get resource "schema" = some (.string revision.schema))
    (h : assemble (.object resource) build = .ok report) :
    Accounted revision resource build.parsed ∧ Detects revision resource build :=
  ⟨(passed_of_ok hschema h).accounted, (passed_of_ok hschema h).detects hschema⟩

/-- A report of the newest revision. -/
def fixture : Fields :=
  [("schema", .string "hisi-rf-resource-report/v14"), ("main_stack_bytes_required", .int 0x8000),
    ("event_capacity", .int 8), ("caller_owned_bytes", .int 324544),
    ("control_storage_bytes", .int 21376), ("composition_handle_bytes", .int 0),
    ("radio_state_bytes", .int 2216), ("crypto_dma_bytes", .int 6336),
    ("arena_storage_bytes", .int 114240), ("linker_packet_ram_bytes", .int 0x24000),
    ("dynamic_tasks_required", .int 11), ("runtime_internal_tasks", .int 2),
    ("task_stack_bytes", .int 172032), ("minimum_task_stack_bytes", .int 24576),
    ("runtime_object_headroom_bytes", .int 16384), ("runtime_arena_bytes", .int 188928),
    ("shared_rf_arena_bytes", .int 114176), ("runtime_resources_calibrated", .bool false),
    ("vendor_task_slots", .int 7), ("vendor_stack_bytes_per_task", .int 23112),
    ("worker_task_slots", .null), ("coexistence_task_slots", .int 4),
    ("coexistence_stack_bytes", .int 10248), ("l2_storage_offset", .int 2296),
    ("l2_storage", .object [("rx_slots", .int 4), ("tx_slots", .int 4), ("mtu", .int 1514),
      ("payload_bytes", .int 12112), ("metadata_bytes", .int 448), ("total_bytes", .int 12560)])]

/-- Four bytes of a word, the lowest first. -/
def wordBytes (word : ℕ) : List UInt8 := (BigEndian.toBe 4 word).reverse

def fixtureSymbols (name : String) : List Symbol :=
  if name = "NET0_CONTROL" then [⟨21376, 0, none⟩]
  else if name = "NET0_STORAGE_LAYOUT" then [⟨52, 0x230400, some 1⟩]
  else []

def fixtureElf : ElfFile where
  elfclass := 32
  littleEndian := true
  machine := "EM_RISCV"
  sectionByName name :=
    if name = ".symtab" then some ⟨0, 0, [], some fixtureSymbols⟩
    else if name = ".hisi_shared_arenas" then some ⟨0, 303168, [], none⟩
    else none
  sections _ := some ⟨0x230400, 52, [0x3054454e, 1, 21376, 2296, 12560, 12112, 448, 4, 4, 1514,
    303168, 0x8000, 0x24000].flatMap wordBytes, none⟩

def fixtureBuild : Build where
  plan := .object (("image_len", .int 2) :: planKeys.map fun key => (key, .null))
  planData := []
  elf := ⟨"firmware.elf", "firmware.elf", some []⟩
  image := ⟨"firmware.img", "firmware.img", some [1, 2]⟩
  elffile _ := some fixtureElf

def accepts : Except Raised Json → Bool
  | .ok _ => true
  | .error _ => false

theorem ok_of_accepts {x : Except Raised Json} (h : accepts x = true) :
    ∃ report, x = .ok report := by
  cases x with
  | ok report => exact ⟨report, rfl⟩
  | error e => cases h

theorem assemble_accounts_fixture :
    Accounted .v14 fixture fixtureBuild.parsed ∧ Detects .v14 fixture fixtureBuild := by
  have haccepts : accepts (assemble (.object fixture) fixtureBuild) = true := by decide +kernel
  obtain ⟨report, hok⟩ := ok_of_accepts haccepts
  exact assemble_accounts (by rfl) hok

end Main

end HisiRiscv.Release.BuildReport
