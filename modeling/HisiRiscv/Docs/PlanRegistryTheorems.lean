/-
HisiRiscv.Docs.PlanRegistryTheorems — which registries are accepted, and which ones raise an
exception.

The plans that are kept are compared with what their entries read as (`Reads`): the references,
the search for a cycle and the rows of the mirror each have no errors exactly when the plans keep
one of the rules. An unusable field raises an exception, and Python takes a Boolean for an integer.
Otherwise the errors are empty exactly for the valid registries (`validate_means_iff`).

  §1 References.
  §2 The mirror.
  §3 Main results.
-/
import HisiRiscv.Docs.PlanEntries

namespace HisiRiscv.Docs.PlanRegistry

open HisiRiscv.PyText
open HisiRiscv.Hil.FlashPlan (bind_eq_ok)

/-! ## §1 References -/

/-- Plans that are kept, with what they read as. -/
def Reads (plans : List (String × Table)) (texts : List Plan) : Prop :=
  List.Forall₂ (fun kept plan => FieldsOf kept.1 kept.2 plan) plans texts

section References

variable {py : Python} {ids paths evidenceIds : List String} {entries items : List Toml}
  {plans : List (String × Table)} {texts : List Plan} {value : Option Toml} {message : String}

theorem Accepted.reads (h : Accepted ids paths entries texts) : Reads (kept ids entries) texts := by
  induction h with
  | nil => exact .nil
  | cons read freshId freshPath fits rest ih =>
    obtain ⟨fields, rfl, hid, hfields⟩ := read_eq_some.mp read
    rw [kept, keeps_eq_some.mpr ⟨rfl, hid, freshId⟩]
    exact .cons hfields ih

theorem Reads.planIds_eq (h : Reads plans texts) : planIds plans = texts.map Plan.id := by
  induction h with
  | nil => rfl
  | cons hfields _ ih => exact congrArg₂ List.cons hfields.id_eq.symm ih

theorem Reads.forall_iff (h : Reads plans texts) {p : String × Table → Prop} {q : Plan → Prop}
    (hpq : ∀ kept plan, FieldsOf kept.1 kept.2 plan → (p kept ↔ q plan)) :
    (∀ kept ∈ plans, p kept) ↔ ∀ plan ∈ texts, q plan := by
  induction h with
  | nil => exact iff_of_true nofun nofun
  | cons hfields _ ih => rw [List.forall_mem_cons, List.forall_mem_cons, hpq _ _ hfields, ih]

theorem mapM_asString {names : List String} :
    items.mapM Toml.asString = some names ↔ items = names.map .string := by
  induction items generalizing names with
  | nil => cases names <;> simp
  | cons item items ih =>
    rw [mapM_cons_eq_some]
    constructor
    · rintro ⟨name, rest, hname, hrest, rfl⟩
      rw [asString_eq_some.mp hname, ih.mp hrest]
      rfl
    · intro h
      obtain ⟨name, rest, rfl, hname, hrest⟩ := List.map_eq_cons_iff.mp h.symm
      exact ⟨name, rest, asString_eq_some.mpr hname.symm, ih.mpr hrest.symm, rfl⟩

theorem stringsOf_eq_some {names : List String} :
    stringsOf value = some names ↔ value = some (.array (names.map .string)) := by
  rw [stringsOf.eq_def]
  split
  · rw [mapM_asString, Option.some.injEq, Toml.array.injEq]
  · rename_i hno
    exact iff_of_false nofun (hno _)

theorem referenceLoop_ok : (∃ errors, referenceLoop py ids message items = .ok errors) ↔
    ∀ item ∈ items, item.hashable = true := by
  induction items with
  | nil => exact iff_of_true ⟨_, rfl⟩ nofun
  | cons item items ih =>
    rw [referenceLoop, List.forall_mem_cons, ← ih]
    cases hitem : item.hashable with
    | false => exact iff_of_false nofun nofun
    | true =>
      simp only [Bool.not_true, Bool.false_eq_true, if_false, true_and, bind_eq_ok]
      constructor
      · rintro ⟨_, others, hothers, -⟩
        exact ⟨others, hothers⟩
      · rintro ⟨others, hothers⟩
        exact ⟨_, others, hothers, rfl⟩

theorem referenceLoop_eq_nil {names : List String} :
    referenceLoop py ids message (names.map .string) = .ok [] ↔ ∀ name ∈ names, name ∈ ids := by
  induction names with
  | nil => exact iff_of_true rfl nofun
  | cons name names ih =>
    rw [List.forall_mem_cons, ← ih, List.map_cons, referenceLoop]
    simp only [Toml.hashable, Bool.not_true, Bool.false_eq_true, if_false, bind_eq_ok]
    by_cases hname : name ∈ ids
    · have hknows : knows ids (.string name) = true := List.contains_iff_mem.mpr hname
      simp only [hknows, if_true]
      exact ⟨fun ⟨_, hothers, h⟩ => ⟨hname, (Except.ok.inj h) ▸ hothers⟩, fun h => ⟨[], h.2, rfl⟩⟩
    · have hknows : ¬ knows ids (.string name) = true := fun h => hname (List.contains_iff_mem.mp h)
      simp only [if_neg hknows]
      exact iff_of_false (fun ⟨_, _, h⟩ => nomatch h) fun h => hname h.1

theorem referenceErrors_ok :
    (∃ errors, referenceErrors py ids message value = .ok errors) ↔ Loopable value := by
  cases value with
  | none => exact iff_of_true ⟨_, rfl⟩ nofun
  | some value =>
    rw [referenceErrors]
    constructor
    · rintro ⟨errors, h⟩ _ ⟨⟩
      cases hitems : value.iterate with
      | none =>
        rw [hitems] at h
        cases h
      | some items =>
        rw [hitems] at h
        exact ⟨items, rfl, referenceLoop_ok.mp ⟨errors, h⟩⟩
    · intro h
      obtain ⟨items, hitems, hall⟩ := h value rfl
      rw [hitems]
      exact referenceLoop_ok.mpr hall

theorem referenceErrors_eq_nil {names : List String} (h : stringsOf value = some names) :
    referenceErrors py ids message value = .ok [] ↔ ∀ name ∈ names, name ∈ ids := by
  rw [stringsOf_eq_some.mp h]
  exact referenceLoop_eq_nil

theorem planReferences_ok :
    (∃ errors, planReferences py ids evidenceIds plans = .ok errors) ↔
      ∀ plan ∈ plans, Loopable (get plan.2 "depends_on") ∧ Loopable (get plan.2 "evidence") := by
  induction plans with
  | nil => exact iff_of_true ⟨_, rfl⟩ nofun
  | cons plan plans ih =>
    obtain ⟨id, fields⟩ := plan
    rw [planReferences, List.forall_mem_cons, ← ih]
    simp only [bind_eq_ok]
    constructor
    · rintro ⟨_, dependencies, hdepends, evidence, hevidence, others, hothers, -⟩
      exact ⟨⟨referenceErrors_ok.mp ⟨_, hdepends⟩, referenceErrors_ok.mp ⟨_, hevidence⟩⟩, _, hothers⟩
    · rintro ⟨⟨hdepends, hevidence⟩, others, hothers⟩
      obtain ⟨dependencies, hdepends⟩ := referenceErrors_ok.mpr hdepends
      obtain ⟨evidence, hevidence⟩ := referenceErrors_ok.mpr hevidence
      exact ⟨_, dependencies, hdepends, evidence, hevidence, others, hothers, rfl⟩

theorem planReferences_eq_nil (h : Reads plans texts) :
    planReferences py ids evidenceIds plans = .ok [] ↔
      ∀ plan ∈ texts, (∀ id ∈ plan.dependsOn, id ∈ ids) ∧ ∀ id ∈ plan.evidence, id ∈ evidenceIds := by
  induction h with
  | nil => exact iff_of_true rfl nofun
  | @cons kept plan plans texts hfields _ ih =>
    rw [planReferences, List.forall_mem_cons, ← ih]
    simp only [bind_eq_ok]
    constructor
    · rintro ⟨dependencies, hdepends, evidence, hevidence, others, hothers, h⟩
      obtain ⟨hnil, rfl⟩ := List.append_eq_nil_iff.mp (Except.ok.inj h)
      obtain ⟨rfl, rfl⟩ := List.append_eq_nil_iff.mp hnil
      exact ⟨⟨(referenceErrors_eq_nil hfields.dependsOn).mp hdepends,
        (referenceErrors_eq_nil hfields.evidence).mp hevidence⟩, hothers⟩
    · rintro ⟨⟨hdepends, hevidence⟩, hothers⟩
      exact ⟨_, (referenceErrors_eq_nil hfields.dependsOn).mpr hdepends, _,
        (referenceErrors_eq_nil hfields.evidence).mpr hevidence, _, hothers, rfl⟩

theorem missingFrom_eq_nil {names others : List String} :
    missingFrom names others = [] ↔ ∀ name ∈ names, name ∈ others := by
  rw [missingFrom, ← List.length_eq_zero_iff, List.length_mergeSort, List.length_eq_zero_iff,
    List.dedup_eq_nil, List.filter_eq_nil_iff]
  simp

theorem Reads.exists_of_mem {kept : String × Table} (h : Reads plans texts) (hmem : kept ∈ plans) :
    ∃ plan ∈ texts, FieldsOf kept.1 kept.2 plan := by
  induction h with
  | nil => cases hmem
  | cons hfields _ ih =>
    rcases List.mem_cons.mp hmem with rfl | hmem
    · exact ⟨_, List.mem_cons_self, hfields⟩
    · obtain ⟨plan, hplan, hfields⟩ := ih hmem
      exact ⟨plan, List.mem_cons_of_mem _ hplan, hfields⟩

theorem mem_dependencies {id other : String} (h : Reads plans texts)
    (hids : (texts.map Plan.id).Nodup)
    (hdepends : ∀ plan ∈ texts, ∀ id ∈ plan.dependsOn, id ∈ texts.map Plan.id) :
    other ∈ dependencies plans id ↔ DependsOn texts id other := by
  rw [dependencies]
  split
  · rename_i hnone
    have hno : ∀ plan ∈ texts, plan.id ≠ id := by
      rw [← h.forall_iff (p := fun kept => kept.1 ≠ id) fun kept plan hfields => by
        rw [hfields.id_eq]]
      simpa using hnone
    refine iff_of_false List.not_mem_nil ?_
    rintro ⟨plan, hplan, hid, -⟩
    exact hno plan hplan hid
  · rename_i kept hfind
    obtain ⟨plan, hplan, hfields⟩ := h.exists_of_mem (List.mem_of_find?_eq_some hfind)
    have hid : plan.id = id := by
      rw [hfields.id_eq]
      simpa using List.find?_some hfind
    rw [stringsOf_eq_some.mp hfields.dependsOn, Option.bind_some, Toml.iterate, Option.getD_some,
      List.filterMap_map, List.mem_filter, List.contains_iff_mem, h.planIds_eq]
    have hself : (plan.dependsOn.filterMap (Toml.asString ∘ .string)) = plan.dependsOn :=
      List.filterMap_some
    rw [hself]
    constructor
    · rintro ⟨hother, -⟩
      exact ⟨plan, hplan, hid, hother⟩
    · rintro ⟨plan', hplan', hid', hother⟩
      obtain rfl := List.inj_on_of_nodup_map hids hplan' hplan (hid'.trans hid.symm)
      exact ⟨hother, hdepends plan' hplan' other hother⟩

theorem findCycle_eq_none (h : Reads plans texts) (hids : (texts.map Plan.id).Nodup)
    (hdepends : ∀ plan ∈ texts, ∀ id ∈ plan.dependsOn, id ∈ texts.map Plan.id) :
    findCycle plans = none ↔ ∀ id, ¬ Relation.TransGen (DependsOn texts) id id := by
  have hedge : DepthFirst.Edge (dependencies plans) = DependsOn texts := by
    funext id other
    exact propext (mem_dependencies h hids hdepends)
  have hnext : ∀ id, ∀ other ∈ dependencies plans id, other ∈ planIds plans := by
    intro id other hother
    obtain ⟨plan, hplan, -, hmem⟩ := (mem_dependencies h hids hdepends).mp hother
    rw [h.planIds_eq]
    exact hdepends plan hplan other hmem
  rw [← hedge, findCycle]
  rcases DepthFirst.search_cases hnext with ⟨nodes, hsearch, hacyclic⟩ | ⟨walk, hsearch, hclosed⟩
  · rw [hsearch]
    exact iff_of_true rfl hacyclic
  · rw [hsearch]
    exact iff_of_false nofun hclosed.not_acyclic

theorem cycleErrors_eq_nil : cycleErrors plans = [] ↔ findCycle plans = none := by
  rw [cycleErrors]
  cases findCycle plans with
  | none => exact iff_of_true rfl rfl
  | some walk => exact iff_of_false nofun nofun

theorem urgentErrors_eq_nil {status : Status} {head : String} (h : Reads plans texts) :
    urgentErrors status head plans = [] ↔
      ∀ plan ∈ texts, plan.status = status → plan.priority = "P0" := by
  rw [urgentErrors, List.map_eq_nil_iff, List.filter_eq_nil_iff, inState, ← h.forall_iff
    (p := fun kept => equals (get kept.2 "status") status.key = true →
      equals (get kept.2 "priority") "P0" = true) fun kept plan hfields => by
        rw [hfields.equals_status, hfields.equals_priority]]
  simp

theorem windowErrors_eq_nil {maximum : ℤ} (h : Reads plans texts) :
    windowErrors py maximum plans = [] ↔
      ((texts.countP fun plan => plan.status = .active : ℕ) : ℤ) ≤ maximum := by
  have hlength : (inState .active plans).length = texts.countP fun plan => plan.status = .active := by
    rw [inState, ← List.countP_eq_length_filter]
    induction h with
    | nil => rfl
    | cons hfields _ ih =>
      rw [List.countP_cons, List.countP_cons, ih]
      simp only [hfields.equals_status, decide_eq_true_eq]
  rw [windowErrors]
  simp only [hlength]
  split
  · rename_i hmore
    exact iff_of_false nofun (not_le.mpr hmore)
  · rename_i hmore
    exact iff_of_true rfl (not_lt.mp hmore)

end References

/-! ## §2 The mirror -/

section Mirror

variable {py : Python} {plans : List (String × Table)} {texts : List Plan} {fields : Table}
  {rows rows' : List Row} {lines : List Text} {errors : List String} {number : ℕ} {markdown : Text}
  {id : String} {plan : Plan}

/-- A path that comes twice is an error; without one, all the rows are there. -/
theorem rowLoop_result (h : rowLoop number rows lines = (errors, rows'))
    (hnodup : (rows.map Row.path).Nodup) :
    (errors = [] ↔ ((rows ++ lines.filterMap rowOf).map Row.path).Nodup) ∧
      (errors = [] → rows' = rows ++ lines.filterMap rowOf) := by
  induction lines generalizing number rows errors with
  | nil =>
    cases h
    rw [List.filterMap_nil, List.append_nil]
    exact ⟨iff_of_true rfl hnodup, fun _ => rfl⟩
  | cons line lines ih =>
    rw [rowLoop] at h
    split at h
    · rename_i hnone
      rw [List.filterMap_cons_none hnone]
      exact ih h hnodup
    · rename_i row hrow
      rw [List.filterMap_cons_some hrow, List.append_cons]
      split at h
      · rename_i htwice
        cases h
        refine ⟨iff_of_false (List.cons_ne_nil _ _) fun hall => ?_, nofun⟩
        rw [List.map_append] at hall
        have hinit := (List.nodup_append'.mp hall).1
        rw [List.map_append, List.map_singleton, List.nodup_append', List.disjoint_singleton] at hinit
        exact hinit.2.2 (List.contains_iff_mem.mp htwice)
      · rename_i hnew
        refine ih h ?_
        rw [List.map_append, List.map_singleton, List.nodup_append', List.disjoint_singleton]
        exact ⟨hnodup, List.nodup_singleton _, fun hmem => hnew (List.contains_iff_mem.mpr hmem)⟩

theorem shownFor_eq_some {path : String} {shown : String × String}
    (hnodup : (rows.map Row.path).Nodup) :
    shownFor rows path = some shown ↔ (⟨path, shown⟩ : Row) ∈ rows := by
  rw [shownFor, Option.map_eq_some_iff]
  constructor
  · rintro ⟨row, hfind, rfl⟩
    have hpath : row.path = path := by simpa using List.find?_some hfind
    subst hpath
    exact List.mem_of_find?_eq_some hfind
  · intro hmem
    cases hfind : rows.find? fun row => row.path == path with
    | none => exact absurd (beq_self_eq_true path) (List.find?_eq_none.mp hfind _ hmem)
    | some row =>
      have hpath : row.path = path := by simpa using List.find?_some hfind
      obtain rfl := List.inj_on_of_nodup_map hnodup (List.mem_of_find?_eq_some hfind) hmem hpath
      exact ⟨_, rfl, rfl⟩

theorem field_eq_ok {key : String} {value : Toml} :
    field fields key = .ok value ↔ get fields key = some value := by
  rw [field]
  cases get fields key with
  | none => exact iff_of_false nofun nofun
  | some v => rw [Except.ok.injEq, Option.some.injEq]

theorem planPaths_ok : (∃ paths, planPaths py plans = .ok paths) ↔
    ∀ plan ∈ plans, (get plan.2 "path").isSome = true := by
  induction plans with
  | nil => exact iff_of_true ⟨_, rfl⟩ nofun
  | cons plan plans ih =>
    rw [List.forall_mem_cons, ← ih, Option.isSome_iff_exists]
    simp only [planPaths, bind_eq_ok, field_eq_ok]
    constructor
    · rintro ⟨_, path, hpath, others, hothers, -⟩
      exact ⟨⟨path, hpath⟩, others, hothers⟩
    · rintro ⟨⟨path, hpath⟩, others, hothers⟩
      exact ⟨_, path, hpath, others, hothers, rfl⟩

theorem FieldsOf.get_path (h : FieldsOf id fields plan) :
    get fields "path" = some (.string plan.path) := bind_asString.mp (Option.filter_eq_some_iff.mp h.path).1

theorem FieldsOf.get_status (h : FieldsOf id fields plan) :
    get fields "status" = some (.string plan.status.key) := bind_asString.mp h.status

theorem FieldsOf.get_priority (h : FieldsOf id fields plan) :
    get fields "priority" = some (.string plan.priority) := bind_asString.mp h.priority

theorem planPaths_eq (h : Reads plans texts) : planPaths py plans = .ok (texts.map Plan.path) := by
  induction h with
  | nil => rfl
  | cons hfields _ ih =>
    rw [planPaths, field_eq_ok.mpr hfields.get_path, ih]
    rfl

/-- Only for the name of a state there is a label. -/
theorem ofKey_format {value : Toml} {status : Status} :
    Status.ofKey (py.format value) = some status ↔ value = .string status.key := by
  constructor
  · intro h
    cases hstring : value.asString with
    | none =>
      have hformat : py.format value = py.str value := by
        cases value with
        | string => cases hstring
        | int | bool | scalar | array | table => rfl
      rw [hformat, py.ofKey_str value hstring] at h
      cases h
    | some text =>
      obtain rfl := asString_eq_some.mp hstring
      exact congrArg Toml.string (ofKey_eq_some.mp h)
  · rintro rfl
    exact ofKey_eq_some.mpr rfl

theorem expectedRow_ok : (∃ row, expectedRow py fields = .ok row) ↔
    (get fields "path").isSome = true ∧
      (∃ status : Status, get fields "status" = some (.string status.key)) ∧
        (get fields "priority").isSome = true := by
  rw [Option.isSome_iff_exists, Option.isSome_iff_exists]
  simp only [expectedRow, bind_eq_ok, field_eq_ok]
  constructor
  · rintro ⟨row, path, hpath, value, hstatus, h⟩
    split at h
    · cases h
    · rename_i status hkey
      obtain rfl := ofKey_format.mp hkey
      obtain ⟨priority, hpriority, -⟩ := bind_eq_ok.mp h
      exact ⟨⟨path, hpath⟩, ⟨status, hstatus⟩, priority, field_eq_ok.mp hpriority⟩
  · rintro ⟨⟨path, hpath⟩, ⟨status, hstatus⟩, priority, hpriority⟩
    refine ⟨⟨py.format path, status.label, py.format priority⟩, path, hpath, _, hstatus, ?_⟩
    rw [ofKey_format.mpr rfl]
    exact bind_eq_ok.mpr ⟨priority, field_eq_ok.mpr hpriority, rfl⟩

theorem expectedRow_eq (h : FieldsOf id fields plan) : expectedRow py fields = .ok plan.row := by
  simp only [expectedRow, bind_eq_ok, field_eq_ok]
  refine ⟨_, h.get_path, _, h.get_status, ?_⟩
  rw [ofKey_format.mpr rfl]
  exact bind_eq_ok.mpr ⟨_, field_eq_ok.mpr h.get_priority, rfl⟩

theorem driftErrors_ok : (∃ errors, driftErrors py rows plans = .ok errors) ↔
    ∀ plan ∈ plans, ∃ row, expectedRow py plan.2 = .ok row := by
  induction plans with
  | nil => exact iff_of_true ⟨_, rfl⟩ nofun
  | cons plan plans ih =>
    rw [List.forall_mem_cons, ← ih]
    simp only [driftErrors, bind_eq_ok]
    constructor
    · rintro ⟨_, row, hrow, others, hothers, -⟩
      exact ⟨⟨row, hrow⟩, others, hothers⟩
    · rintro ⟨⟨row, hrow⟩, others, hothers⟩
      by_cases hsame : shownFor rows row.path = some row.shown
      · exact ⟨_, row, hrow, others, hothers, if_pos hsame⟩
      · exact ⟨_, row, hrow, others, hothers, if_neg hsame⟩

theorem driftErrors_eq_nil (h : Reads plans texts) : driftErrors py rows plans = .ok [] ↔
    ∀ plan ∈ texts, shownFor rows plan.path = some plan.row.shown := by
  induction h with
  | nil => exact iff_of_true rfl nofun
  | cons hfields _ ih =>
    rw [List.forall_mem_cons, ← ih]
    simp only [driftErrors, expectedRow_eq hfields, bind_eq_ok]
    constructor
    · rintro ⟨row, hrow, others, hothers, h⟩
      cases hrow
      split at h
      · rename_i hsame
        cases h
        exact ⟨hsame, hothers⟩
      · cases h
    · rintro ⟨hsame, hothers⟩
      exact ⟨_, rfl, [], hothers, if_pos hsame⟩

theorem mirrorErrors_ok : (∃ errors, mirrorErrors py plans markdown = .ok errors) ↔
    ∀ plan ∈ plans, ∃ row, expectedRow py plan.2 = .ok row := by
  obtain ⟨duplicates, rows, hloop⟩ : ∃ duplicates rows,
    rowLoop 1 [] (splitlines (universalNewlines markdown)) = (duplicates, rows) := ⟨_, _, rfl⟩
  simp only [mirrorErrors, hloop, bind_eq_ok]
  constructor
  · rintro ⟨_, expected, hexpected, drift, hdrift, -⟩
    exact driftErrors_ok.mp ⟨drift, hdrift⟩
  · intro h
    obtain ⟨expected, hexpected⟩ := planPaths_ok.mpr fun plan hplan => (expectedRow_ok.mp (h plan hplan)).1
    obtain ⟨drift, hdrift⟩ := driftErrors_ok.mpr h
    exact ⟨_, expected, hexpected, drift, hdrift, rfl⟩

theorem mirrorErrors_eq_nil (h : Reads plans texts) : mirrorErrors py plans markdown = .ok [] ↔
    ((rowsOf markdown).map Row.path).Nodup ∧
      ∀ row, row ∈ rowsOf markdown ↔ ∃ plan ∈ texts, row = plan.row := by
  obtain ⟨duplicates, rows, hloop⟩ : ∃ duplicates rows,
    rowLoop 1 [] (splitlines (universalNewlines markdown)) = (duplicates, rows) := ⟨_, _, rfl⟩
  obtain ⟨hduplicates, hrows⟩ := rowLoop_result hloop List.nodup_nil
  rw [List.nil_append] at hduplicates hrows
  simp only [mirrorErrors, hloop, planPaths_eq h, bind_eq_ok]
  constructor
  · rintro ⟨_, hpaths, drift, hdrift, hnil⟩
    cases hpaths
    have hnil := Except.ok.inj hnil
    simp only [List.append_eq_nil_iff, List.map_eq_nil_iff, missingFrom_eq_nil] at hnil
    obtain ⟨⟨⟨rfl, hlisted⟩, hknown⟩, rfl⟩ := hnil
    obtain rfl := hrows rfl
    have hnodup := hduplicates.mp rfl
    have hshown := (driftErrors_eq_nil h).mp hdrift
    refine ⟨hnodup, fun row => ⟨fun hrow => ?_, ?_⟩⟩
    · obtain ⟨plan, hplan, hpath⟩ := List.mem_map.mp (hknown _ (List.mem_map_of_mem hrow))
      exact ⟨plan, hplan, List.inj_on_of_nodup_map hnodup hrow
        ((shownFor_eq_some hnodup).mp (hshown plan hplan)) hpath.symm⟩
    · rintro ⟨plan, hplan, rfl⟩
      exact (shownFor_eq_some hnodup).mp (hshown plan hplan)
  · rintro ⟨hnodup, hmirrored⟩
    obtain rfl := hduplicates.mpr hnodup
    obtain rfl := hrows rfl
    have hshown : ∀ plan ∈ texts, shownFor (rowsOf markdown) plan.path = some plan.row.shown :=
      fun plan hplan => (shownFor_eq_some hnodup).mpr ((hmirrored _).mpr ⟨plan, hplan, rfl⟩)
    refine ⟨_, rfl, [], (driftErrors_eq_nil h).mpr hshown, congrArg Except.ok ?_⟩
    simp only [List.append_eq_nil_iff, List.map_eq_nil_iff, missingFrom_eq_nil, true_and, and_true]
    refine ⟨fun path hpath => ?_, fun path hpath => ?_⟩
    · obtain ⟨plan, hplan, rfl⟩ := List.mem_map.mp hpath
      exact List.mem_map_of_mem ((hmirrored _).mpr ⟨plan, hplan, rfl⟩)
    · obtain ⟨row, hrow, rfl⟩ := List.mem_map.mp hpath
      obtain ⟨plan, hplan, rfl⟩ := (hmirrored row).mp hrow
      exact List.mem_map_of_mem hplan

end Mirror

/-! ## §3 Main results -/

section Main

variable {py : Python} {repo : Repo} {data : Table} {markdown : Text} {value : Option Toml}
  {fields : Table}

theorem limitErrors_eq_nil {maximum : ℤ} :
    limitErrors value = ([], maximum) ↔ asInt value = some maximum ∧ 0 ≤ maximum := by
  rw [limitErrors]
  cases asInt value with
  | none => exact iff_of_false nofun nofun
  | some limit =>
    rw [Option.some.injEq]
    by_cases hneg : limit < 0
    · simp only [hneg, if_true]
      refine iff_of_false nofun ?_
      rintro ⟨rfl, hnonneg⟩
      exact not_le.mpr hneg hnonneg
    · simp only [hneg, if_false, Prod.mk.injEq, true_and]
      constructor
      · rintro rfl
        exact ⟨rfl, not_lt.mp hneg⟩
      · exact And.left

theorem entriesOf_eq_nil {name : String} {entries : List Toml} :
    entriesOf value name = ([], entries) ↔ value = some (.array entries) := by
  rw [entriesOf.eq_def]
  split
  · simp
  · rename_i hno
    exact iff_of_false nofun (hno entries)

theorem usable_iff (py : Python) : Usable fields ↔
    ((∀ v ∈ get fields "status", v.hashable = true) ∧
        ∀ v ∈ get fields "priority", v.hashable = true) ∧
      (Loopable (get fields "depends_on") ∧ Loopable (get fields "evidence")) ∧
        ∃ row, expectedRow py fields = .ok row := by
  rw [expectedRow_ok]
  constructor
  · rintro ⟨hpath, ⟨status, hstatus⟩, ⟨priority, hpriority, hhashable⟩, hdepends, hevidence⟩
    refine ⟨⟨?_, ?_⟩, ⟨hdepends, hevidence⟩, hpath, ⟨status, hstatus⟩, ?_⟩
    · rw [hstatus]
      rintro _ ⟨⟩
      rfl
    · rw [hpriority]
      rintro _ ⟨⟩
      exact hhashable
    · rw [hpriority]
      rfl
  · rintro ⟨⟨-, hhashable⟩, ⟨hdepends, hevidence⟩, hpath, hstatus, hpriority⟩
    obtain ⟨priority, hpriority⟩ := Option.isSome_iff_exists.mp hpriority
    exact ⟨hpath, hstatus, ⟨priority, hpriority, hhashable priority hpriority⟩, hdepends, hevidence⟩

/-- Errors are returned for the steady documents only. -/
theorem validate_ok (py : Python) (markdown : Text) :
    (∃ errors, validateRegistry py repo data markdown = .ok errors) ↔ Steady repo data := by
  simp only [validateRegistry, bind_eq_ok]
  constructor
  · rintro ⟨_, evidence, hevidence, plans, hplans, references, hreferences, mirror, hmirror, -⟩
    refine ⟨(evidenceLoop_ok py repo 0).mp ⟨_, hevidence⟩, fun plan hplan => ?_⟩
    exact (usable_iff py).mpr ⟨(planLoop_ok py 0).mp ⟨_, hplans⟩ plan hplan,
      planReferences_ok.mp ⟨_, hreferences⟩ plan hplan, mirrorErrors_ok.mp ⟨_, hmirror⟩ plan hplan⟩
  · rintro ⟨hevidence, hplans⟩
    obtain ⟨evidence, hevidence⟩ := (evidenceLoop_ok py repo 0).mpr hevidence
    have husable := fun plan hplan => (usable_iff py).mp (hplans plan hplan)
    obtain ⟨plans, hplans⟩ := (planLoop_ok py 0).mpr fun plan hplan => (husable plan hplan).1
    obtain ⟨references, hreferences⟩ := planReferences_ok.mpr fun plan hplan =>
      (husable plan hplan).2.1
    obtain ⟨mirror, hmirror⟩ := mirrorErrors_ok.mpr fun plan hplan => (husable plan hplan).2.2
    exact ⟨_, evidence, hevidence, plans, hplans, references, hreferences, mirror, hmirror, rfl⟩

theorem schemaErrors_eq_nil {text message : String} :
    (if equals value text then [] else [message]) = [] ↔ value = some (.string text) := by
  rw [← bind_asString, ← equals_iff]
  split
  · exact iff_of_true rfl ‹_›
  · exact iff_of_false (List.cons_ne_nil _ _) ‹_›

theorem validWith_of_validate (h : validateRegistry py repo data markdown = .ok []) :
    ∃ limit, asInt (get data "max_active_implementations") = some limit ∧
      ValidWith repo data markdown limit := by
  obtain ⟨limitError, maximum, hlimit⟩ : ∃ errors maximum,
    limitErrors (get data "max_active_implementations") = (errors, maximum) := ⟨_, _, rfl⟩
  obtain ⟨evidenceArray, evidenceEntries, hevidenceEntries⟩ : ∃ errors entries,
    entriesOf (get data "evidence") "evidence" = (errors, entries) := ⟨_, _, rfl⟩
  obtain ⟨planArray, planEntries, hplanEntries⟩ : ∃ errors entries,
    entriesOf (get data "plan") "plan" = (errors, entries) := ⟨_, _, rfl⟩
  simp only [validateRegistry, hlimit, hevidenceEntries, hplanEntries, bind_eq_ok] at h
  obtain ⟨⟨evidenceErrors, evidenceIds⟩, hevidence, ⟨planErrors, paths⟩, hplans, references,
    hreferences, mirror, hmirror, hnil⟩ := h
  have hnil := Except.ok.inj hnil
  simp only [List.append_eq_nil_iff, List.map_eq_nil_iff, missingFrom_eq_nil,
    schemaErrors_eq_nil] at hnil
  obtain ⟨⟨⟨⟨⟨⟨⟨⟨⟨⟨⟨⟨⟨hschema, rfl⟩, rfl⟩, rfl⟩, rfl⟩, rfl⟩, hlisted⟩, hlisted'⟩, rfl⟩,
    hcycle⟩, hwindow⟩, hactive⟩, hpending⟩, rfl⟩ := hnil
  obtain ⟨hmaximum, hnonneg⟩ := limitErrors_eq_nil.mp hlimit
  obtain ⟨rfl, hreadable⟩ := evidenceLoop_result hevidence
  obtain ⟨evidence, hreadsE⟩ := hreadable.mp rfl
  obtain ⟨plans, haccepted, rfl⟩ := planLoop_eq.mp hplans
  have hreads := haccepted.reads
  obtain ⟨hreadP, hplanIds, hplanPaths, hfits⟩ :=
    (accepted_iff List.nodup_nil List.nodup_nil).mp haccepted
  rw [registered_eq hreadsE, hreads.planIds_eq] at hreferences
  have hresolved := (planReferences_eq_nil hreads).mp hreferences
  have hdepends := fun plan hplan => (hresolved plan hplan).1
  obtain ⟨hrowPaths, hmirrored⟩ := (mirrorErrors_eq_nil hreads).mp hmirror
  refine ⟨maximum, hmaximum, hschema, evidenceEntries, evidence, planEntries, plans,
    entriesOf_eq_nil.mp hevidenceEntries, hreadsE.read, entriesOf_eq_nil.mp hplanEntries, hreadP, ?_⟩
  exact {
    limit_nonneg := hnonneg
    window := (windowErrors_eq_nil hreads).mp hwindow
    evidenceIds := hreadsE.nodup
    planIds := hplanIds
    planPaths := hplanPaths
    found := hreadsE.found
    listed := fun name => ⟨hlisted' name, hlisted name⟩
    depends := hdepends
    bound := fun plan hplan => (hresolved plan hplan).2
    acyclic := (findCycle_eq_none hreads hplanIds hdepends).mp (cycleErrors_eq_nil.mp hcycle)
    ruled := fun plan hplan => ⟨(hfits plan hplan).done, (hfits plan hplan).closed,
      (urgentErrors_eq_nil hreads).mp hactive plan hplan,
      (urgentErrors_eq_nil hreads).mp hpending plan hplan⟩
    rowPaths := hrowPaths
    mirrored := hmirrored }

theorem Registered.accepted {limit : ℤ} {evidence : List Evidence} {plans : List Plan}
    {rows : List Row} {entries : List Toml} (h : Registered repo limit evidence plans rows)
    (hread : entries.mapM Plan.read = some plans) : Accepted [] [] entries plans := by
  refine (accepted_iff List.nodup_nil List.nodup_nil).mpr ⟨hread, h.planIds, h.planPaths, ?_⟩
  intro plan hplan
  exact {
    self := fun hmem => h.acyclic plan.id (.single ⟨plan, hplan, rfl, hmem⟩)
    done := (h.ruled plan hplan).done
    closed := (h.ruled plan hplan).closed }

theorem validate_of_validWith {limit : ℤ}
    (hlimit : asInt (get data "max_active_implementations") = some limit)
    (h : ValidWith repo data markdown limit) :
    validateRegistry py repo data markdown = .ok [] := by
  obtain ⟨hschema, evidenceEntries, evidence, planEntries, plans, hevidenceArray, hreadE, hplanArray,
    hreadP, hregistered⟩ := h
  have hreadsE : ReadsAs repo [] evidenceEntries evidence :=
    ⟨hreadE, fun _ _ => List.not_mem_nil, hregistered.evidenceIds, hregistered.found⟩
  have haccepted := hregistered.accepted hreadP
  have hreads := haccepted.reads
  have hfound : ∀ e ∈ registered [] evidenceEntries, repo.isFile e.path ≠ none := by
    rw [registered_eq hreadsE]
    intro e he
    rw [hregistered.found e he]
    exact Option.some_ne_none _
  obtain ⟨⟨evidenceErrors, evidenceIds⟩, hevidence⟩ := (evidenceLoop_ok py repo 0).mpr hfound
  obtain ⟨rfl, hempty⟩ := evidenceLoop_result hevidence
  obtain rfl := hempty.mpr ⟨evidence, hreadsE⟩
  have hplans : planLoop py [] [] 0 planEntries = .ok ([], [] ++ plans.map Plan.path) :=
    planLoop_eq.mpr ⟨plans, haccepted, rfl⟩
  have hreferences : planReferences py (planIds (kept [] planEntries))
      ([] ++ (registered [] evidenceEntries).map Evidence.id) (kept [] planEntries) = .ok [] := by
    rw [registered_eq hreadsE, hreads.planIds_eq]
    exact (planReferences_eq_nil hreads).mpr fun plan hplan =>
      ⟨hregistered.depends plan hplan, hregistered.bound plan hplan⟩
  have hmirror : mirrorErrors py (kept [] planEntries) markdown = .ok [] :=
    (mirrorErrors_eq_nil hreads).mpr ⟨hregistered.rowPaths, hregistered.mirrored⟩
  simp only [validateRegistry, limitErrors_eq_nil.mpr ⟨hlimit, hregistered.limit_nonneg⟩,
    entriesOf_eq_nil.mpr hevidenceArray, entriesOf_eq_nil.mpr hplanArray, bind_eq_ok]
  refine ⟨_, hevidence, _, hplans, [], hreferences, [], hmirror, congrArg Except.ok ?_⟩
  simp only [List.append_eq_nil_iff, List.map_eq_nil_iff, missingFrom_eq_nil, schemaErrors_eq_nil,
    hschema, cycleErrors_eq_nil, true_and, and_true]
  refine ⟨⟨⟨⟨⟨fun name => (hregistered.listed name).mpr, fun name => (hregistered.listed name).mp⟩,
    ?_⟩, ?_⟩, ?_⟩, ?_⟩
  · exact (findCycle_eq_none hreads hregistered.planIds hregistered.depends).mpr hregistered.acyclic
  · exact (windowErrors_eq_nil hreads).mpr hregistered.window
  · exact (urgentErrors_eq_nil hreads).mpr fun plan hplan => (hregistered.ruled plan hplan).active
  · exact (urgentErrors_eq_nil hreads).mpr fun plan hplan => (hregistered.ruled plan hplan).pending

/-- The errors are empty exactly for the valid registries, if the document is steady and is not a
registry that is valid but for a Boolean limit. -/
theorem validate_means_iff (py : Python) (repo : Repo) (data : Table) (markdown : Text) :
    (∃ errors, validateRegistry py repo data markdown = .ok errors ∧
      (errors = [] ↔ Valid repo data markdown)) ↔
    Steady repo data ∧ ∀ b, get data "max_active_implementations" = some (.bool b) →
      ¬ ValidWith repo data markdown (if b then 1 else 0) := by
  rw [← validate_ok py markdown]
  constructor
  · rintro ⟨errors, h, hvalid⟩
    refine ⟨⟨errors, h⟩, fun b hb hwith => ?_⟩
    rw [validate_of_validWith (congrArg asInt hb) hwith] at h
    cases h
    obtain ⟨limit, hlimit, -⟩ := hvalid.mp rfl
    rw [hb] at hlimit
    cases hlimit
  · rintro ⟨⟨errors, h⟩, hbool⟩
    refine ⟨errors, h, ?_, ?_⟩
    · rintro rfl
      obtain ⟨limit, hlimit, hwith⟩ := validWith_of_validate h
      cases hvalue : get data "max_active_implementations" with
      | none =>
        rw [hvalue] at hlimit
        cases hlimit
      | some value =>
        rw [hvalue] at hlimit
        cases value with
        | int => exact ⟨limit, by rw [hvalue, ← Option.some.inj hlimit], hwith⟩
        | bool b =>
          rw [← Option.some.inj hlimit] at hwith
          exact absurd hwith (hbool b hvalue)
        | string | scalar | array | table => cases hlimit
    · rintro ⟨limit, hlimit, hwith⟩
      rw [validate_of_validWith (congrArg asInt hlimit) hwith] at h
      cases h
      rfl

end Main

/-! A registry of one plan. -/

def plainPython : Python where
  repr value := "'" ++ value.asString.getD "" ++ "'"
  str value := value.asString.getD ""
  ofKey_str value h := by
    rw [h]
    decide +kernel

def plainRepo : Repo := ⟨fun _ => some false, ["README.md", "net.md"]⟩

def registryOf (limit : Toml) (status : String) : Table :=
  [("schema", .string schema), ("max_active_implementations", limit), ("evidence", .array []),
    ("plan", .array [.table [("id", .string "net"), ("path", .string "net.md"),
      ("status", .string status), ("priority", .string "P0"), ("owner", .string "net"),
      ("trigger", .string "A4"), ("depends_on", .array []), ("evidence", .array [])]])]

def plainMirror : Text := "| [NET](net.md) | 执行中 | P0 |\n".toList

/-- A misspelt state raises an exception, and `true` passes for a limit. -/
theorem not_validate_means :
    (¬ ∃ errors,
      validateRegistry plainPython plainRepo (registryOf (.int 1) "aktive") plainMirror = .ok errors ∧
        (errors = [] ↔ Valid plainRepo (registryOf (.int 1) "aktive") plainMirror)) ∧
    ¬ ∃ errors,
      validateRegistry plainPython plainRepo (registryOf (.bool true) "active") plainMirror =
          .ok errors ∧
        (errors = [] ↔ Valid plainRepo (registryOf (.bool true) "active") plainMirror) := by
  constructor
  · rintro ⟨errors, h, -⟩
    have hraise : validateRegistry plainPython plainRepo (registryOf (.int 1) "aktive") plainMirror =
        .error (.keyError "aktive") := by rfl
    rw [hraise] at h
    cases h
  · rintro ⟨errors, h, hvalid⟩
    have haccept : validateRegistry plainPython plainRepo (registryOf (.bool true) "active")
        plainMirror = .ok [] := by decide +kernel
    rw [haccept] at h
    cases h
    obtain ⟨limit, hlimit, -⟩ := hvalid.mp rfl
    cases hlimit

end HisiRiscv.Docs.PlanRegistry
