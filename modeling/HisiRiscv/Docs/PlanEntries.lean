/-
HisiRiscv.Docs.PlanEntries — the entries of a valid plan registry, and the loops over these.

A document reads as a list of evidence and a list of plans (§1), and a registry is valid if these
keep the rules. An entry whose identifier is good is kept, whatever else is wrong with it; if its
fields then cannot be used where they are read again, an exception comes instead of the errors
(`Usable`). Without errors, the loop over the evidence has read all of it
(`evidenceLoop_result`), and so has the loop over the plans (`planLoop_eq`).

  §1 Valid registries.
  §2 Documents that raise no exception.
  §3 Evidence.
  §4 Plans.
-/
import HisiRiscv.Docs.PlanRegistry
import HisiRiscv.Hil.FlashPlanTheorems

namespace HisiRiscv.Docs.PlanRegistry

open HisiRiscv.PyText
open HisiRiscv.Hil.FlashPlan (bind_eq_ok)

/-! ## §1 Valid registries -/

structure Evidence where
  id : String
  path : String

structure Plan where
  id : String
  path : String
  status : Status
  priority : String
  dependsOn : List String
  evidence : List String

/-- A string that is not empty. -/
def textOf (value : Option Toml) : Option String :=
  (value.bind Toml.asString).filter fun text => text != ""

def idOf (fields : Table) : Option String := ((get fields "id").bind Toml.asString).filter isId

def stringsOf (value : Option Toml) : Option (List String) :=
  match value with
  | some (.array items) => items.mapM Toml.asString
  | _ => none

/-- A well-formed entry of the evidence. -/
def Evidence.read : Toml → Option Evidence
  | .table fields => do
    let id ← idOf fields
    let path ← textOf (get fields "path")
    some ⟨id, path⟩
  | _ => none

/-- The fields of a well-formed plan. -/
def Plan.readFields (id : String) (fields : Table) : Option Plan := do
  let path ← ((get fields "path").bind Toml.asString).filter isPlanPath
  let status ← ((get fields "status").bind Toml.asString).bind Status.ofKey
  let priority ← ((get fields "priority").bind Toml.asString).filter priorities.contains
  let _ ← textOf (get fields "owner")
  let _ ← textOf (get fields "trigger")
  let dependsOn ← stringsOf (get fields "depends_on")
  let evidence ← stringsOf (get fields "evidence")
  some ⟨id, path, status, priority, dependsOn, evidence⟩

def Plan.read : Toml → Option Plan
  | .table fields => (idOf fields).bind fun id => Plan.readFields id fields
  | _ => none

namespace Plan

/-- The rules between state, priority and evidence. -/
structure Ruled (plan : Plan) : Prop where
  done : plan.status = .completed ↔ plan.priority = "Done"
  closed : plan.status = .completed → plan.evidence ≠ []
  active : plan.status = .active → plan.priority = "P0"
  pending : plan.status = .decisionPending → plan.priority = "P0"

def row (plan : Plan) : Row := ⟨plan.path, plan.status.label, plan.priority⟩

end Plan

def DependsOn (plans : List Plan) (id other : String) : Prop :=
  ∃ plan ∈ plans, plan.id = id ∧ other ∈ plan.dependsOn

/-- The rows of the mirror. -/
def rowsOf (markdown : Text) : List Row := (splitlines (universalNewlines markdown)).filterMap rowOf

structure Registered (repo : Repo) (limit : ℤ) (evidence : List Evidence) (plans : List Plan)
    (rows : List Row) : Prop where
  limit_nonneg : 0 ≤ limit
  window : (plans.countP fun plan => plan.status = .active : ℕ) ≤ limit
  evidenceIds : (evidence.map Evidence.id).Nodup
  planIds : (plans.map Plan.id).Nodup
  planPaths : (plans.map Plan.path).Nodup
  found : ∀ e ∈ evidence, repo.isFile e.path = some true
  listed : ∀ name, name ∈ plans.map Plan.path ↔ name ∈ markdownPlans repo
  depends : ∀ plan ∈ plans, ∀ id ∈ plan.dependsOn, id ∈ plans.map Plan.id
  bound : ∀ plan ∈ plans, ∀ id ∈ plan.evidence, id ∈ evidence.map Evidence.id
  acyclic : ∀ id, ¬ Relation.TransGen (DependsOn plans) id id
  ruled : ∀ plan ∈ plans, plan.Ruled
  /-- the mirror has one row for each plan, and no other -/
  rowPaths : (rows.map Row.path).Nodup
  mirrored : ∀ row, row ∈ rows ↔ ∃ plan ∈ plans, row = plan.row

/-- The document is a valid registry but for the type of the limit. -/
def ValidWith (repo : Repo) (data : Table) (markdown : Text) (limit : ℤ) : Prop :=
  get data "schema" = some (.string schema) ∧
    ∃ evidenceEntries evidence planEntries plans,
      get data "evidence" = some (.array evidenceEntries) ∧
      evidenceEntries.mapM Evidence.read = some evidence ∧
      get data "plan" = some (.array planEntries) ∧ planEntries.mapM Plan.read = some plans ∧
      Registered repo limit evidence plans (rowsOf markdown)

def Valid (repo : Repo) (data : Table) (markdown : Text) : Prop :=
  ∃ limit, get data "max_active_implementations" = some (.int limit) ∧
    ValidWith repo data markdown limit

/-! ## §2 Documents that raise no exception -/

/-- The entries of the evidence whose path is looked up. -/
def registered : List String → List Toml → List Evidence
  | _, [] => []
  | ids, entry :: entries =>
    match Evidence.read entry with
    | some e =>
      if ids.contains e.id then registered ids entries
      else e :: registered (ids ++ [e.id]) entries
    | none => registered ids entries

/-- A loop over the value looks up each of its members. -/
def Loopable (value : Option Toml) : Prop :=
  ∀ v ∈ value, ∃ items, v.iterate = some items ∧ ∀ item ∈ items, item.hashable = true

/-- A plan whose fields can be used where they are read again. -/
structure Usable (fields : Table) : Prop where
  path : (get fields "path").isSome = true
  status : ∃ status : Status, get fields "status" = some (.string status.key)
  priority : ∃ value, get fields "priority" = some value ∧ value.hashable = true
  dependsOn : Loopable (get fields "depends_on")
  evidence : Loopable (get fields "evidence")

structure Steady (repo : Repo) (data : Table) : Prop where
  evidence : ∀ e ∈ registered [] (entriesOf (get data "evidence") "evidence").2,
    repo.isFile e.path ≠ none
  plans : ∀ plan ∈ kept [] (entriesOf (get data "plan") "plan").2, Usable plan.2

/-! ## §3 Evidence -/

section Evidence

variable {py : Python} {repo : Repo} {ids : List String} {index : ℕ} {entry : Toml} {e : Evidence}

theorem Evidence.read_eq_some {fields : Table} : Evidence.read (.table fields) = some e ↔
    (get fields "id").bind Toml.asString = some e.id ∧ isId e.id = true ∧
      (get fields "path").bind Toml.asString = some e.path ∧ e.path ≠ "" := by
  obtain ⟨id, path⟩ := e
  simp only [Evidence.read, Option.bind_eq_bind, Option.bind_eq_some_iff, idOf, textOf,
    Option.filter_eq_some_iff, Option.some.injEq, Evidence.mk.injEq, bne_iff_ne]
  constructor
  · rintro ⟨_, ⟨hid, hgood⟩, _, ⟨hpath, hne⟩, rfl, rfl⟩
    exact ⟨hid, hgood, hpath, hne⟩
  · rintro ⟨hid, hgood, hpath, hne⟩
    exact ⟨id, ⟨hid, hgood⟩, path, ⟨hpath, hne⟩, rfl, rfl⟩

/-- An entry that is not registered is an error. -/
theorem evidenceEntry_refused (py : Python) (repo : Repo) (index : ℕ)
    (h : ∀ e, Evidence.read entry = some e → e.id ∈ ids) :
    ∃ message, evidenceEntry py repo ids index entry = .ok ([message], none) := by
  cases entry with
  | string | int | bool | scalar | array => exact ⟨_, rfl⟩
  | table fields =>
    simp only [evidenceEntry]
    split
    · rename_i id hid
      split
      · exact ⟨_, rfl⟩
      · rename_i hgood
        split
        · exact ⟨_, rfl⟩
        · rename_i hnew
          split
          · rename_i path hpath
            split
            · exact ⟨_, rfl⟩
            · rename_i hne
              have hread := (Evidence.read_eq_some (e := ⟨id, path⟩)).mpr
                ⟨hid, by simpa using hgood, hpath, hne⟩
              exact absurd (h _ hread) (by simpa using hnew)
          · exact ⟨_, rfl⟩
    · exact ⟨_, rfl⟩

theorem evidenceEntry_registered (py : Python) (repo : Repo) (index : ℕ)
    (hread : Evidence.read entry = some e) (hnew : e.id ∉ ids) :
    (repo.isFile e.path = none → evidenceEntry py repo ids index entry = .error .path) ∧
      ∀ found, repo.isFile e.path = some found → ∃ errors,
        evidenceEntry py repo ids index entry = .ok (errors, some e.id) ∧
          (errors = [] ↔ found = true) := by
  cases entry with
  | string | int | bool | scalar | array => cases hread
  | table fields =>
    obtain ⟨hid, hgood, hpath, hne⟩ := Evidence.read_eq_some.mp hread
    simp only [evidenceEntry, hid, hpath, hgood, Bool.not_true, Bool.false_eq_true, if_false,
      List.contains_eq_mem, hnew, decide_false, hne]
    constructor
    · intro hnone
      rw [hnone]
    · intro found hfound
      rw [hfound]
      cases found with
      | true => exact ⟨[], rfl, iff_of_true rfl rfl⟩
      | false => exact ⟨_, rfl, iff_of_false (List.cons_ne_nil _ _) Bool.false_ne_true⟩

/-- The two kinds of entries. -/
theorem registered_cases (ids : List String) (entry : Toml) (entries : List Toml) :
    (∃ e, Evidence.read entry = some e ∧ e.id ∉ ids ∧
      registered ids (entry :: entries) = e :: registered (ids ++ [e.id]) entries) ∨
    ((∀ e, Evidence.read entry = some e → e.id ∈ ids) ∧
      registered ids (entry :: entries) = registered ids entries) := by
  cases hread : Evidence.read entry with
  | none => exact .inr ⟨nofun, by rw [registered, hread]⟩
  | some e =>
    by_cases hid : e.id ∈ ids
    · refine .inr ⟨fun e' he' => Option.some.inj he' ▸ hid, ?_⟩
      rw [registered, hread]
      exact if_pos (by simpa using hid)
    · refine .inl ⟨e, rfl, hid, ?_⟩
      rw [registered, hread]
      exact if_neg (by simpa using hid)

/-- The loop ends if each path that is looked up does. -/
theorem evidenceLoop_ok (py : Python) (repo : Repo) (index : ℕ) {entries : List Toml} :
    (∃ result, evidenceLoop py repo ids index entries = .ok result) ↔
      ∀ e ∈ registered ids entries, repo.isFile e.path ≠ none := by
  induction entries generalizing ids index with
  | nil => exact iff_of_true ⟨_, rfl⟩ nofun
  | cons entry entries ih =>
    simp only [evidenceLoop, bind_eq_ok]
    rcases registered_cases ids entry entries with ⟨e, hread, hnew, hregistered⟩ | ⟨hread, hregistered⟩
    · obtain ⟨hraise, hreturn⟩ := evidenceEntry_registered py repo index hread hnew
      rw [hregistered, List.forall_mem_cons, ← ih (index + 1)]
      cases hfound : repo.isFile e.path with
      | none =>
        refine iff_of_false ?_ fun h => h.1 rfl
        rintro ⟨-, _, hentry, -⟩
        rw [hraise hfound] at hentry
        cases hentry
      | some found =>
        obtain ⟨errors, hentry, -⟩ := hreturn found hfound
        constructor
        · rintro ⟨-, _, hfirst, others, hothers, -⟩
          rw [hentry] at hfirst
          cases hfirst
          exact ⟨Option.some_ne_none _, others, hothers⟩
        · rintro ⟨-, others, hothers⟩
          exact ⟨_, _, hentry, others, hothers, rfl⟩
    · obtain ⟨message, hentry⟩ := evidenceEntry_refused py repo index hread
      rw [hregistered, ← ih (index + 1)]
      constructor
      · rintro ⟨-, _, hfirst, others, hothers, -⟩
        rw [hentry] at hfirst
        cases hfirst
        rw [Option.toList_none, List.append_nil] at hothers
        exact ⟨others, hothers⟩
      · rintro ⟨others, hothers⟩
        refine ⟨_, _, hentry, others, ?_, rfl⟩
        rw [Option.toList_none, List.append_nil]
        exact hothers

theorem mapM_cons_eq_some {α β : Type} {f : α → Option β} {x : α} {xs : List α} {ys : List β} :
    (x :: xs).mapM f = some ys ↔ ∃ z zs, f x = some z ∧ xs.mapM f = some zs ∧ ys = z :: zs := by
  rw [List.mapM_cons, Option.bind_eq_bind, Option.bind_eq_some_iff]
  constructor
  · rintro ⟨z, hz, h⟩
    obtain ⟨zs, hzs, h⟩ := Option.bind_eq_some_iff.mp h
    exact ⟨z, zs, hz, hzs, (Option.some.inj h).symm⟩
  · rintro ⟨z, zs, hz, hzs, rfl⟩
    exact ⟨z, hz, Option.bind_eq_some_iff.mpr ⟨zs, hzs, rfl⟩⟩

/-- The entries read as this evidence, with identifiers of its own, and its files are there. -/
structure ReadsAs (repo : Repo) (ids : List String) (entries : List Toml)
    (evidence : List Evidence) : Prop where
  read : entries.mapM Evidence.read = some evidence
  fresh : ∀ e ∈ evidence, e.id ∉ ids
  nodup : (evidence.map Evidence.id).Nodup
  found : ∀ e ∈ evidence, repo.isFile e.path = some true

theorem readsAs_cons {entries : List Toml} {evidence : List Evidence} :
    ReadsAs repo ids (entry :: entries) evidence ↔
      ∃ e rest, Evidence.read entry = some e ∧ e.id ∉ ids ∧ repo.isFile e.path = some true ∧
        ReadsAs repo (ids ++ [e.id]) entries rest ∧ evidence = e :: rest := by
  constructor
  · rintro ⟨hread, hfresh, hnodup, hfound⟩
    obtain ⟨e, rest, he, hrest, rfl⟩ := mapM_cons_eq_some.mp hread
    rw [List.forall_mem_cons] at hfresh hfound
    rw [List.map_cons, List.nodup_cons] at hnodup
    refine ⟨e, rest, he, hfresh.1, hfound.1, ⟨hrest, fun x hx hmem => ?_, hnodup.2, hfound.2⟩, rfl⟩
    rcases List.mem_append.mp hmem with hmem | hmem
    · exact hfresh.2 x hx hmem
    · rw [← List.mem_singleton.mp hmem] at hnodup
      exact hnodup.1 (List.mem_map_of_mem hx)
  · rintro ⟨e, rest, he, hnew, hfile, ⟨hrest, hfresh, hnodup, hfound⟩, rfl⟩
    refine ⟨mapM_cons_eq_some.mpr ⟨e, rest, he, hrest, rfl⟩,
      List.forall_mem_cons.mpr ⟨hnew, fun x hx hmem => hfresh x hx (List.mem_append_left _ hmem)⟩,
      ?_, List.forall_mem_cons.mpr ⟨hfile, hfound⟩⟩
    rw [List.map_cons, List.nodup_cons]
    refine ⟨fun hmem => ?_, hnodup⟩
    obtain ⟨x, hx, hid⟩ := List.mem_map.mp hmem
    exact hfresh x hx (List.mem_append_right _ (List.mem_singleton.mpr hid))

theorem evidenceLoop_result {entries : List Toml} {errors ids' : List String}
    (h : evidenceLoop py repo ids index entries = .ok (errors, ids')) :
    ids' = ids ++ (registered ids entries).map Evidence.id ∧
      (errors = [] ↔ ∃ evidence, ReadsAs repo ids entries evidence) := by
  induction entries generalizing ids index errors with
  | nil =>
    cases h
    exact ⟨(List.append_nil _).symm, iff_of_true rfl ⟨[], rfl, nofun, .nil, nofun⟩⟩
  | cons entry entries ih =>
    simp only [evidenceLoop, bind_eq_ok] at h
    obtain ⟨⟨first, id⟩, hfirst, ⟨others, ids''⟩, hothers, hlast⟩ := h
    cases hlast
    obtain ⟨hids, hempty⟩ := ih hothers
    rcases registered_cases ids entry entries with ⟨e, hread, hnew, hregistered⟩ | ⟨hread, hregistered⟩
    · obtain ⟨hraise, hreturn⟩ := evidenceEntry_registered py repo index hread hnew
      cases hfound : repo.isFile e.path with
      | none =>
        rw [hraise hfound] at hfirst
        cases hfirst
      | some found =>
        obtain ⟨errors, hentry, herrors⟩ := hreturn found hfound
        rw [hentry] at hfirst
        cases hfirst
        refine ⟨?_, ?_⟩
        · rw [hids, hregistered, Option.toList_some, List.map_cons, List.append_assoc]
          rfl
        · rw [List.append_eq_nil_iff, herrors, hempty, Option.toList_some]
          constructor
          · rintro ⟨rfl, rest, hrest⟩
            exact ⟨e :: rest, readsAs_cons.mpr ⟨e, rest, hread, hnew, hfound, hrest, rfl⟩⟩
          · rintro ⟨evidence, hevidence⟩
            obtain ⟨e', rest, he', -, hfile, hrest, -⟩ := readsAs_cons.mp hevidence
            rw [hread] at he'
            cases he'
            rw [hfound] at hfile
            exact ⟨Option.some.inj hfile, rest, hrest⟩
    · obtain ⟨message, hentry⟩ := evidenceEntry_refused py repo index hread
      rw [hentry] at hfirst
      cases hfirst
      refine ⟨?_, iff_of_false (List.cons_ne_nil _ _) ?_⟩
      · rw [hids, hregistered, Option.toList_none, List.append_nil]
      · rintro ⟨evidence, hevidence⟩
        obtain ⟨e, rest, he, hnew, -⟩ := readsAs_cons.mp hevidence
        exact hnew (hread e he)

/-- Of well-formed evidence all is registered. -/
theorem registered_eq {entries : List Toml} {evidence : List Evidence}
    (h : ReadsAs repo ids entries evidence) : registered ids entries = evidence := by
  induction entries generalizing ids evidence with
  | nil =>
    cases h.read
    rfl
  | cons entry entries ih =>
    obtain ⟨e, rest, hread, hnew, -, hrest, rfl⟩ := readsAs_cons.mp h
    rcases registered_cases ids entry entries with ⟨e', he', -, hregistered⟩ | ⟨hold, -⟩
    · rw [hread] at he'
      cases he'
      rw [hregistered, ih hrest]
    · exact absurd (hold e hread) hnew

end Evidence

/-! ## §4 Plans -/

section Plans

variable {py : Python} {paths ids : List String} {id : String} {fields : Table} {index : ℕ}
  {entry : Toml} {entries : List Toml} {plan : Plan} {value : Option Toml}

theorem asString_eq_some {v : Toml} {text : String} : v.asString = some text ↔ v = .string text := by
  cases v with
  | string => rw [Toml.asString, Option.some.injEq, Toml.string.injEq]
  | int | bool | scalar | array | table => exact iff_of_false nofun nofun

theorem bind_asString {text : String} :
    value.bind Toml.asString = some text ↔ value = some (.string text) := by
  rw [Option.bind_eq_some_iff]
  simp only [asString_eq_some, exists_eq_right]

theorem equals_iff {text : String} : equals value text = true ↔ value.bind Toml.asString = some text :=
  beq_iff_eq

theorem ofKey_eq_some {key : String} {status : Status} :
    Status.ofKey key = some status ↔ key = status.key := by
  constructor
  · intro h
    simpa [eq_comm] using List.find?_some h
  · rintro rfl
    cases status <;> decide +kernel

theorem mem_keys {key : String} :
    key ∈ Status.all.map Status.key ↔ ∃ status, Status.ofKey key = some status := by
  rw [List.mem_map]
  constructor
  · rintro ⟨status, -, rfl⟩
    exact ⟨status, ofKey_eq_some.mpr rfl⟩
  · rintro ⟨status, h⟩
    refine ⟨status, ?_, (ofKey_eq_some.mp h).symm⟩
    cases status <;> decide

theorem planPath_eq {path : Option String} : planPath py paths id value = ([], path) ↔
    ∃ text, (value.bind Toml.asString).filter isPlanPath = some text ∧ text ∉ paths ∧
      path = some text := by
  simp only [Option.filter_eq_some_iff]
  rw [planPath]
  split
  · rename_i text htext
    split
    · rename_i hbad
      refine iff_of_false (fun h => by cases h) ?_
      rintro ⟨text', ⟨htext', hgood⟩, -⟩
      rw [htext] at htext'
      cases htext'
      rw [hgood] at hbad
      cases hbad
    · rename_i hgood
      split
      · rename_i hmem
        refine iff_of_false (fun h => by cases h) ?_
        rintro ⟨text', ⟨htext', -⟩, hnew, -⟩
        rw [htext] at htext'
        cases htext'
        exact hnew (by simpa using hmem)
      · rename_i hnew
        constructor
        · intro h
          cases h
          exact ⟨text, ⟨htext, by simpa using hgood⟩, by simpa using hnew, rfl⟩
        · rintro ⟨text', ⟨htext', -⟩, -, rfl⟩
          rw [htext] at htext'
          cases htext'
          rfl
  · rename_i hnone
    refine iff_of_false (fun h => by cases h) ?_
    rintro ⟨text', ⟨htext', -⟩, -⟩
    rw [hnone] at htext'
    cases htext'

theorem memberError_eq {names : List String} {message : String} :
    memberError py names value message = .ok [] ↔
      ∃ name ∈ names, value.bind Toml.asString = some name := by
  rw [memberError]
  split
  · rename_i hbad
    refine iff_of_false (fun h => by cases h) ?_
    rintro ⟨name, -, hname⟩
    obtain rfl := bind_asString.mp hname
    cases hbad
  · split
    · rename_i hany
      obtain ⟨name, hmem, hname⟩ := List.any_eq_true.mp hany
      exact iff_of_true rfl ⟨name, hmem, equals_iff.mp hname⟩
    · rename_i hany
      refine iff_of_false (fun h => by cases h) ?_
      rintro ⟨name, hmem, hname⟩
      exact hany (List.any_eq_true.mpr ⟨name, hmem, equals_iff.mpr hname⟩)

theorem memberError_ok {names : List String} {message : String} :
    (∃ errors, memberError py names value message = .ok errors) ↔
      ∀ v ∈ value, v.hashable = true := by
  rw [memberError]
  split
  · rename_i hbad
    refine iff_of_false (fun ⟨_, h⟩ => by cases h) fun h => ?_
    obtain ⟨v, hv, hnot⟩ := Option.any_eq_true .. |>.mp hbad
    rw [h v hv] at hnot
    cases hnot
  · rename_i hgood
    refine iff_of_true ?_ fun v hv => ?_
    · split
      · exact ⟨_, rfl⟩
      · exact ⟨_, rfl⟩
    · obtain rfl : value = some v := hv
      simpa using hgood

theorem textErrors_eq_nil {message : String} :
    textErrors value message = [] ↔ ∃ text, textOf value = some text := by
  rw [textErrors, textOf]
  split
  · rename_i text htext
    rw [htext]
    by_cases hempty : text = ""
    · simp [hempty]
    · simp [hempty, Option.filter]
  · rename_i hnone
    rw [hnone]
    simp

theorem strings_eq {field : String} {texts errors : List String}
    (h : strings value field = (texts, errors)) :
    (errors = [] ↔ stringsOf value = some texts) ∧
      ∀ texts', stringsOf value = some texts' → texts' = texts ∧ errors = [] := by
  unfold strings at h
  split at h
  · rename_i items
    split at h
    · rename_i texts' htexts
      cases h
      exact ⟨iff_of_true rfl htexts, fun texts' h => ⟨Option.some.inj (h.symm.trans htexts), rfl⟩⟩
    · rename_i hnone
      cases h
      have hnot : ∀ texts, stringsOf (some (.array items)) ≠ some texts := by
        intro texts htexts
        have htexts : items.mapM Toml.asString = some texts := htexts
        rw [hnone] at htexts
        cases htexts
      exact ⟨iff_of_false (List.cons_ne_nil _ _) (hnot _), fun texts' h => absurd h (hnot texts')⟩
  · rename_i hno
    cases h
    have hnot : ∀ texts, stringsOf value ≠ some texts := by
      intro texts htexts
      unfold stringsOf at htexts
      split at htexts
      · rename_i items
        exact hno items rfl
      · cases htexts
    exact ⟨iff_of_false (List.cons_ne_nil _ _) (hnot _), fun texts' h => absurd h (hnot texts')⟩

theorem ruleErrors_eq_nil {status priority : Option Toml} {evidence : List String} :
    ruleErrors id status priority evidence = [] ↔
      (equals status "completed" = true ↔ equals priority "Done" = true) ∧
        (equals status "completed" = true → evidence ≠ []) := by
  rw [ruleErrors]
  cases equals status "completed" with
  | true =>
    cases equals priority "Done" with
    | true => simp
    | false => simp
  | false =>
    cases equals priority "Done" with
    | true => simp
    | false => simp

/-- The fields of a well-formed plan, one by one. -/
structure FieldsOf (id : String) (fields : Table) (plan : Plan) : Prop where
  id_eq : plan.id = id
  path : ((get fields "path").bind Toml.asString).filter isPlanPath = some plan.path
  status : (get fields "status").bind Toml.asString = some plan.status.key
  priority : (get fields "priority").bind Toml.asString = some plan.priority
  known : plan.priority ∈ priorities
  owner : ∃ text, textOf (get fields "owner") = some text
  trigger : ∃ text, textOf (get fields "trigger") = some text
  dependsOn : stringsOf (get fields "depends_on") = some plan.dependsOn
  evidence : stringsOf (get fields "evidence") = some plan.evidence

theorem readFields_iff : Plan.readFields id fields = some plan ↔ FieldsOf id fields plan := by
  obtain ⟨id', path, status, priority, dependsOn, evidence⟩ := plan
  constructor
  · intro h
    simp only [Plan.readFields, Option.bind_eq_bind] at h
    obtain ⟨_, hpath, h⟩ := Option.bind_eq_some_iff.mp h
    obtain ⟨_, hstatus, h⟩ := Option.bind_eq_some_iff.mp h
    obtain ⟨_, hpriority, h⟩ := Option.bind_eq_some_iff.mp h
    obtain ⟨owner, howner, h⟩ := Option.bind_eq_some_iff.mp h
    obtain ⟨trigger, htrigger, h⟩ := Option.bind_eq_some_iff.mp h
    obtain ⟨_, hdepends, h⟩ := Option.bind_eq_some_iff.mp h
    obtain ⟨_, hevidence, h⟩ := Option.bind_eq_some_iff.mp h
    cases h
    obtain ⟨key, hkey, hstatus⟩ := Option.bind_eq_some_iff.mp hstatus
    obtain ⟨hpriority, hknown⟩ := Option.filter_eq_some_iff.mp hpriority
    exact ⟨rfl, hpath, hkey.trans (congrArg some (ofKey_eq_some.mp hstatus)), hpriority,
      List.contains_iff_mem.mp hknown, ⟨owner, howner⟩, ⟨trigger, htrigger⟩, hdepends, hevidence⟩
  · rintro ⟨rfl, hpath, hstatus, hpriority, hknown, ⟨owner, howner⟩, ⟨trigger, htrigger⟩, hdepends,
      hevidence⟩
    have hstatus : ((get fields "status").bind Toml.asString).bind Status.ofKey = some status := by
      rw [hstatus]
      exact ofKey_eq_some.mpr rfl
    have hpriority := Option.filter_eq_some_iff.mpr ⟨hpriority, List.contains_iff_mem.mpr hknown⟩
    simp only [Plan.readFields, Option.bind_eq_bind, hpath, hstatus, hpriority, howner, htrigger,
      hdepends, hevidence, Option.bind_some]

/-- The rules that are checked with the fields. -/
structure Fits (plan : Plan) : Prop where
  self : plan.id ∉ plan.dependsOn
  done : plan.status = .completed ↔ plan.priority = "Done"
  closed : plan.status = .completed → plan.evidence ≠ []

theorem FieldsOf.equals_status (h : FieldsOf id fields plan) (status : Status) :
    equals (get fields "status") status.key = true ↔ plan.status = status := by
  rw [equals_iff, h.status, Option.some.injEq]
  constructor
  · intro hkey
    have hsame := ofKey_eq_some.mpr hkey
    rw [ofKey_eq_some.mpr rfl] at hsame
    exact Option.some.inj hsame
  · intro heq
    rw [heq]

theorem FieldsOf.equals_priority (h : FieldsOf id fields plan) (text : String) :
    equals (get fields "priority") text = true ↔ plan.priority = text := by
  rw [equals_iff, h.priority, Option.some.injEq]

theorem planFields_ok (py : Python) (paths : List String) (id : String) :
    (∃ result, planFields py paths id fields = .ok result) ↔
    (∀ v ∈ get fields "status", v.hashable = true) ∧
      ∀ v ∈ get fields "priority", v.hashable = true := by
  simp only [planFields, bind_eq_ok]
  constructor
  · rintro ⟨-, status, hstatus, priority, hpriority, -⟩
    exact ⟨memberError_ok.mp ⟨status, hstatus⟩, memberError_ok.mp ⟨priority, hpriority⟩⟩
  · rintro ⟨hstatus, hpriority⟩
    obtain ⟨status, hstatus⟩ := memberError_ok.mpr hstatus
    obtain ⟨priority, hpriority⟩ := memberError_ok.mpr hpriority
    exact ⟨_, status, hstatus, priority, hpriority, rfl⟩

theorem planFields_eq {path : Option String} : planFields py paths id fields = .ok ([], path) ↔
    ∃ plan, FieldsOf id fields plan ∧ Fits plan ∧ plan.path ∉ paths ∧ path = some plan.path := by
  obtain ⟨dependsOn, dependsErrors, hstringsD⟩ : ∃ texts errors,
    strings (get fields "depends_on") ("plan " ++ id ++ ".depends_on") = (texts, errors) :=
      ⟨_, _, rfl⟩
  obtain ⟨evidence, evidenceErrors, hstringsE⟩ : ∃ texts errors,
    strings (get fields "evidence") ("plan " ++ id ++ ".evidence") = (texts, errors) :=
      ⟨_, _, rfl⟩
  simp only [planFields, bind_eq_ok, hstringsD, hstringsE]
  constructor
  · rintro ⟨statusErrors, hstatus, priorityErrors, hpriority, h⟩
    obtain ⟨herrors, hpath⟩ := Prod.mk.inj (Except.ok.inj h)
    simp only [List.append_eq_nil_iff] at herrors
    obtain ⟨⟨⟨⟨⟨⟨⟨⟨hpathErrors, rfl⟩, rfl⟩, howner⟩, htrigger⟩, hdepends⟩, hevidence⟩, hself⟩,
      hrules⟩ := herrors
    obtain ⟨text, htext, hnew, htextEq⟩ := planPath_eq.mp (Prod.ext hpathErrors hpath)
    obtain ⟨key, hkey, hstatus⟩ := memberError_eq.mp hstatus
    obtain ⟨status, hofKey⟩ := mem_keys.mp hkey
    obtain ⟨name, hname, hpriority⟩ := memberError_eq.mp hpriority
    obtain rfl := ofKey_eq_some.mp hofKey
    have hfields : FieldsOf id fields ⟨id, text, status, name, dependsOn, evidence⟩ :=
      ⟨rfl, htext, hstatus, hpriority, hname, textErrors_eq_nil.mp howner,
        textErrors_eq_nil.mp htrigger, (strings_eq hstringsD).1.mp hdepends,
        (strings_eq hstringsE).1.mp hevidence⟩
    obtain ⟨hdone, hclosed⟩ := ruleErrors_eq_nil.mp hrules
    have hcompleted := hfields.equals_status .completed
    rw [Status.key] at hcompleted
    rw [hcompleted, hfields.equals_priority] at hdone
    rw [hcompleted] at hclosed
    refine ⟨_, hfields, ⟨fun hmem => ?_, hdone, hclosed⟩, hnew, htextEq⟩
    rw [if_pos (List.contains_iff_mem.mpr hmem)] at hself
    cases hself
  · rintro ⟨plan, hfields, hfits, hnew, rfl⟩
    obtain ⟨rfl, rfl⟩ := (strings_eq hstringsD).2 _ hfields.dependsOn
    obtain ⟨rfl, rfl⟩ := (strings_eq hstringsE).2 _ hfields.evidence
    have hcompleted := hfields.equals_status .completed
    rw [Status.key] at hcompleted
    have hrules : ruleErrors id (get fields "status") (get fields "priority") plan.evidence = [] := by
      rw [ruleErrors_eq_nil, hcompleted, hfields.equals_priority]
      exact ⟨hfits.done, hfits.closed⟩
    have hself : ¬ plan.dependsOn.contains id = true := by
      rw [List.contains_iff_mem, ← hfields.id_eq]
      exact hfits.self
    refine ⟨[], memberError_eq.mpr ⟨_, mem_keys.mpr ⟨_, ofKey_eq_some.mpr rfl⟩, hfields.status⟩, [],
      memberError_eq.mpr ⟨_, hfields.known, hfields.priority⟩, ?_⟩
    rw [planPath_eq.mpr ⟨_, hfields.path, hnew, rfl⟩, textErrors_eq_nil.mpr hfields.owner,
      textErrors_eq_nil.mpr hfields.trigger, if_neg hself, hrules]
    rfl

theorem keeps_eq_some : keeps ids entry = some (id, fields) ↔
    entry = .table fields ∧ idOf fields = some id ∧ id ∉ ids := by
  rw [idOf, Option.filter_eq_some_iff]
  cases entry with
  | string | int | bool | scalar | array => exact iff_of_false nofun fun h => nomatch h.1
  | table fields' =>
    simp only [keeps, Toml.table.injEq]
    split
    · rename_i id' hid
      rw [Option.ite_none_right_eq_some, Bool.and_eq_true, Bool.not_eq_true',
        List.contains_eq_mem, decide_eq_false_iff_not, Option.some.injEq, Prod.mk.injEq]
      constructor
      · rintro ⟨⟨hgood, hnew⟩, rfl, rfl⟩
        exact ⟨rfl, ⟨hid, hgood⟩, hnew⟩
      · rintro ⟨rfl, ⟨hid', hgood⟩, hnew⟩
        rw [hid] at hid'
        cases hid'
        exact ⟨⟨hgood, hnew⟩, rfl, rfl⟩
    · rename_i hnone
      refine iff_of_false nofun ?_
      rintro ⟨rfl, ⟨hid, -⟩, -⟩
      rw [hnone] at hid
      cases hid

theorem read_eq_some : Plan.read entry = some plan ↔
    ∃ fields, entry = .table fields ∧ idOf fields = some plan.id ∧ FieldsOf plan.id fields plan := by
  cases entry with
  | string | int | bool | scalar | array => exact iff_of_false nofun fun ⟨_, h, _⟩ => nomatch h
  | table fields =>
    rw [Plan.read, Option.bind_eq_some_iff]
    constructor
    · rintro ⟨id, hid, hread⟩
      have hfields := readFields_iff.mp hread
      rw [hfields.id_eq]
      exact ⟨fields, rfl, hid, hfields⟩
    · rintro ⟨_, heq, hid, hfields⟩
      cases heq
      exact ⟨_, hid, readFields_iff.mpr hfields⟩

theorem planLoop_ok (py : Python) (index : ℕ) :
    (∃ result, planLoop py ids paths index entries = .ok result) ↔
      ∀ plan ∈ kept ids entries, (∀ v ∈ get plan.2 "status", v.hashable = true) ∧
        ∀ v ∈ get plan.2 "priority", v.hashable = true := by
  induction entries generalizing ids paths index with
  | nil => exact iff_of_true ⟨_, rfl⟩ nofun
  | cons entry entries ih =>
    rw [planLoop, kept]
    split
    · rename_i id fields hkeep
      rw [hkeep, List.forall_mem_cons, ← planFields_ok py paths id]
      simp only [bind_eq_ok]
      constructor
      · rintro ⟨_, ⟨errors, path⟩, hfields, others, hothers, -⟩
        exact ⟨⟨_, hfields⟩, (ih _).mp ⟨others, hothers⟩⟩
      · rintro ⟨⟨⟨errors, path⟩, hfields⟩, hrest⟩
        obtain ⟨others, hothers⟩ := (ih (index + 1)).mpr hrest
        exact ⟨_, _, hfields, others, hothers, rfl⟩
    · rename_i hkeep
      rw [hkeep]
      simp only [bind_eq_ok]
      constructor
      · rintro ⟨_, others, hothers, -⟩
        exact (ih _).mp ⟨others, hothers⟩
      · intro hrest
        obtain ⟨others, hothers⟩ := (ih (index + 1)).mpr hrest
        exact ⟨_, others, hothers, rfl⟩

/-- The entries read as these plans, each of which fits what comes before it. -/
inductive Accepted : List String → List String → List Toml → List Plan → Prop
  | nil {ids paths : List String} : Accepted ids paths [] []
  | cons {ids paths : List String} {entry : Toml} {entries : List Toml} {plan : Plan}
      {plans : List Plan} (read : Plan.read entry = some plan) (freshId : plan.id ∉ ids)
      (freshPath : plan.path ∉ paths) (fits : Fits plan)
      (rest : Accepted (ids ++ [plan.id]) (paths ++ [plan.path]) entries plans) :
      Accepted ids paths (entry :: entries) (plan :: plans)

theorem Accepted.of_cons {plans : List Plan} (h : Accepted ids paths (entry :: entries) plans) :
    ∃ plan rest, Plan.read entry = some plan ∧ plan.id ∉ ids ∧ plan.path ∉ paths ∧ Fits plan ∧
      Accepted (ids ++ [plan.id]) (paths ++ [plan.path]) entries rest ∧ plans = plan :: rest := by
  cases h with
  | cons read freshId freshPath fits rest => exact ⟨_, _, read, freshId, freshPath, fits, rest, rfl⟩

theorem planLoop_eq {paths' : List String} :
    planLoop py ids paths index entries = .ok ([], paths') ↔
      ∃ plans, Accepted ids paths entries plans ∧ paths' = paths ++ plans.map Plan.path := by
  induction entries generalizing ids paths index with
  | nil =>
    constructor
    · intro h
      cases h
      exact ⟨[], .nil, (List.append_nil _).symm⟩
    · rintro ⟨_, ⟨⟩, rfl⟩
      rw [List.map_nil, List.append_nil]
      rfl
  | cons entry entries ih =>
    rw [planLoop]
    split
    · rename_i id fields hkeep
      obtain ⟨rfl, hid, hnew⟩ := keeps_eq_some.mp hkeep
      simp only [bind_eq_ok]
      constructor
      · rintro ⟨⟨errors, path⟩, hfields, ⟨others, paths''⟩, hothers, h⟩
        obtain ⟨herrors, rfl⟩ := Prod.mk.inj (Except.ok.inj h)
        obtain ⟨rfl, rfl⟩ := List.append_eq_nil_iff.mp herrors
        obtain ⟨plan, hplan, hfits, hpath, rfl⟩ := planFields_eq.mp hfields
        obtain rfl := hplan.id_eq
        obtain ⟨plans, haccepted, hpaths⟩ := ih.mp hothers
        refine ⟨plan :: plans, .cons (read_eq_some.mpr ⟨fields, rfl, hid, hplan⟩) hnew hpath hfits
          haccepted, ?_⟩
        rw [hpaths, List.append_assoc]
        rfl
      · rintro ⟨_, haccepted, rfl⟩
        obtain ⟨plan, plans, hread, -, hpath, hfits, hrest, rfl⟩ := haccepted.of_cons
        obtain ⟨_, heq, hid', hplan⟩ := read_eq_some.mp hread
        cases heq
        rw [hid] at hid'
        cases hid'
        exact ⟨_, planFields_eq.mpr ⟨plan, hplan, hfits, hpath, rfl⟩, _,
          ih.mpr ⟨plans, hrest, List.append_cons ..⟩, rfl⟩
    · rename_i hkeep
      simp only [bind_eq_ok]
      constructor
      · rintro ⟨_, _, h⟩
        cases h
      · rintro ⟨_, haccepted, -⟩
        obtain ⟨plan, plans, hread, hnew, -⟩ := haccepted.of_cons
        obtain ⟨fields, rfl, hid, -⟩ := read_eq_some.mp hread
        rw [keeps_eq_some.mpr ⟨rfl, hid, hnew⟩] at hkeep
        cases hkeep

theorem accepted_iff {plans : List Plan} (hids : ids.Nodup) (hpaths : paths.Nodup) :
    Accepted ids paths entries plans ↔ entries.mapM Plan.read = some plans ∧
      (ids ++ plans.map Plan.id).Nodup ∧ (paths ++ plans.map Plan.path).Nodup ∧
        ∀ plan ∈ plans, Fits plan := by
  induction entries generalizing ids paths plans with
  | nil =>
    constructor
    · rintro ⟨⟩
      simpa using ⟨hids, hpaths⟩
    · rintro ⟨h, -⟩
      cases h
      exact .nil
  | cons entry entries ih =>
    have hsnoc : ∀ {names : List String} {name : String}, names.Nodup →
        ((names ++ [name]).Nodup ↔ name ∉ names) := fun hnames => by
      rw [List.nodup_append', List.disjoint_singleton]
      exact ⟨fun h => h.2.2, fun h => ⟨hnames, List.nodup_singleton _, h⟩⟩
    constructor
    · intro haccepted
      obtain ⟨plan, rest, hread, hnewId, hnewPath, hfits, hrest, rfl⟩ := haccepted.of_cons
      obtain ⟨hreads, hnodupIds, hnodupPaths, hall⟩ :=
        (ih ((hsnoc hids).mpr hnewId) ((hsnoc hpaths).mpr hnewPath)).mp hrest
      rw [List.append_assoc] at hnodupIds hnodupPaths
      exact ⟨mapM_cons_eq_some.mpr ⟨_, _, hread, hreads, rfl⟩, hnodupIds, hnodupPaths,
        List.forall_mem_cons.mpr ⟨hfits, hall⟩⟩
    · rintro ⟨hread, hnodupIds, hnodupPaths, hall⟩
      obtain ⟨plan, rest, hplan, hrest, rfl⟩ := mapM_cons_eq_some.mp hread
      rw [List.map_cons, List.append_cons] at hnodupIds hnodupPaths
      have hids' := (List.nodup_append'.mp hnodupIds).1
      have hpaths' := (List.nodup_append'.mp hnodupPaths).1
      obtain ⟨hfits, hall⟩ := List.forall_mem_cons.mp hall
      exact .cons hplan ((hsnoc hids).mp hids') ((hsnoc hpaths).mp hpaths') hfits
        ((ih hids' hpaths').mpr ⟨hrest, hnodupIds, hnodupPaths, hall⟩)

end Plans

end HisiRiscv.Docs.PlanRegistry
