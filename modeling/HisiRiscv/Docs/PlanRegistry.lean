/-
HisiRiscv.Docs.PlanRegistry — `validate_registry` of `check-plan-registry.py`.

The registry is a TOML document with the plans of the project and the evidence for those that are
closed; `README.md` repeats it as a table. `validate_registry` collects errors. A plan with an
error stays in the table of plans as long as its identifier is good, and what comes later reads
its fields again.

Translation notes. `Python` formats the values that are not strings, which matters for the
texts of the errors. `Repo` answers for the file system. `glob("*.md")` finds the names that
end so. The mirror is always checked, and the language of the plans is not. Neither Python's limit
for recursion nor that for the digits of an integer is modelled.

  §1 Values and states.
  §2 Identifiers and paths.
  §3 Evidence.
  §4 Plans.
  §5 References.
  §6 The mirror.
  §7 The registry.
-/
import HisiRiscv.Lib.DepthFirst
import HisiRiscv.Lib.PyText
import Mathlib.Data.List.Dedup

namespace HisiRiscv.Docs.PlanRegistry

open HisiRiscv.PyText

/-! ## §1 Values and states -/

inductive Toml where
  | string (value : String)
  | int (value : ℤ)
  | bool (value : Bool)
  /-- a float, a date or a time -/
  | scalar (text : String)
  | array (items : List Toml)
  | table (fields : List (String × Toml))

abbrev Table : Type := List (String × Toml)

/-- `dict.get`. -/
def get (fields : Table) (key : String) : Option Toml :=
  (fields.find? fun field => field.1 == key).map Prod.snd

namespace Toml

def hashable : Toml → Bool
  | array _ | table _ => false
  | string _ | int _ | bool _ | scalar _ => true

/-- What a loop over the value goes through. -/
def iterate : Toml → Option (List Toml)
  | array items => some items
  | string value => some (value.toList.map fun c => string (String.singleton c))
  | table fields => some (fields.map fun field => string field.1)
  | int _ | bool _ | scalar _ => none

def asString : Toml → Option String
  | string value => some value
  | int _ | bool _ | scalar _ | array _ | table _ => none

end Toml

/-- `value == text`. -/
def equals (value : Option Toml) (text : String) : Bool := value.bind Toml.asString == some text

inductive Status where
  | active
  | decisionPending
  | supporting
  | triggered
  | deferred
  | completed
  deriving DecidableEq

namespace Status

def key : Status → String
  | active => "active"
  | decisionPending => "decision-pending"
  | supporting => "supporting"
  | triggered => "triggered"
  | deferred => "deferred"
  | completed => "completed"

/-- `STATUS_LABELS`. -/
def label : Status → String
  | active => "执行中"
  | decisionPending => "决策待定"
  | supporting => "配套工作"
  | triggered => "条件触发"
  | deferred => "延期"
  | completed => "已完成"

def all : List Status := [active, decisionPending, supporting, triggered, deferred, completed]

def ofKey (key : String) : Option Status := all.find? fun status => status.key = key

end Status

structure Python where
  repr : Toml → String
  str : Toml → String
  /-- only a string is written like the name of a state -/
  ofKey_str : ∀ value, value.asString = none → Status.ofKey (str value) = none

namespace Python

variable (py : Python)

/-- `f"{value}"`. -/
def format : Toml → String
  | .string value => value
  | value => py.str value

/-- `f"{value!r}"`. -/
def quote : Option Toml → String
  | none => "None"
  | some value => py.repr value

def quotePair (pair : String × String) : String :=
  "(" ++ py.repr (.string pair.1) ++ ", " ++ py.repr (.string pair.2) ++ ")"

end Python

inductive Raised where
  | typeError
  | keyError (key : String)
  /-- of the file system -/
  | path
  deriving DecidableEq

structure Repo where
  /-- Whether a path, from the root, is that of a file below it; none if that raises an
  exception. -/
  isFile : String → Option Bool
  /-- The names in the directory of the plans. -/
  listing : List String

/-! ## §2 Identifiers and paths -/

def isIdChar (c : Char) : Bool := ('a' ≤ c && c ≤ 'z') || ('0' ≤ c && c ≤ '9')

/-- `ID.fullmatch`. -/
def isId (id : String) : Bool :=
  match id.toList with
  | [] => false
  | c :: cs => isIdChar c && cs.all fun c => isIdChar c || c == '-'

/-- `PRIORITIES`. -/
def priorities : List String := ["P0", "P1", "P2", "P3", "Done"]

def endsWithMd (name : String) : Bool := ".md".toList.isSuffixOf name.toList

/-- `Path(path).name == path and path.endswith(".md")`. -/
def isPlanPath (path : String) : Bool :=
  !path.toList.contains '/' && path != "." && endsWithMd path

def markdownPlans (repo : Repo) : List String :=
  repo.listing.filter fun name => endsWithMd name && name != "README.md"

/-- `sorted(names - others)`. -/
def missingFrom (names others : List String) : List String :=
  ((names.filter fun name => !others.contains name).dedup).mergeSort (· ≤ ·)

/-! ## §3 Evidence -/

/-- An entry of the evidence, after the entries with these identifiers: its errors, and its
identifier if it is registered. -/
def evidenceEntry (py : Python) (repo : Repo) (ids : List String) (index : ℕ) (entry : Toml) :
    Except Raised (List String × Option String) :=
  let label := "evidence[" ++ toString index ++ "]"
  match entry with
  | .table fields =>
    match (get fields "id").bind Toml.asString with
    | some id =>
      if !isId id then .ok ([label ++ " ID 非法：" ++ py.quote (get fields "id")], none)
      else if ids.contains id then .ok (["重复 evidence ID：" ++ id], none)
      else
        match (get fields "path").bind Toml.asString with
        | some path =>
          if path = "" then .ok (["evidence " ++ id ++ " 缺少 path"], none)
          else
            match repo.isFile path with
            | none => .error .path
            | some true => .ok ([], some id)
            | some false =>
              .ok (["evidence " ++ id ++ " 路径不存在或越界：" ++ path], some id)
        | none => .ok (["evidence " ++ id ++ " 缺少 path"], none)
    | none => .ok ([label ++ " ID 非法：" ++ py.quote (get fields "id")], none)
  | _ => .ok ([label ++ " 必须是对象"], none)

/-- The errors of the entries, and the identifiers that are registered. -/
def evidenceLoop (py : Python) (repo : Repo) :
    List String → ℕ → List Toml → Except Raised (List String × List String)
  | ids, _, [] => .ok ([], ids)
  | ids, index, entry :: entries => do
    let (errors, id) ← evidenceEntry py repo ids index entry
    let (others, ids) ← evidenceLoop py repo (ids ++ id.toList) (index + 1) entries
    .ok (errors ++ others, ids)

/-! ## §4 Plans -/

/-- `_strings`: the strings, and the error if the value is not a list of these. -/
def strings (value : Option Toml) (field : String) : List String × List String :=
  match value with
  | some (.array items) =>
    match items.mapM Toml.asString with
    | some texts => (texts, [])
    | none => ([], [field ++ " 必须是字符串数组"])
  | _ => ([], [field ++ " 必须是字符串数组"])

/-- The path of a plan: the error, or the path. -/
def planPath (py : Python) (paths : List String) (id : String) (value : Option Toml) :
    List String × Option String :=
  match value.bind Toml.asString with
  | some path =>
    if !isPlanPath path then
      (["plan " ++ id ++ " path 必须是顶层 Markdown 文件名：" ++ py.quote value], none)
    else if paths.contains path then (["重复 plan path：" ++ path], none)
    else ([], some path)
  | none => (["plan " ++ id ++ " path 必须是顶层 Markdown 文件名：" ++ py.quote value], none)

/-- `value not in names` of a set or of the keys of a dictionary, and its error. -/
def memberError (py : Python) (names : List String) (value : Option Toml) (message : String) :
    Except Raised (List String) :=
  if value.any fun value => !value.hashable then .error .typeError
  else if names.any (equals value) then .ok []
  else .ok [message ++ py.quote value]

def textErrors (value : Option Toml) (message : String) : List String :=
  match value.bind Toml.asString with
  | some text => if text = "" then [message] else []
  | none => [message]

/-- The rules between the state, the priority and the evidence. -/
def ruleErrors (id : String) (status priority : Option Toml) (evidence : List String) :
    List String :=
  if equals status "completed" then
    (if equals priority "Done" then [] else ["已完成计划 " ++ id ++ " 必须使用 Done 优先级"]) ++
      if evidence = [] then ["已完成计划 " ++ id ++ " 必须绑定关闭证据"] else []
  else if equals priority "Done" then ["未完成计划 " ++ id ++ " 不能使用 Done 优先级"]
  else []

/-- The checks of the fields of a plan: the errors, and the path if it is registered. -/
def planFields (py : Python) (paths : List String) (id : String) (fields : Table) :
    Except Raised (List String × Option String) := do
  let (pathErrors, path) := planPath py paths id (get fields "path")
  let statusErrors ← memberError py (Status.all.map Status.key) (get fields "status")
    ("plan " ++ id ++ " 状态非法：")
  let priorityErrors ← memberError py priorities (get fields "priority")
    ("plan " ++ id ++ " 优先级非法：")
  let (dependencies, dependencyErrors) :=
    strings (get fields "depends_on") ("plan " ++ id ++ ".depends_on")
  let (evidence, evidenceErrors) := strings (get fields "evidence") ("plan " ++ id ++ ".evidence")
  .ok (pathErrors ++ statusErrors ++ priorityErrors ++
    textErrors (get fields "owner") ("plan " ++ id ++ " 缺少 owner") ++
    textErrors (get fields "trigger") ("plan " ++ id ++ " 缺少 trigger") ++
    dependencyErrors ++ evidenceErrors ++
    (if dependencies.contains id then ["plan " ++ id ++ " 不能依赖自身"] else []) ++
    ruleErrors id (get fields "status") (get fields "priority") evidence, path)

/-- The identifier and the fields of an entry that is kept, after plans with these identifiers. -/
def keeps (ids : List String) (entry : Toml) : Option (String × Table) :=
  match entry with
  | .table fields =>
    match (get fields "id").bind Toml.asString with
    | some id => if isId id && !ids.contains id then some (id, fields) else none
    | none => none
  | _ => none

/-- The error of an entry that is not kept. -/
def refusal (py : Python) (index : ℕ) (entry : Toml) : String :=
  let label := "plan[" ++ toString index ++ "]"
  match entry with
  | .table fields =>
    match (get fields "id").bind Toml.asString with
    | some id =>
      if isId id then "重复 plan ID：" ++ id
      else label ++ " ID 非法：" ++ py.quote (get fields "id")
    | none => label ++ " ID 非法：" ++ py.quote (get fields "id")
  | _ => label ++ " 必须是对象"

/-- `plans_by_id`. -/
def kept : List String → List Toml → List (String × Table)
  | _, [] => []
  | ids, entry :: entries =>
    match keeps ids entry with
    | some plan => plan :: kept (ids ++ [plan.1]) entries
    | none => kept ids entries

/-- The errors of the entries, and the paths that are registered. -/
def planLoop (py : Python) :
    List String → List String → ℕ → List Toml → Except Raised (List String × List String)
  | _, paths, _, [] => .ok ([], paths)
  | ids, paths, index, entry :: entries =>
    match keeps ids entry with
    | some (id, fields) => do
      let (errors, path) ← planFields py paths id fields
      let (others, paths) ← planLoop py (ids ++ [id]) (paths ++ path.toList) (index + 1) entries
      .ok (errors ++ others, paths)
    | none => do
      let (others, paths) ← planLoop py ids paths (index + 1) entries
      .ok (refusal py index entry :: others, paths)

/-! ## §5 References -/

/-- `value in ids`, of the keys of a dictionary. -/
def knows (ids : List String) (value : Toml) : Bool := value.asString.any ids.contains

/-- The errors of a loop over references, which are looked up one after another. -/
def referenceLoop (py : Python) (ids : List String) (message : String) :
    List Toml → Except Raised (List String)
  | [] => .ok []
  | item :: items =>
    if !item.hashable then .error .typeError
    else do
      let others ← referenceLoop py ids message items
      .ok (if knows ids item then others else (message ++ py.format item) :: others)

def referenceErrors (py : Python) (ids : List String) (message : String) (value : Option Toml) :
    Except Raised (List String) :=
  match value with
  | none => .ok []
  | some value =>
    match value.iterate with
    | none => .error .typeError
    | some items => referenceLoop py ids message items

def planReferences (py : Python) (planIds evidenceIds : List String) :
    List (String × Table) → Except Raised (List String)
  | [] => .ok []
  | (id, fields) :: plans => do
    let dependencies ← referenceErrors py planIds ("plan " ++ id ++ " 依赖未知 ID：")
      (get fields "depends_on")
    let evidence ← referenceErrors py evidenceIds ("plan " ++ id ++ " 引用未知 evidence ID：")
      (get fields "evidence")
    let others ← planReferences py planIds evidenceIds plans
    .ok (dependencies ++ evidence ++ others)

def planIds (plans : List (String × Table)) : List String := plans.map Prod.fst

/-- The plans that a plan depends on. -/
def dependencies (plans : List (String × Table)) (id : String) : List String :=
  match plans.find? fun plan => plan.1 == id with
  | none => []
  | some plan =>
    ((((get plan.2 "depends_on").bind Toml.iterate).getD []).filterMap Toml.asString).filter
      (planIds plans).contains

/-- `_cycle`. -/
def findCycle (plans : List (String × Table)) : Option (List String) :=
  match DepthFirst.search (dependencies plans) (planIds plans) with
  | .cycle walk => some walk
  | .visited _ | .outOfFuel => none

def cycleErrors (plans : List (String × Table)) : List String :=
  match findCycle plans with
  | some walk => ["计划依赖存在环：" ++ " -> ".intercalate walk]
  | none => []

/-- The plans in a state. -/
def inState (status : Status) (plans : List (String × Table)) : List (String × Table) :=
  plans.filter fun plan => equals (get plan.2 "status") status.key

def urgentErrors (status : Status) (head : String) (plans : List (String × Table)) : List String :=
  ((inState status plans).filter fun plan => !equals (get plan.2 "priority") "P0").map fun plan =>
    head ++ plan.1 ++ " 的优先级必须为 P0"

def windowErrors (py : Python) (maximum : ℤ) (plans : List (String × Table)) : List String :=
  let active := inState .active plans
  if maximum < active.length then
    ["活动实现超过 WIP 上限 " ++ toString maximum ++ "：" ++
      py.repr (.array (active.map fun plan => .string plan.1))]
  else []

/-! ## §6 The mirror -/

/-- A row of the table: the path, the label of the state and the priority. -/
structure Row where
  path : String
  shown : String × String
  deriving DecidableEq

def afterHead (head : String) (text : Text) : Option Text := text.dropPrefix? head.toList

/-- The first of the words that the text begins with, and the rest. -/
def oneOf (words : List String) (text : Text) : Option (String × Text) :=
  words.findSome? fun word => (afterHead word text).map fun rest => (word, rest)

/-- `ROW.match`. -/
def rowOf (line : Text) : Option Row := do
  let line ← afterHead "| [" line
  let title := line.takeWhile (· ≠ ']')
  if title = [] then none
  else do
    let line ← afterHead "](" (line.drop title.length)
    let path := line.takeWhile (· ≠ ')')
    if !endsWithMd (String.ofList path) || path.length ≤ 3 then none
    else do
      let line ← afterHead ") | " (line.drop path.length)
      let (label, line) ← oneOf (Status.all.map Status.label) line
      let line ← afterHead " | " line
      let (priority, line) ← oneOf priorities line
      let _ ← afterHead " |" line
      some ⟨String.ofList path, label, priority⟩

/-- The loop over the lines: the errors, and the rows with distinct paths. -/
def rowLoop : ℕ → List Row → List Text → List String × List Row
  | _, rows, [] => ([], rows)
  | number, rows, line :: lines =>
    match rowOf line with
    | none => rowLoop (number + 1) rows lines
    | some row =>
      if (rows.map Row.path).contains row.path then
        let (errors, rows) := rowLoop (number + 1) rows lines
        (("README.md:" ++ toString number ++ " 重复登记 " ++ row.path) :: errors, rows)
      else rowLoop (number + 1) (rows ++ [row]) lines

/-- `plan[key]`. -/
def field (fields : Table) (key : String) : Except Raised Toml :=
  match get fields key with
  | some value => .ok value
  | none => .error (.keyError key)

def planPaths (py : Python) : List (String × Table) → Except Raised (List String)
  | [] => .ok []
  | plan :: plans => do
    let path ← field plan.2 "path"
    let others ← planPaths py plans
    .ok (py.format path :: others)

/-- What the row of a plan must be. -/
def expectedRow (py : Python) (fields : Table) : Except Raised Row := do
  let path ← field fields "path"
  let status ← field fields "status"
  match Status.ofKey (py.format status) with
  | none => .error (.keyError (py.format status))
  | some status => do
    let priority ← field fields "priority"
    .ok ⟨py.format path, status.label, py.format priority⟩

/-- `rows.get(path)`. -/
def shownFor (rows : List Row) (path : String) : Option (String × String) :=
  (rows.find? fun row => row.path == path).map Row.shown

def driftErrors (py : Python) (rows : List Row) :
    List (String × Table) → Except Raised (List String)
  | [] => .ok []
  | plan :: plans => do
    let row ← expectedRow py plan.2
    let others ← driftErrors py rows plans
    let shown := shownFor rows row.path
    if shown = some row.shown then .ok others
    else
      .ok (("README.md 中 " ++ row.path ++ " 状态漂移：期望 " ++ py.quotePair row.shown ++ "，实际 " ++
        (shown.map py.quotePair).getD "None") :: others)

/-- `_validate_markdown_mirror`. -/
def mirrorErrors (py : Python) (plans : List (String × Table)) (markdown : Text) :
    Except Raised (List String) := do
  let (duplicates, rows) := rowLoop 1 [] (splitlines (universalNewlines markdown))
  let expected ← planPaths py plans
  let shown := rows.map Row.path
  let drift ← driftErrors py rows plans
  .ok (duplicates ++
    ((missingFrom expected shown).map ("README.md 缺少 registry.toml 计划镜像 " ++ ·)) ++
    ((missingFrom shown expected).map ("README.md 含有 registry.toml 未登记计划 " ++ ·)) ++ drift)

/-! ## §7 The registry -/

def schema : String := "hispark-rs/plan-registry/v1"

/-- An instance of `int`. -/
def asInt : Option Toml → Option ℤ
  | some (.int value) => some value
  | some (.bool value) => some (if value then 1 else 0)
  | _ => none

/-- The errors of the limit, and the limit. -/
def limitErrors (value : Option Toml) : List String × ℤ :=
  let error := (["max_active_implementations 必须是非负整数"], 0)
  match asInt value with
  | some maximum => if maximum < 0 then error else ([], maximum)
  | none => error

/-- The entries of an array, and the error if there is none. -/
def entriesOf (value : Option Toml) (name : String) : List String × List Toml :=
  match value with
  | some (.array entries) => ([], entries)
  | _ => ([name ++ " 必须是数组"], [])

def validateRegistry (py : Python) (repo : Repo) (data : Table) (markdown : Text) :
    Except Raised (List String) := do
  let schemaErrors :=
    if equals (get data "schema") schema then []
    else ["不支持的 schema：" ++ py.quote (get data "schema")]
  let (limit, maximum) := limitErrors (get data "max_active_implementations")
  let (evidenceArray, evidenceEntries) := entriesOf (get data "evidence") "evidence"
  let (evidence, evidenceIds) ← evidenceLoop py repo [] 0 evidenceEntries
  let (planArray, planEntries) := entriesOf (get data "plan") "plan"
  let (planErrors, paths) ← planLoop py [] [] 0 planEntries
  let plans := kept [] planEntries
  let references ← planReferences py (planIds plans) evidenceIds plans
  let mirror ← mirrorErrors py plans markdown
  .ok (schemaErrors ++ limit ++ evidenceArray ++ evidence ++ planArray ++ planErrors ++
    ((missingFrom (markdownPlans repo) paths).map (· ++ " 未登记到 registry.toml")) ++
    ((missingFrom paths (markdownPlans repo)).map ("registry.toml 登记了不存在的计划 " ++ ·)) ++
    references ++ cycleErrors plans ++ windowErrors py maximum plans ++
    urgentErrors .active "活动实现 " plans ++ urgentErrors .decisionPending "决策待定计划 " plans ++
    mirror)

end HisiRiscv.Docs.PlanRegistry
