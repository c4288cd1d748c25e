/-
HisiRiscv.Docs.Site — the versioned documentation site: `assemble-docs-site.py` and the
manifest and index checks of `check-versioned-docs.py`.

A run copies a book to the directory of its version, merges the manifest of the repository
into the one of the site, and copies the book to `latest/` where the version is the latest
one.

Translation notes. A string is a list of characters. `versions.json` is a file that holds
the manifest itself: `json.loads` reads what `json.dumps` wrote. A run that raises an
exception has no result. The `\d` of a pattern is any decimal digit of Unicode; which characters
those are depends on the version of Python, so `decimal` is a parameter. The checker's
tests of the API documentation and of HTML text are left out.

  §1 Names and patterns.
  §2 The manifest.
  §3 The merge.
  §4 A run.
  §5 The checker.
  §6 Histories.
-/
import HisiRiscv.Lib.FileTree
import HisiRiscv.Lib.OrderedDict
import HisiRiscv.Lib.PyText

namespace HisiRiscv.Docs.Site

open HisiRiscv.FileTree
open HisiRiscv.PyText (Text afterChar)

/-! ## §1 Names and patterns -/

/-- The components of a relative path. -/
def parts (text : Text) : List Text :=
  (text.splitOn '/').filter fun part => part ≠ [] && part ≠ ['.']

/-- A relative path that means itself. Every branch name is one: it has no empty component
and none that begins with a dot. So is every name of the release pattern: it is one component. -/
def IsName (text : Text) : Prop :=
  ∀ part ∈ text.splitOn '/', part ≠ [] ∧ part ≠ ['.'] ∧ part ≠ ['.', '.']

instance (text : Text) : Decidable (IsName text) :=
  inferInstanceAs (Decidable (∀ part ∈ text.splitOn '/', _))

section Patterns

variable (decimal : Char → Bool)

/-- The rest after `\d+`. -/
def afterNumber (text : Text) : Option Text :=
  if text.takeWhile decimal = [] then none else some (text.dropWhile decimal)

/-- The rest after `v\d+\.\d+\.\d+`. -/
def afterCore (text : Text) : Option Text := do
  let text ← afterChar 'v' text
  let text ← afterNumber decimal text
  let text ← afterChar '.' text
  let text ← afterNumber decimal text
  let text ← afterChar '.' text
  afterNumber decimal text

/-- `re.match(r"^v\d+\.\d+\.\d+", version)`. -/
def hasReleasePrefix (version : Text) : Bool := (afterCore decimal version).isSome

/-- `$`, which also matches before a last newline. -/
def atEnd (text : Text) : Bool := text = [] || text = ['\n']

def isSuffixChar (c : Char) : Bool := c.isAlphanum || c = '.' || c = '-'

/-- `(?:[-+][0-9A-Za-z.-]+)?$`. -/
def isSuffix : Text → Bool
  | [] => true
  | c :: text => atEnd (c :: text) ||
    (c = '-' || c = '+') && text.takeWhile isSuffixChar ≠ [] && atEnd (text.dropWhile isSuffixChar)

/-- `SEMVER_RE.match(version)`. -/
def isSemver (version : Text) : Bool := (afterCore decimal version).any isSuffix

end Patterns

/-! ## §2 The manifest -/

inductive Kind where
  | alias
  | branch
  | release
  deriving DecidableEq

structure Entry where
  id : Text
  label : Text
  kind : Kind
  target : Option Text
  bookBase : Text
  apiBase : Text

structure Manifest where
  default : Text
  latest : Text
  versions : List Entry

namespace Manifest

def ids (data : Manifest) : List Text := data.versions.map Entry.id

end Manifest

def main : Text := "main".toList

def latest : Text := "latest".toList

def indexHtml : Text := "index.html".toList

def versionsJson : Text := "versions.json".toList

/-- `docs/versions.json` of the repository. -/
def source : Manifest where
  default := latest
  latest := main
  versions :=
    [⟨latest, "Latest".toList, .alias, some main, "/hisi-riscv-rs/latest/".toList,
        "/hisi-riscv-rs/api/latest/".toList⟩,
      ⟨main, main, .branch, none, "/hisi-riscv-rs/main/".toList,
        "/hisi-riscv-rs/api/main/".toList⟩]

/-- What a file holds: the bytes of a book's file, a page, or a manifest. -/
inductive Content where
  | bytes (data : List UInt8)
  | page (text : Text)
  | manifest (data : Manifest)

abbrev Files : Type := Tree Text Content

/-! ## §3 The merge -/

/-- `version_exists`. -/
def versionExists (site : Files) (versionId currentVersion : Text) : Bool :=
  versionId = currentVersion || present site (parts versionId ++ [indexHtml])

/-- `load_manifest`; the default and the latest version of the site's manifest are kept. -/
def loadManifest (site : Files) : Option Manifest :=
  match site [versionsJson] with
  | none => some source
  | some (.file (.manifest existing)) =>
    let byId := source.versions.foldl (OrderedDict.insert Entry.id)
      (OrderedDict.ofList Entry.id existing.versions)
    some { existing with versions := byId }
  | some _ => none

section Merge

variable (decimal : Char → Bool)

def newEntry (version : Text) : Entry where
  id := version
  label := version
  kind := if hasReleasePrefix decimal version then .release else .branch
  target := none
  bookBase := "/hisi-riscv-rs/".toList ++ version ++ "/".toList
  apiBase := "/hisi-riscv-rs/api/".toList ++ version ++ "/".toList

def addVersion (version : Text) (versions : List Entry) : List Entry :=
  if version ∈ versions.map Entry.id then versions else versions ++ [newEntry decimal version]

def setTarget (target : Text) (versions : List Entry) : List Entry :=
  versions.map fun entry =>
    if entry.id = latest then { entry with target := some target } else entry

def dropMissing (site : Files) (version : Text) (versions : List Entry) : List Entry :=
  versions.filter fun entry => entry.id = latest || versionExists site entry.id version

/-- The part of `main` between reading the manifest and writing it. -/
def updateManifest (site : Files) (version latestVersion : Text) (data : Manifest) : Manifest :=
  let versions := dropMissing site version
    (setTarget latestVersion (addVersion decimal version data.versions))
  if latestVersion ∈ versions.map Entry.id then ⟨data.default, latestVersion, versions⟩
  else ⟨data.default, version, setTarget version versions⟩

end Merge

/-! ## §4 A run -/

/-- A book: a directory with an index. -/
structure Book where
  files : Files
  directory : files [] = some .directory
  index : (files [indexHtml]).isSome

structure Run where
  version : Text
  version_isName : IsName version
  latestVersion : Option Text
  book : Book

/-- `args.latest_version or version`. -/
def Run.requested (run : Run) : Text :=
  match run.latestVersion with
  | none => run.version
  | some [] => run.version
  | some latestVersion => latestVersion

def redirect (target : Text) : Text :=
  "<!doctype html><meta http-equiv=\"refresh\" content=\"0; url=".toList ++ target ++
    "\">\n".toList

/-- Writes `latest/`, given the recorded latest version. -/
def writeLatest (run : Run) (latestVersion : Text) (site : Files) : Option Files :=
  if run.version = latestVersion then copyTree run.book.files [latest] site
  else if present site [latest] then some site
  else do
    let site ← copyTree emptyDirectory [latest] site
    writeFile [latest, indexHtml] (.page (redirect ("../".toList ++ latestVersion ++ "/".toList)))
      site

/-- `main` of `assemble-docs-site.py`. -/
def assemble (decimal : Char → Bool) (site : Files) (run : Run) : Option Files := do
  let site ← copyTree run.book.files (parts run.version) site
  let data ← loadManifest site
  let data := updateManifest decimal site run.version run.requested data
  let site ← writeFile [versionsJson] (.manifest data) site
  let site ← writeFile [indexHtml] (.page (redirect "latest/".toList)) site
  writeLatest run data.latest site

/-! ## §5 The checker -/

/-- The checks of one entry. -/
def entryErrors (decimal : Char → Bool) (ids : List Text) (entry : Entry) : List Text :=
  (if entry.kind = .release ∧ ¬ isSemver decimal entry.id then
      [entry.id ++ ": release ids must look like vX.Y.Z".toList] else []) ++
    (if entry.bookBase.head? = some '/' then []
      else [entry.id ++ ": book_base must be an absolute site path".toList]) ++
    (if entry.apiBase.head? = some '/' then []
      else [entry.id ++ ": api_base must be an absolute site path".toList]) ++
    (if entry.kind = .alias ∧ ¬ entry.target.any (· ∈ ids) then
      [entry.id ++ ": alias target is not listed".toList] else [])

def manifestErrors (decimal : Char → Bool) (data : Manifest) : List Text :=
  (if data.versions = [] then
      ["docs/versions.json must contain a non-empty versions list".toList] else []) ++
    (if data.default ∈ data.ids then []
      else ["default version is not listed: ".toList ++ data.default]) ++
    (if data.latest ∈ data.ids then []
      else ["latest target is not listed: ".toList ++ data.latest]) ++
    data.versions.flatMap (entryErrors decimal data.ids)

/-- The checks of the root, of each version's directory and of `main/`, for a site in
the directory `site`. -/
def indexErrors (files : Files) (data : Manifest) : List Text :=
  (if present files [indexHtml] then [] else ["site: missing root index.html".toList]) ++
    (if present files [versionsJson] then [] else ["site: missing versions.json".toList]) ++
    (data.ids.filter fun id => id ≠ latest ∧
        ¬ present files (parts id ++ [indexHtml])).map (fun id =>
      "site: missing ".toList ++ id ++ "/index.html".toList) ++
    (if present files [main] ∧ ¬ present files [main, indexHtml] then
      ["site: main/ exists but has no index.html".toList] else [])

/-! ## §6 Histories -/

/-- The book of the most recent run of a version. -/
def lastBook (runs : List Run) (version : Text) : Option Book :=
  (runs.reverse.find? fun run => run.version = version).map Run.book

/-- The content of `latest/` is that of the version's directory, or it redirects there. -/
def Leads (site : Files) (version : Text) : Prop :=
  below [latest] site = below (parts version) site ∨
    site [latest, indexHtml] =
      some (.file (.page (redirect ("../".toList ++ version ++ "/".toList))))

/-- What the site is to be after some runs. -/
structure Consistent (decimal : Char → Bool) (runs : List Run) (site : Files) (data : Manifest) :
    Prop where
  stored : site [versionsJson] = some (.file (.manifest data))
  manifest_ok : manifestErrors decimal data = []
  index_ok : indexErrors site data = []
  unique : data.ids.Nodup
  listed : ∀ version book, lastBook runs version = some book →
    version ∈ data.ids ∧ below (parts version) site = book.files
  latest : (lastBook runs data.latest).isSome ∧ Leads site data.latest

/-- The versions that the site lists, without the alias. -/
def deployed (site : Files) : List Text :=
  match site [versionsJson] with
  | some (.file (.manifest data)) => data.ids.filter (· ≠ latest)
  | _ => []

/-- The directory of a version is not one that the site itself uses, nor inside one, nor inside
that of the main branch. -/
def Unreserved (version : Text) : Prop :=
  (∀ name ∈ [latest, versionsJson, indexHtml], ¬ [name] <+: parts version) ∧
    ([main] <+: parts version → version = main)

/-- A version made the latest one is the run's own, or is not deployed, or `latest/` leads to it
already. -/
def SafeLatest (site : Files) (run : Run) : Prop :=
  run.requested ≠ latest ∧ (run.requested = run.version ∨ run.requested ∉ deployed site ∨
    Leads site run.requested)

/-- The condition on the name of a run's version, in the state of the site before it. -/
structure SafeName (decimal : Char → Bool) (site : Files) (run : Run) : Prop where
  unreserved : Unreserved run.version
  /-- the version's directory is not inside another version's, nor around it -/
  apart : ∀ version ∈ deployed site,
    parts version <+: parts run.version ∨ parts run.version <+: parts version →
      version = run.version
  /-- a name that begins like a release is a release -/
  release : hasReleasePrefix decimal run.version = true → isSemver decimal run.version = true

def Safe (decimal : Char → Bool) (site : Files) (run : Run) : Prop :=
  SafeName decimal site run ∧ SafeLatest site run

end HisiRiscv.Docs.Site
