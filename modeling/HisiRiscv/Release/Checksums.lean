/-
HisiRiscv.Release.Checksums — `verify_checksums` of `release-bundle.py` and the
text that `prepare` writes to SHA256SUMS.

Each line names a checksum and a file; every file of the directory is to be named once, with the
checksum of what it holds.

Translation notes. The argument `text` is what the file SHA256SUMS holds; the
directory may list that file or not, since its name is never accepted. `Path.is_file` is
true of `Entry.file`; a directory cannot be read and other entries may be. An exception
of the language or of the file system is a `Failure` too.

  §1 Directories.
  §2 Checksums.
  §3 Verification.
  §4 The writer.
-/
import HisiRiscv.Hil.FlashPlan
import HisiRiscv.Lib.PyText

namespace HisiRiscv.Release

open HisiRiscv.PyText

/-! ## §1 Directories -/

inductive Entry where
  | file (content : List UInt8)
  | directory
  /-- neither a file nor a directory; `none` cannot be read -/
  | special (content : Option (List UInt8))

def IsFileName (name : Text) : Prop := name ≠ [] ∧ name ≠ ['.'] ∧ name ≠ ['.', '.'] ∧ '/' ∉ name

instance (name : Text) : Decidable (IsFileName name) :=
  inferInstanceAs (Decidable (_ ∧ _ ∧ _ ∧ _))

structure Directory where
  entries : List (Text × Entry)
  distinct : (entries.map Prod.fst).Nodup
  named : ∀ entry ∈ entries, IsFileName entry.1

namespace Directory

variable (directory : Directory)

def entry (name : Text) : Option Entry :=
  (directory.entries.find? fun entry => entry.1 == name).map Prod.snd

/-- `(directory / name).read_bytes()`. -/
def read (name : Text) : Option (List UInt8) :=
  match directory.entry name with
  | some (.file content) => some content
  | some (.special content) => content
  | _ => none

def sha256sums : Text := "SHA256SUMS".toList

/-- The regular files other than SHA256SUMS, with what they hold. -/
def files : List (Text × List UInt8) :=
  directory.entries.filterMap fun entry =>
    match entry.2 with
    | .file content => if entry.1 = sha256sums then none else some (entry.1, content)
    | _ => none

end Directory

/-! ## §2 Checksums -/

def hexDigits : Text := "0123456789abcdef".toList

/-- `bytes.hex()`. -/
def hex (bytes : List UInt8) : Text :=
  bytes.flatMap fun byte =>
    [hexDigits.getD (byte.toNat / 16) '0', hexDigits.getD (byte.toNat % 16) '0']

def sha (content : List UInt8) : Text := hex (Hil.FlashPlan.sha256 content)

/-! ## §3 Verification -/

inductive Failure where
  /-- not enough values to unpack -/
  | unpack (got : ℕ)
  | badName
  | mismatch (name : Text)
  | unreadable (name : Text)
  | uncovered
  deriving DecidableEq

/-- The name and the checksum of a line. -/
def parseLine (line : Text) : Option (Text × Text) :=
  match splitOnce line with
  | [checksum, name] => some (removePrefix '*' name, checksum)
  | _ => none

/-- `Path(name).name == name` fails of a name with a slash and of the name `.`. -/
def isRefused (name : Text) : Bool :=
  name = [] || name.contains '/' || name.contains '\\' || name = ['.'] || name = ['.', '.'] ||
    name = Directory.sha256sums

/-- The loop over the lines. -/
def verifyLoop (directory : Directory) :
    List Text → List (Text × Text) → Except Failure (List (Text × Text))
  | [], hashes => .ok hashes
  | line :: lines, hashes =>
    match parseLine line with
    | none => .error (.unpack (splitOnce line).length)
    | some (name, checksum) =>
      if isRefused name || (hashes.map Prod.fst).contains name then .error .badName
      else if checksum.length ≠ 64 then .error (.mismatch name)
      else
        match directory.read name with
        | none => .error (.unreadable name)
        | some content =>
          if sha content ≠ checksum then .error (.mismatch name)
          else verifyLoop directory lines (hashes ++ [(name, checksum)])

/-- The two lists have the same members. -/
def sameSet (names names' : List Text) : Bool :=
  names.all names'.contains && names'.all names.contains

def verifyChecksums (directory : Directory) (text : Text) (expected : Option (List Text)) :
    Except Failure (List (Text × Text)) := do
  let hashes ← verifyLoop directory (splitlines (universalNewlines text)) []
  let actual := directory.files.map Prod.fst
  if hashes = [] ∨ ¬ sameSet (hashes.map Prod.fst) actual ∨
      ¬ expected.all (fun names => sameSet actual names) then
    .error .uncovered
  else .ok hashes

/-! ## §4 The writer -/

/-- The text that `prepare` writes. -/
def manifestText (files : List (Text × List UInt8)) : Text :=
  files.flatMap fun file => sha file.2 ++ "  ".toList ++ file.1 ++ "\n".toList

end HisiRiscv.Release
