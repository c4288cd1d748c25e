/-
HisiRiscv.Hil.Session — a measurement of several boots, and its reanalysis.

`main` of `ws63-connectivity-reset-matrix.py` writes the logs of run `n` to
`run-NN.uart.log` and `run-NN.peer.uart.log`; with `--analyze-dir` it reads such a
directory, numbers the logs in the order of their names, and draws up the same
records from them.

Translation notes. The captured logs are the input, `captureRun` says what they can
be. A directory is what it holds under each name; its listing has no particular
order. Names compare by code points. Of the other files of a session the contents
do not matter.

  §1 Names and directories.
  §2 The session.
  §3 The reanalysis.
  §4 The outcome.
-/
import Mathlib.Data.Char
import Mathlib.Data.List.Lex
import Mathlib.Data.List.Sort
import Mathlib.Logic.Function.Basic
import HisiRiscv.Hil.Capture

namespace HisiRiscv.Hil

/-! ## §1 Names and directories -/

/-- `{run:02d}`. -/
def twoDigits (run : ℕ) : List Char := List.leftpad 2 '0' (Nat.toDigits 10 run)

def runPrefix : List Char := "run-".toList

def uartLogSuffix : List Char := ".uart.log".toList

def peerUartLogSuffix : List Char := ".peer.uart.log".toList

def uartLogName (run : ℕ) : FileName := runPrefix ++ twoDigits run ++ uartLogSuffix

def peerUartLogName (run : ℕ) : FileName := runPrefix ++ twoDigits run ++ peerUartLogSuffix

def summaryName : FileName := "summary.json".toList

def referencePingName : FileName := "reference-ping.log".toList

/-- What lies under each name. -/
abbrev Files : Type := FileName → Option Bytes

/-- A directory can be listed, in any order. -/
structure Directory where
  files : Files
  listing : List FileName
  nodup : listing.Nodup
  mem_listing : ∀ name, name ∈ listing ↔ (files name).isSome

/-! ## §2 The session -/

section Session

variable {V : Type} (p : Parsers V) (b : Bench)

/-- The logs of one run are written. -/
def writeLogs (run : ℕ) (captured : Captured) (files : Files) : Files :=
  let files := Function.update files (uartLogName run) (some captured.log)
  if b.peerPort then Function.update files (peerUartLogName run) (some captured.peerLog) else files

/-- The files and the records of the runs from `run` on. -/
def liveLoop (run : ℕ) (captures : List Captured) (files : Files) : Files × List (Record V) :=
  match captures with
  | [] => (files, [])
  | captured :: captures =>
    let record := captured.record p b run (uartLogName run) (peerUartLogName run)
    let rest := liveLoop (run + 1) captures (writeLogs b run captured files)
    (rest.1, record :: rest.2)

/-- An empty directory, but for the log of the reference ping if there is one. -/
def initialFiles (referencePing : Option Bytes) : Files :=
  Function.update (fun _ => none) referencePingName referencePing

/-- What the session leaves on the disk. -/
def liveFiles (captures : List Captured) (referencePing : Option Bytes) (summary : Bytes) : Files :=
  Function.update (liveLoop p b 1 captures (initialFiles referencePing)).1 summaryName
    (some summary)

def liveRecords (captures : List Captured) (referencePing : Option Bytes) : List (Record V) :=
  (liveLoop p b 1 captures (initialFiles referencePing)).2

end Session

/-! ## §3 The reanalysis -/

/-- `directory.glob("run-*.uart.log")`. -/
def globRunLogs (name : FileName) : Bool :=
  runPrefix.isPrefixOf name && uartLogSuffix.isSuffixOf name &&
    runPrefix.length + uartLogSuffix.length ≤ name.length

def measuredUartLogs (directory : Directory) : List FileName :=
  (directory.listing.filter fun name =>
    globRunLogs name && !decide (peerUartLogSuffix <:+: name)).mergeSort fun a b => decide (a ≤ b)

/-- `str.replace`, from the left; `skip` characters belong to an occurrence that has been
replaced. -/
def replaceFrom (old new : List Char) : ℕ → List Char → List Char
  | _, [] => []
  | 0, c :: cs =>
    if old <+: c :: cs then new ++ replaceFrom old new (old.length - 1) cs
    else c :: replaceFrom old new 0 cs
  | skip + 1, _ :: cs => replaceFrom old new skip cs

def peerName (name : FileName) : FileName := replaceFrom uartLogSuffix peerUartLogSuffix 0 name

section Analyze

variable {V : Type} (p : Parsers V) (o : Options) (files : Files)

/-- The records of the logs from number `run` on. -/
def analyzeLoop (run : ℕ) (logs : List FileName) : List (Record V) :=
  match logs with
  | [] => []
  | log :: logs =>
    let peerLog := files (peerName log)
    let record := recordFromLog p o run ((files log).getD []) log [] peerLog
      (if peerLog.isSome then some (peerName log) else none)
    record :: analyzeLoop (run + 1) logs

/-- `none` if there is nothing to analyze. -/
def analyzeDir (directory : Directory) : Option (List (Record V)) :=
  let sourceLogs := measuredUartLogs directory
  if sourceLogs.isEmpty then none else some (analyzeLoop p o directory.files 1 sourceLogs)

end Analyze

/-! ## §4 The outcome -/

section Outcome

variable {V : Type}

/-- `summary["counts"]`. -/
def counts (records : List (Record V)) (result : Result) : ℕ :=
  records.countP fun record => record.result = result

/-- The session compares with `args.runs`, the reanalysis with `len(records)`. -/
def exitCode (records : List (Record V)) (runs : ℕ) : ℕ :=
  if counts records .pass = runs then 0 else 1

/-- All of a record but the seconds of its markers. -/
def Record.untimed (record : Record V) : Record V := { record with markerSeconds := [] }

end Outcome

end HisiRiscv.Hil
