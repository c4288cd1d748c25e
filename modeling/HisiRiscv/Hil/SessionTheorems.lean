/-
HisiRiscv.Hil.SessionTheorems — a reanalysis repeats the session, up to 99 runs.

The reanalysis numbers the logs in the order of their names. Names with two digits
are in the order of the runs; with three, `run-100` stands between `run-10` and
`run-11`, and from there on every log gets another number (`reanalysis_agrees_iff`).

  §1 Names.
  §2 What the session leaves.
  §3 The order of the logs.
  §4 Main result.
-/
import HisiRiscv.Hil.CaptureTheorems
import HisiRiscv.Hil.Session

namespace HisiRiscv.Hil

/-! ## §1 Names -/

section Names

variable {run run' : ℕ}

theorem isDigit_of_mem_twoDigits {c : Char} (h : c ∈ twoDigits run) : c.isDigit = true := by
  obtain hpad | hdigit := List.mem_append.mp h
  · obtain rfl := List.eq_of_mem_replicate hpad
    decide
  · exact Nat.isDigit_of_mem_toDigits (by decide) (by decide) hdigit

theorem ofDigitChars_twoDigits (run : ℕ) : Nat.ofDigitChars 10 (twoDigits run) 0 = run := by
  have hpad : ∀ n, Nat.ofDigitChars 10 (List.replicate n '0' ++ Nat.toDigits 10 run) 0 = run := by
    intro n
    induction n with
    | zero => exact Nat.ofDigitChars_ten_toDigits
    | succ n ih => exact ih
  exact hpad _

theorem uartLogName_inj (h : uartLogName run = uartLogName run') : run = run' := by
  have hdigits : twoDigits run = twoDigits run' :=
    List.append_cancel_left (List.append_cancel_right h)
  rw [← ofDigitChars_twoDigits run, hdigits, ofDigitChars_twoDigits]

theorem peerUartLogName_inj (h : peerUartLogName run = peerUartLogName run') : run = run' := by
  have hdigits : twoDigits run = twoDigits run' :=
    List.append_cancel_left (List.append_cancel_right h)
  rw [← ofDigitChars_twoDigits run, hdigits, ofDigitChars_twoDigits]

/-- The names of a target's logs have no `p`. -/
theorem not_mem_uartLogName : 'p' ∉ uartLogName run := by
  intro h
  obtain hfront | hsuffix := List.mem_append.mp h
  · obtain hprefix | hdigit := List.mem_append.mp hfront
    · revert hprefix
      decide
    · exact absurd (isDigit_of_mem_twoDigits hdigit) (by decide)
  · revert hsuffix
    decide

theorem mem_peerUartLogName : 'p' ∈ peerUartLogName run := by
  apply List.mem_append_right
  decide

theorem uartLogName_ne_peerUartLogName : uartLogName run ≠ peerUartLogName run' := by
  intro h
  exact not_mem_uartLogName (h ▸ mem_peerUartLogName)

theorem globRunLogs_uartLogName : globRunLogs (uartLogName run) = true := by
  have hprefix : runPrefix <+: uartLogName run := by
    rw [uartLogName, List.append_assoc]
    exact List.prefix_append _ _
  have hsuffix : uartLogSuffix <:+ uartLogName run := List.suffix_append _ _
  have hlen : runPrefix.length + uartLogSuffix.length ≤ (uartLogName run).length := by
    simp only [uartLogName, List.length_append]
    omega
  simp [globRunLogs, hprefix, hsuffix, hlen]

theorem not_peer_uartLogName : ¬ peerUartLogSuffix <:+: uartLogName run := by
  intro h
  have hmem : 'p' ∈ peerUartLogSuffix := by decide
  exact not_mem_uartLogName (h.subset hmem)

theorem peer_peerUartLogName : peerUartLogSuffix <:+: peerUartLogName run :=
  (List.suffix_append _ _).isInfix

/-- Nothing is replaced before the first full stop. -/
theorem replaceFrom_append {old new : List Char} {xs ys : List Char} (hxs : '.' ∉ xs) :
    replaceFrom ('.' :: old) new 0 (xs ++ ys) = xs ++ replaceFrom ('.' :: old) new 0 ys := by
  induction xs with
  | nil => rfl
  | cons x xs ih =>
    have hrest : '.' ∉ xs := fun hmem => hxs (List.mem_cons_of_mem x hmem)
    have hpre : ¬ '.' :: old <+: x :: (xs ++ ys) := by
      intro hpre
      exact hxs ((List.cons_prefix_cons.mp hpre).1 ▸ List.mem_cons_self)
    rw [List.cons_append, replaceFrom, if_neg hpre, ih hrest, List.cons_append]

theorem peerName_uartLogName : peerName (uartLogName run) = peerUartLogName run := by
  have hfront : '.' ∉ runPrefix ++ twoDigits run := by
    intro h
    obtain hprefix | hdigit := List.mem_append.mp h
    · revert hprefix
      decide
    · exact absurd (isDigit_of_mem_twoDigits hdigit) (by decide)
  have hsuffix : replaceFrom uartLogSuffix peerUartLogSuffix 0 uartLogSuffix = peerUartLogSuffix := by
    decide
  exact (replaceFrom_append hfront).trans (congrArg _ hsuffix)

end Names

/-! ## §2 What the session leaves -/

section Live

variable {V : Type} {p : Parsers V} {b : Bench} {name : FileName} {run : ℕ} {captured : Captured}
  {captures : List Captured} {files : Files}

theorem writeLogs_uart :
    writeLogs b run captured files (uartLogName run) = some captured.log := by
  unfold writeLogs
  split
  · rw [Function.update_of_ne uartLogName_ne_peerUartLogName, Function.update_self]
  · rw [Function.update_self]

theorem writeLogs_peer : writeLogs b run captured files (peerUartLogName run) =
    if b.peerPort then some captured.peerLog else files (peerUartLogName run) := by
  unfold writeLogs
  split
  · rw [Function.update_self]
  · rw [Function.update_of_ne uartLogName_ne_peerUartLogName.symm]

theorem writeLogs_of_ne (huart : name ≠ uartLogName run) (hpeer : name ≠ peerUartLogName run) :
    writeLogs b run captured files name = files name := by
  unfold writeLogs
  split
  · rw [Function.update_of_ne hpeer, Function.update_of_ne huart]
  · rw [Function.update_of_ne huart]

theorem writeLogs_isSome : (writeLogs b run captured files name).isSome ↔ (files name).isSome ∨
    (name = uartLogName run ∨ b.peerPort = true ∧ name = peerUartLogName run) := by
  unfold writeLogs
  split
  · rename_i hport
    simp only [Function.update_apply, hport, true_and]
    split_ifs <;> simp [*]
  · rename_i hport
    simp only [Function.update_apply]
    split_ifs <;> simp [*]

/-- A name that belongs to no later run. -/
theorem liveLoop_frame (huart : ∀ k, run ≤ k → name ≠ uartLogName k)
    (hpeer : ∀ k, run ≤ k → name ≠ peerUartLogName k) :
    (liveLoop p b run captures files).1 name = files name := by
  induction captures generalizing run files with
  | nil => rfl
  | cons captured captures ih =>
    rw [liveLoop]
    have hlater : ∀ k, run + 1 ≤ k → run ≤ k := fun k hk => by omega
    refine (ih (fun k hk => huart k (hlater k hk)) fun k hk => hpeer k (hlater k hk)).trans ?_
    exact writeLogs_of_ne (huart run le_rfl) (hpeer run le_rfl)

theorem liveLoop_frame_uart :
    (liveLoop p b (run + 1) captures files).1 (uartLogName run) = files (uartLogName run) := by
  apply liveLoop_frame
  · intro k hk h
    have hrun := uartLogName_inj h
    omega
  · intro k _
    exact uartLogName_ne_peerUartLogName

theorem liveLoop_frame_peer :
    (liveLoop p b (run + 1) captures files).1 (peerUartLogName run) =
      files (peerUartLogName run) := by
  apply liveLoop_frame
  · intro k _
    exact uartLogName_ne_peerUartLogName.symm
  · intro k hk h
    have hrun := peerUartLogName_inj h
    omega

/-- The logs of the runs from `run` on lie under their names. -/
def Holds (b : Bench) (files : Files) : ℕ → List Captured → Prop
  | _, [] => True
  | run, captured :: captures =>
    files (uartLogName run) = some captured.log ∧
      files (peerUartLogName run) = (if b.peerPort then some captured.peerLog else none) ∧
      Holds b files (run + 1) captures

theorem holds_liveLoop (hfree : ∀ k, run ≤ k → files (peerUartLogName k) = none) :
    Holds b (liveLoop p b run captures files).1 run captures := by
  induction captures generalizing run files with
  | nil => trivial
  | cons captured captures ih =>
    rw [liveLoop]
    refine ⟨?_, ?_, ih ?_⟩
    · exact liveLoop_frame_uart.trans writeLogs_uart
    · refine liveLoop_frame_peer.trans (writeLogs_peer.trans ?_)
      rw [hfree run le_rfl]
    · intro k hk
      refine (writeLogs_of_ne uartLogName_ne_peerUartLogName.symm ?_).trans (hfree k (by omega))
      intro h
      have hrun := peerUartLogName_inj h
      omega

/-- The files of the loop: those from before and the logs. -/
theorem liveLoop_isSome : ((liveLoop p b run captures files).1 name).isSome ↔
    (files name).isSome ∨ ∃ k, run ≤ k ∧ k < run + captures.length ∧
      (name = uartLogName k ∨ b.peerPort = true ∧ name = peerUartLogName k) := by
  induction captures generalizing run files with
  | nil =>
    simp only [liveLoop, List.length_nil, Nat.add_zero, iff_self_or]
    rintro ⟨k, hk, hlt, -⟩
    omega
  | cons captured captures ih =>
    rw [liveLoop]
    refine ih.trans ?_
    rw [writeLogs_isSome, or_assoc]
    apply or_congr_right
    constructor
    · rintro (h | ⟨k, hk, hlt, h⟩)
      · exact ⟨run, le_rfl, by simp, h⟩
      · exact ⟨k, by omega, by rw [List.length_cons]; omega, h⟩
    · rintro ⟨k, hk, hlt, h⟩
      rw [List.length_cons] at hlt
      obtain rfl | hne := eq_or_ne k run
      · exact .inl h
      · exact .inr ⟨k, by omega, by omega, h⟩

variable {referencePing : Option Bytes} {summary : Bytes}

theorem uartLogName_ne (hname : ¬ runPrefix <+: name) : name ≠ uartLogName run := by
  rintro rfl
  apply hname
  rw [uartLogName, List.append_assoc]
  exact List.prefix_append _ _

theorem peerUartLogName_ne (hname : ¬ runPrefix <+: name) : name ≠ peerUartLogName run := by
  rintro rfl
  apply hname
  rw [peerUartLogName, List.append_assoc]
  exact List.prefix_append _ _

theorem initialFiles_peer : initialFiles referencePing (peerUartLogName run) = none :=
  Function.update_of_ne (peerUartLogName_ne (by decide)).symm _ _

theorem Holds.update_summary (h : Holds b files run captures) :
    Holds b (Function.update files summaryName (some summary)) run captures := by
  induction captures generalizing run with
  | nil => trivial
  | cons captured captures ih =>
    obtain ⟨hlog, hpeer, hrest⟩ := h
    refine ⟨?_, ?_, ih hrest⟩
    · rwa [Function.update_of_ne (uartLogName_ne (by decide)).symm]
    · rwa [Function.update_of_ne (peerUartLogName_ne (by decide)).symm]

theorem holds_liveFiles :
    Holds b (liveFiles p b captures referencePing summary) 1 captures :=
  (holds_liveLoop fun _ _ => initialFiles_peer).update_summary

/-- What a session leaves under a name: the logs of the runs, the summary, and maybe the
reference ping. -/
theorem liveFiles_isSome : (liveFiles p b captures referencePing summary name).isSome ↔
    name = summaryName ∨ (name = referencePingName ∧ referencePing.isSome) ∨
      ∃ k, 1 ≤ k ∧ k < 1 + captures.length ∧
        (name = uartLogName k ∨ b.peerPort = true ∧ name = peerUartLogName k) := by
  unfold liveFiles
  rw [Function.update_apply]
  split
  · rename_i hname
    simp [hname]
  · rename_i hsummary
    rw [liveLoop_isSome, initialFiles, Function.update_apply]
    split
    · rename_i hping
      have hne : referencePingName ≠ summaryName := by decide
      simp [hping, hne]
    · rename_i hping
      simp [hsummary, hping]

end Live

/-! ## §3 The order of the logs -/

section Order

variable {V : Type} {p : Parsers V} {b : Bench} {captures : List Captured}
  {referencePing : Option Bytes} {summary : Bytes} {directory : Directory}

/-- The names of the logs in the order of the runs. -/
def uartLogNames (runs : ℕ) : List FileName := (List.range' 1 runs).map uartLogName

theorem uartLogNames_nodup (runs : ℕ) : (uartLogNames runs).Nodup :=
  List.Nodup.map (fun _ _ => uartLogName_inj) List.nodup_range'

theorem measuredUartLogs_sorted : (measuredUartLogs directory).Pairwise (· ≤ ·) := by
  have htrans : ∀ a b c : FileName, decide (a ≤ b) = true → decide (b ≤ c) = true →
      decide (a ≤ c) = true := by
    simp only [decide_eq_true_eq]
    exact fun _ _ _ => le_trans
  have htotal : ∀ a b : FileName, (decide (a ≤ b) || decide (b ≤ a)) = true := by
    simp only [Bool.or_eq_true, decide_eq_true_eq]
    exact le_total
  exact (List.pairwise_mergeSort htrans htotal _).imp of_decide_eq_true

/-- The reanalysis takes the logs of the targets, whatever else there is. -/
theorem measuredUartLogs_perm
    (hfiles : directory.files = liveFiles p b captures referencePing summary) :
    (measuredUartLogs directory).Perm (uartLogNames captures.length) := by
  refine (List.mergeSort_perm _ _).trans ?_
  rw [List.perm_ext_iff_of_nodup (directory.nodup.filter _) (uartLogNames_nodup _)]
  intro name
  simp only [List.mem_filter, directory.mem_listing, hfiles, liveFiles_isSome, uartLogNames,
    List.mem_map, List.mem_range'_1, Bool.and_eq_true, Bool.not_eq_true', decide_eq_false_iff_not]
  constructor
  · rintro ⟨rfl | ⟨rfl, -⟩ | ⟨k, hk, hlt, rfl | ⟨-, rfl⟩⟩, hglob, hpeer⟩
    · exact absurd hglob (by decide)
    · exact absurd hglob (by decide)
    · exact ⟨k, ⟨hk, hlt⟩, rfl⟩
    · exact absurd peer_peerUartLogName hpeer
  · rintro ⟨k, ⟨hk, hlt⟩, rfl⟩
    exact ⟨.inr (.inr ⟨k, hk, hlt, .inl rfl⟩), globRunLogs_uartLogName, not_peer_uartLogName⟩

theorem uartLogNames_sorted : (uartLogNames 99).Pairwise (· ≤ ·) := by
  rw [← List.isChain_iff_pairwise]
  decide +kernel

/-- Up to 99 runs the order of the names is that of the runs. -/
theorem measuredUartLogs_eq
    (hfiles : directory.files = liveFiles p b captures referencePing summary)
    (hruns : captures.length ≤ 99) :
    measuredUartLogs directory = uartLogNames captures.length := by
  have hprefix : uartLogNames captures.length <+: uartLogNames 99 := by
    have hrange : List.range' 1 captures.length ++
        List.range' (1 + captures.length) (99 - captures.length) =
          List.range' 1 (captures.length + (99 - captures.length)) := List.range'_append_1
    rw [Nat.add_sub_cancel' hruns] at hrange
    have hrangePrefix : List.range' 1 captures.length <+: List.range' 1 99 := ⟨_, hrange⟩
    exact hrangePrefix.map _
  exact (measuredUartLogs_perm hfiles).eq_of_pairwise (fun _ _ _ _ => le_antisymm)
    measuredUartLogs_sorted (uartLogNames_sorted.sublist hprefix.sublist)

/-- From 100 runs on it is not. -/
theorem measuredUartLogs_ne (hruns : 99 < captures.length) :
    measuredUartLogs directory ≠ uartLogNames captures.length := by
  intro heq
  have hsorted : (uartLogNames captures.length).Pairwise (· ≤ ·) := heq ▸ measuredUartLogs_sorted
  have hle : uartLogName 11 ≤ uartLogName 100 := by
    have hlen : (uartLogNames captures.length).length = captures.length := by simp [uartLogNames]
    have hpair := List.pairwise_iff_getElem.mp hsorted 10 99 (by omega) (by omega) (by decide)
    simpa [uartLogNames] using hpair
  revert hle
  decide

end Order

/-! ## §4 Main result -/

section Agree

variable {V : Type} {p : Parsers V} {b : Bench} {captures : List Captured}
  {referencePing : Option Bytes} {summary : Bytes} {directory : Directory}

/-- The reanalysis gives the records of the session, but for the seconds of the markers, and
so the same counts and the same exit code. -/
structure Agrees (p : Parsers V) (b : Bench) (captures : List Captured)
    (referencePing : Option Bytes) (directory : Directory) : Prop where
  records : (analyzeDir p b.options directory).map (List.map Record.untimed) =
    some ((liveRecords p b captures referencePing).map Record.untimed)
  counts : (analyzeDir p b.options directory).map counts =
    some (counts (liveRecords p b captures referencePing))
  exitCode : (analyzeDir p b.options directory).map (fun records => exitCode records records.length) =
    some (exitCode (liveRecords p b captures referencePing) captures.length)

theorem counts_untimed (records : List (Record V)) :
    counts (records.map Record.untimed) = counts records := by
  funext result
  simp only [counts, List.countP_map]
  rfl

theorem length_liveLoop {run : ℕ} {files : Files} :
    (liveLoop p b run captures files).2.length = captures.length := by
  induction captures generalizing run files with
  | nil => rfl
  | cons captured captures ih => simp [liveLoop, ih]

theorem liveLoop_logs {run : ℕ} {files : Files} :
    (liveLoop p b run captures files).2.map Record.log =
      (List.range' run captures.length).map uartLogName := by
  induction captures generalizing run files with
  | nil => rfl
  | cons captured captures ih =>
    rw [liveLoop, List.map_cons, ih, List.length_cons, List.range'_succ, List.map_cons]
    rfl

theorem analyzeLoop_logs {o : Options} {files : Files} {run : ℕ} {logs : List FileName} :
    (analyzeLoop p o files run logs).map Record.log = logs := by
  induction logs generalizing run with
  | nil => rfl
  | cons log logs ih =>
    rw [analyzeLoop, List.map_cons, ih]
    rfl

/-- The logs in the order of the runs give the session's records. -/
theorem analyzeLoop_untimed {files files' : Files} {run : ℕ} (h : Holds b files run captures) :
    (analyzeLoop p b.options files run
        ((List.range' run captures.length).map uartLogName)).map Record.untimed =
      (liveLoop p b run captures files').2.map Record.untimed := by
  induction captures generalizing run files' with
  | nil => rfl
  | cons captured captures ih =>
    obtain ⟨hlog, hpeer, hrest⟩ := h
    rw [liveLoop, List.length_cons, List.range'_succ, List.map_cons, analyzeLoop, List.map_cons,
      List.map_cons, ih hrest, peerName_uartLogName, hlog, hpeer]
    congr 1
    unfold Captured.record
    split <;> rfl

theorem agrees_of_records
    (h : (analyzeDir p b.options directory).map (List.map Record.untimed) =
      some ((liveRecords p b captures referencePing).map Record.untimed)) :
    Agrees p b captures referencePing directory := by
  obtain ⟨records, hrecords, huntimed⟩ := Option.map_eq_some_iff.mp h
  have hcounts : counts records = counts (liveRecords p b captures referencePing) := by
    rw [← counts_untimed records, huntimed, counts_untimed]
  have hlen : records.length = captures.length := by
    have hlen := congrArg List.length huntimed
    rwa [List.length_map, List.length_map, liveRecords, length_liveLoop] at hlen
  refine ⟨h, ?_, ?_⟩
  · rw [hrecords, Option.map_some, hcounts]
  · rw [hrecords, Option.map_some, exitCode, hcounts, hlen, exitCode]

theorem agrees_of_le (hfiles : directory.files = liveFiles p b captures referencePing summary)
    (hne : captures ≠ []) (hruns : captures.length ≤ 99) :
    Agrees p b captures referencePing directory := by
  apply agrees_of_records
  have hpos := List.length_pos_iff.mpr hne
  have hnames : (uartLogNames captures.length).isEmpty = false := by
    rw [List.isEmpty_eq_false_iff, uartLogNames, Ne, List.map_eq_nil_iff, List.range'_eq_nil_iff]
    omega
  simp only [analyzeDir, measuredUartLogs_eq hfiles hruns, hnames, Bool.false_eq_true, if_false,
    Option.map_some]
  exact congrArg some (analyzeLoop_untimed (hfiles ▸ holds_liveFiles))

theorem le_of_agrees (h : Agrees p b captures referencePing directory) : captures.length ≤ 99 := by
  by_contra hruns
  obtain ⟨records, hrecords, huntimed⟩ := Option.map_eq_some_iff.mp h.records
  have hlogs : records.map Record.log = uartLogNames captures.length := by
    have hlogs := congrArg (List.map Record.log) huntimed
    simp only [List.map_map] at hlogs
    exact hlogs.trans liveLoop_logs
  unfold analyzeDir at hrecords
  dsimp only at hrecords
  split at hrecords
  · cases hrecords
  · cases hrecords
    rw [analyzeLoop_logs] at hlogs
    exact measuredUartLogs_ne (by omega) hlogs

/-- The reanalysis of a session repeats it iff the session had at most 99 runs. -/
theorem reanalysis_agrees_iff (p : Parsers V) (b : Bench) (captures : List Captured)
    (referencePing : Option Bytes) (summary : Bytes) (directory : Directory)
    (hfiles : directory.files = liveFiles p b captures referencePing summary)
    (hne : captures ≠ []) :
    Agrees p b captures referencePing directory ↔ captures.length ≤ 99 :=
  ⟨le_of_agrees, agrees_of_le hfiles hne⟩

end Agree

/-! Sessions without a peer and without a reference ping. -/

section Samples

def bootCapture : Captured := ⟨bootMarker, [], []⟩

/-- The directory of `runs` boots. -/
def bootDirectory (runs : ℕ) : Directory where
  files := liveFiles silentParsers scanBench (List.replicate runs bootCapture) none []
  listing := summaryName :: uartLogNames runs
  nodup := by
    refine List.nodup_cons.mpr ⟨?_, uartLogNames_nodup runs⟩
    intro hmem
    obtain ⟨k, -, hk⟩ := List.mem_map.mp hmem
    exact uartLogName_ne (by decide) hk.symm
  mem_listing name := by
    rw [liveFiles_isSome, List.mem_cons, uartLogNames, List.mem_map, List.length_replicate]
    simp only [List.mem_range'_1, Option.isSome_none, Bool.false_eq_true, and_false, false_or,
      scanBench, false_and, or_false, and_assoc, eq_comm (a := name)]

/-- A bench with a second board, whose log is kept too. -/
def pairedBench : Bench := { scanBench with peerPort := true }

def pairedCapture : Captured := ⟨bootMarker, bootMarker, []⟩

/-- The directory of two boots of both boards, after a reference ping. -/
def pairedDirectory : Directory where
  files := liveFiles silentParsers pairedBench [pairedCapture, pairedCapture] (some []) []
  listing := [summaryName, referencePingName, uartLogName 1, peerUartLogName 1, uartLogName 2,
    peerUartLogName 2]
  nodup := by decide
  mem_listing name := by
    rw [liveFiles_isSome]
    simp only [List.mem_cons, List.not_mem_nil, or_false, pairedBench, true_and, Option.isSome_some, and_true]
    constructor
    · rintro (h | h | h | h | h | h)
      · exact .inl h
      · exact .inr (.inl h)
      · exact .inr (.inr ⟨1, by decide, by decide, .inl h⟩)
      · exact .inr (.inr ⟨1, by decide, by decide, .inr h⟩)
      · exact .inr (.inr ⟨2, by decide, by decide, .inl h⟩)
      · exact .inr (.inr ⟨2, by decide, by decide, .inr h⟩)
    · rintro (h | h | ⟨k, hk, hlt, h⟩)
      · exact .inl h
      · exact .inr (.inl h)
      · obtain rfl | rfl : k = 1 ∨ k = 2 := by
          simp only [List.length_cons, List.length_nil] at hlt
          omega
        · exact h.elim (fun h => .inr (.inr (.inl h))) fun h => .inr (.inr (.inr (.inl h)))
        · exact h.elim (fun h => .inr (.inr (.inr (.inr (.inl h))))) fun h =>
            .inr (.inr (.inr (.inr (.inr h))))

theorem reanalysis_agrees_iff_twoBoots : Agrees silentParsers pairedBench [pairedCapture, pairedCapture]
    (some []) pairedDirectory :=
  (reanalysis_agrees_iff silentParsers pairedBench [pairedCapture, pairedCapture] (some []) []
    pairedDirectory rfl (by decide)).mpr (by decide)

theorem not_reanalysis_agrees :
    ¬ ∀ (V : Type) (p : Parsers V) (b : Bench) (captures : List Captured)
      (referencePing : Option Bytes) (summary : Bytes) (directory : Directory),
      directory.files = liveFiles p b captures referencePing summary → captures ≠ [] →
        Agrees p b captures referencePing directory := by
  intro h
  have hagrees := h Unit silentParsers scanBench (List.replicate 100 bootCapture) none []
    (bootDirectory 100) rfl (by decide)
  have hle := le_of_agrees hagrees
  rw [List.length_replicate] at hle
  omega

end Samples

end HisiRiscv.Hil
