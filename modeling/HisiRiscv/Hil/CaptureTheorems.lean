/-
HisiRiscv.Hil.CaptureTheorems — when a record is about the measured boot only.

A run is isolated if its record is made of bytes received at or after the first boot
marker since the reset. It is, iff the marker was received, or nothing at all
(`record_isolated_iff`): without the marker the log is handed on untrimmed, with
what an earlier firmware had sent. The trimming itself is right: however the
bytes are cut into chunks and however often the port is reopened, the log is
`Marker.trim` of what the target has sent since its reset (`Inv`).

  §1 A pass.
  §2 A run.
  §3 Main result.
-/
import HisiRiscv.Hil.Capture

namespace HisiRiscv.Hil

open HisiRiscv.Machine HisiRiscv.Marker

/-! ## §1 A pass -/

section Pass

variable {b : Bench} {s s' : Capture} {target attempt peer : Bytes}

/-- The state against what has been received. -/
structure Inv (s : Capture) (target attempt peer : Bytes) : Prop where
  log : s.log = trim bootMarker target
  bootSeen : s.bootSeen = true ↔ bootMarker <:+: target
  peerLog : s.peerLog = attempt
  attempt : attempt <:+ peer
  markerTimes : ∀ entry ∈ s.markerTimes, entry.1 <:+: fresh bootMarker target

theorem recordMarkers_infix {log : Bytes} {now : ℚ} {times : MarkerTimes} {t : Bytes}
    (htimes : ∀ entry ∈ times, entry.1 <:+: t) (hlog : log <:+: t) :
    ∀ entry ∈ b.recordMarkers log now times, entry.1 <:+: t := by
  unfold Bench.recordMarkers
  induction timedMarkers b.options generalizing times with
  | nil => exact htimes
  | cons marker markers ih =>
    rw [List.foldl_cons]
    apply ih
    split
    · rename_i hnew
      intro entry hentry
      obtain hold | hlast := List.mem_append.mp hentry
      · exact htimes entry hold
      · obtain rfl := List.mem_singleton.mp hlast
        exact (of_decide_eq_true hnew.2).trans hlog
    · exact htimes

theorem Inv.scan (h : Inv s target attempt peer) (hboot : s.bootSeen = true) (nowAt terminalAt : ℚ) :
    Inv (b.scan s nowAt terminalAt) target attempt peer where
  log := h.log
  bootSeen := h.bootSeen
  peerLog := h.peerLog
  attempt := h.attempt
  markerTimes := by
    have hlog : s.log = fresh bootMarker target := by
      rw [h.log, trim_eq_fresh (h.bootSeen.mp hboot)]
    exact recordMarkers_infix h.markerTimes (hlog ▸ List.infix_rfl)

theorem Inv.drain (h : Inv s target attempt peer) (waiting : Bytes) :
    Inv { s with peerLog := s.peerLog ++ waiting } target (attempt ++ waiting) (peer ++ waiting) where
  log := h.log
  bootSeen := h.bootSeen
  peerLog := by rw [h.peerLog]
  attempt := by
    obtain ⟨earlier, rfl⟩ := h.attempt
    exact ⟨earlier, by rw [List.append_assoc]⟩
  markerTimes := h.markerTimes

/-- The one place where the log is trimmed. -/
theorem Inv.receive (h : Inv s target attempt peer) (nowAt terminalAt : ℚ) (chunk waiting : Bytes) :
    Inv (b.receive s nowAt terminalAt chunk waiting) (target ++ chunk) (attempt ++ b.drain waiting)
      (peer ++ b.drain waiting) := by
  have hdrain := h.drain (b.drain waiting)
  have htimes : ∀ entry ∈ s.markerTimes, entry.1 <:+: fresh bootMarker (target ++ chunk) := by
    intro entry hentry
    exact (h.markerTimes entry hentry).trans fresh_prefix_append.isInfix
  unfold Bench.receive
  simp only
  split
  · rename_i hempty
    rw [List.isEmpty_iff.mp hempty, List.append_nil]
    exact hdrain
  · split
    · rename_i hboot
      have hin := h.bootSeen.mp hboot
      have hin' : bootMarker <:+: target ++ chunk := hin.trans (List.prefix_append _ _).isInfix
      suffices hinv : Inv { s with log := s.log ++ chunk, peerLog := s.peerLog ++ b.drain waiting }
          (target ++ chunk) (attempt ++ b.drain waiting) (peer ++ b.drain waiting) from
        hinv.scan hboot nowAt terminalAt
      refine ⟨?_, iff_of_true hboot hin', hdrain.peerLog, hdrain.attempt, htimes⟩
      rw [h.log, trim_eq_fresh hin, trim_eq_fresh hin', fresh_append hin]
    · rename_i hboot
      have hin : ¬ bootMarker <:+: target := h.bootSeen.not.mp hboot
      have hlog : s.log ++ chunk = target ++ chunk := by rw [h.log, trim_of_absent hin]
      rw [hlog]
      split
      · rename_i hnone
        have hin' := find_eq_none_iff.mp hnone
        refine ⟨?_, iff_of_false hboot hin', hdrain.peerLog, hdrain.attempt, htimes⟩
        rw [trim_of_absent hin']
      · rename_i bootStart hsome
        have hin' : bootMarker <:+: target ++ chunk :=
          find_isSome_iff.mp (Option.isSome_iff_exists.mpr ⟨_, hsome⟩)
        refine Inv.scan ?_ rfl nowAt terminalAt
        refine ⟨?_, iff_of_true rfl hin', hdrain.peerLog, hdrain.attempt, htimes⟩
        rw [trim, hsome, Option.elim_some]

theorem Inv.restart (startedAt : ℚ) (reconnects : ℕ) (settle : List Bytes)
    (hpeer : b.settled settle <:+ peer) :
    Inv (b.restart startedAt reconnects settle) [] (b.settled settle) peer where
  log := rfl
  bootSeen := iff_of_false Bool.false_ne_true (by decide)
  peerLog := rfl
  attempt := hpeer
  markerTimes := by simp [Bench.restart]

theorem Inv.step {event : Event} (h : Inv s target attempt peer) (hs : b.step s event = some s') :
    Inv s' (Bench.targetAfter target event) (b.attemptAfter attempt event)
      (b.peerAfter peer event) := by
  cases event with
  | read loopAt breakAt nowAt terminalAt chunk waiting =>
    obtain ⟨-, hs⟩ := Option.ite_none_right_eq_some.mp hs
    cases hs
    exact h.receive nowAt terminalAt chunk waiting
  | reconnect loopAt breakAt startedAt settle =>
    obtain ⟨-, hs⟩ := Option.ite_none_right_eq_some.mp hs
    cases hs
    refine Inv.restart startedAt _ settle ?_
    unfold Bench.peerAfter Bench.settled
    split
    · exact List.suffix_refl _
    · exact List.nil_suffix

end Pass

/-! ## §2 A run -/

section Run

variable {b : Bench} {e : Environment} {captured : Captured}

theorem Inv.run {s s' : Capture} {events : List Event} (hrun : Steps b.step Always s events s')
    {target attempt peer : Bytes} (h : Inv s target attempt peer) :
    Inv s' (events.foldl Bench.targetAfter target) (events.foldl b.attemptAfter attempt)
      (events.foldl b.peerAfter peer) := by
  induction hrun with
  | nil => exact h
  | snoc _ _ hs ih =>
    simp only [List.foldl_append, List.foldl_cons, List.foldl_nil]
    exact ih.step hs

/-- What a call returns, in terms of what the boards have sent. -/
theorem captureRun_eq_some (h : captureRun b e = some captured) :
    captured.log = trim bootMarker e.targetReceived ∧
      captured.peerLog = trim bootMarker (e.peerAttempt b) ∧
      e.peerAttempt b <:+ e.peerReceived b ∧
      ∀ entry ∈ captured.markerTimes, entry.1 <:+: fresh bootMarker e.targetReceived := by
  unfold captureRun at h
  split at h
  · cases h
  · rename_i s hrun
    split at h
    · cases h
    · cases h
      have hstart : b.settled e.settle <:+
          if b.peerJlink then b.settled e.settle else e.peerEarlier := by
        unfold Bench.settled
        split
        · exact List.suffix_refl _
        · exact List.nil_suffix
      have hinv := (Inv.restart e.startedAt 0 e.settle hstart).run (Steps.of_run hrun)
      have hlast := hinv.drain (b.drain e.lastPeer)
      refine ⟨hinv.log, ?_, hlast.attempt, hinv.markerTimes⟩
      rw [hinv.peerLog]
      rfl

end Run

/-! ## §3 Main result -/

section Record

variable {V : Type} {p : Parsers V} {o : Options}

@[simp] theorem has_nil (text : String) : has [] text = decide (text = "") := by
  simp [has, ascii, List.infix_nil]

theorem apModeResult_nil {result : Result} (h : apModeResult p o [] = some result) :
    result = .missingApMode := by
  unfold apModeResult at h
  split at h
  · cases h
  · simp only [detectedApMode, has_nil] at h
    obtain ⟨-, h⟩ := Option.ite_none_right_eq_some.mp h
    exact (Option.some.inj h).symm

/-- Nothing passes on an empty log. -/
theorem classify_nil : classify p o [] ≠ .pass := by
  unfold classify
  split
  · simp [classifyOfficial, officialAuthRsp2TimeoutEvent]
  · split
    · rename_i result hmode
      rw [apModeResult_nil hmode]
      simp
    · simp [errorResult, missingMetrics, stageResult]

theorem recordFromLog_nil {run : ℕ} {logName : FileName} {times : MarkerTimes}
    {peerLog : Option Bytes} {peerLogName : Option FileName} :
    (recordFromLog p o run [] logName times peerLog peerLogName).result ≠ .pass := by
  unfold recordFromLog
  dsimp only
  split
  · simp
  · exact classify_nil

end Record

section Main

variable {V : Type} {p : Parsers V} {b : Bench} {e : Environment} {captured : Captured}
  {run : ℕ} {logName peerLogName : FileName}

/-- The record is about the measured boot only. -/
structure Isolated (p : Parsers V) (b : Bench) (e : Environment) (captured : Captured) (run : ℕ)
    (logName peerLogName : FileName) : Prop where
  /-- it is the record of bytes received at or after the first boot marker since the reset -/
  record : ∃ log peerLog, log <:+ fresh bootMarker e.targetReceived ∧
    peerLog <:+ fresh bootMarker (e.peerReceived b) ∧
    captured.record p b run logName peerLogName =
      Captured.record ⟨log, peerLog, captured.markerTimes⟩ p b run logName peerLogName
  /-- and so are the markers that it times -/
  markerTimes : ∀ entry ∈ captured.markerTimes, entry.1 <:+: fresh bootMarker e.targetReceived
  /-- without a marker the run has not passed -/
  result : ¬ bootMarker <:+: e.targetReceived →
    (captured.record p b run logName peerLogName).result ≠ .pass

/-- The marker has come, or nothing has. -/
def Booted (attempt received : Bytes) : Prop := attempt = [] ∨ bootMarker <:+: received

/-- A record is about the measured boot only iff each board that is captured has sent its
boot marker, or nothing. -/
theorem record_isolated_iff (h : captureRun b e = some captured) :
    Isolated p b e captured run logName peerLogName ↔
      Booted e.targetReceived e.targetReceived ∧
        (b.peerPort = true → Booted (e.peerAttempt b) (e.peerReceived b)) := by
  obtain ⟨hlog, hpeer, hattempt, htimes⟩ := captureRun_eq_some h
  have htarget : trim bootMarker e.targetReceived <:+ fresh bootMarker e.targetReceived ↔
      Booted e.targetReceived e.targetReceived := trim_suffix_fresh_iff (List.suffix_refl _)
  have hpeerFresh : trim bootMarker (e.peerAttempt b) <:+ fresh bootMarker (e.peerReceived b) ↔
      Booted (e.peerAttempt b) (e.peerReceived b) := trim_suffix_fresh_iff hattempt
  constructor
  · intro hisolated
    obtain ⟨log, peerLog, hlogFresh, hpeerLogFresh, hrecord⟩ := hisolated.record
    constructor
    · have hbytes : captured.log.length = log.length := congrArg Record.bytes hrecord
      refine htarget.mp (List.suffix_of_suffix_length_le trim_suffix fresh_suffix ?_)
      rw [← hlog, hbytes]
      exact hlogFresh.length_le
    · intro hport
      have hbytes : some captured.peerLog.length = some peerLog.length := by
        have hbytes := congrArg Record.peerBytes hrecord
        simpa [Captured.record, recordFromLog, hport] using hbytes
      refine hpeerFresh.mp
        (List.suffix_of_suffix_length_le (trim_suffix.trans hattempt) fresh_suffix ?_)
      rw [← hpeer, Option.some.inj hbytes]
      exact hpeerLogFresh.length_le
  · rintro ⟨hbooted, hpeerBooted⟩
    have hlogFresh : captured.log <:+ fresh bootMarker e.targetReceived :=
      hlog ▸ htarget.mpr hbooted
    refine ⟨?_, htimes, ?_⟩
    · by_cases hport : b.peerPort = true
      · exact ⟨captured.log, captured.peerLog, hlogFresh,
          hpeer ▸ hpeerFresh.mpr (hpeerBooted hport), rfl⟩
      · refine ⟨captured.log, [], hlogFresh, List.nil_suffix, ?_⟩
        simp [Captured.record, hport]
    · intro hmissing
      have hnil : captured.log = [] := by
        rw [fresh_of_absent hmissing] at hlogFresh
        exact List.suffix_nil.mp hlogFresh
      rw [Captured.record, hnil]
      exact recordFromLog_nil

end Main

/-! A scan profile, with ten seconds and without a peer. -/

section Samples

def silentParsers : Parsers Unit where
  validateRustContract _ _ _ _ _ := []
  validateReadyOwnership _ _ := []
  parseDnsSummary _ := none
  parseL2ProtocolDiagnostics _ := none
  parseLocalEchoPath _ := none
  parseSoftapEchoPath _ := none
  parseIrq45Lifecycle _ _ := none
  parseReadyOwnership _ := none
  correlateEchoPaths _ _ := none
  parseA5bMetrics _ _ := none
  complete _ := false
  parseResourceCalibration _ := none

def scanBench : Bench where
  options := ⟨.rust, .initScan, none, false, none, false, false⟩
  timeout := 10
  postTerminalSeconds := 1
  peerPort := false
  peerJlink := false

/-- The target sends `chunks` and is then silent. -/
def scanEnvironment (chunks : List String) : Environment where
  peerEarlier := []
  startedAt := 0
  settle := []
  events := chunks.map fun chunk => .read 1 1 1 1 (ascii chunk) []
  loopAt := 10
  breakAt := 10
  lastPeer := []

/-- The boot marker in two chunks, behind what the previous firmware sent. -/
theorem record_isolated_iff_splitMarker :
    ∃ captured, captureRun scanBench (scanEnvironment ["RF3_SCAN_OK\r\nboo", "t.\r\n"]) =
        some captured ∧
      Isolated silentParsers scanBench (scanEnvironment ["RF3_SCAN_OK\r\nboo", "t.\r\n"]) captured 1
        [] [] := by
  have hcaptured : captureRun scanBench (scanEnvironment ["RF3_SCAN_OK\r\nboo", "t.\r\n"]) =
      some ⟨ascii "boot.\r\n", [], []⟩ := by decide +kernel
  refine ⟨_, hcaptured, (record_isolated_iff hcaptured).mpr ⟨.inr (by decide), fun hport => ?_⟩⟩
  cases hport

/-- The previous firmware's success, and a target that does not boot. -/
theorem not_record_isolated :
    ¬ ∀ (V : Type) (p : Parsers V) (b : Bench) (e : Environment) (captured : Captured) (run : ℕ)
      (logName peerLogName : FileName), captureRun b e = some captured →
      Isolated p b e captured run logName peerLogName := by
  intro h
  have hcaptured : captureRun scanBench (scanEnvironment ["RF3_SCAN_OK\r\n"]) =
      some ⟨ascii "RF3_SCAN_OK\r\n", [], []⟩ := by decide +kernel
  have hisolated := h Unit silentParsers scanBench _ _ 1 [] [] hcaptured
  exact hisolated.result (by decide) (by decide)

end Samples

end HisiRiscv.Hil
