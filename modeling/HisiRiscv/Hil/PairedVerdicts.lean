/-
HisiRiscv.Hil.PairedVerdicts — whether the verdict of a paired-board matrix rests
on the measured boots alone.

The ports are flushed once, before the boards are reset. What a board's old firmware sends
after that and before its own reset stays in the log. `OnlyMeasured` is the law for
old firmware that sends so many bytes at most; it holds in no matrix unless that
is none (`onlyMeasured_iff`): one byte completes a failure marker that the new boot does
not print.

  §1 The law.
  §2 The three matrices.
-/
import HisiRiscv.Hil.Coexistence
import HisiRiscv.Hil.RadioMatrix

namespace HisiRiscv.Hil

/-! ## §1 The law -/

/-- Boards that differ in what their old firmware has sent, at most `p` and `q` bytes,
give the same evidence. -/
def OnlyMeasured {E : Type} (evidence : Board → Board → E) (p q : ℕ) : Prop :=
  ∀ (boot boot' : List (ℚ × UInt8)) (stale stale' old old' : Bytes),
    stale.length ≤ p → old.length ≤ p → stale'.length ≤ q → old'.length ≤ q →
      evidence ⟨stale, boot⟩ ⟨stale', boot'⟩ = evidence ⟨old, boot⟩ ⟨old', boot'⟩

/-- A failure marker of every matrix. -/
def missingRomCallback : String := "RFDBG_MISSING_ROM_CALLBACK"

/-- A board that sends everything at once. -/
def promptBoard (stale boot : Bytes) : Board := ⟨stale, boot.map fun c => (0, c)⟩

theorem prompt_promptBoard (stale boot : Bytes) : (promptBoard stale boot).Prompt := by
  intro sent hsent
  obtain ⟨c, -, rfl⟩ := List.mem_map.mp hsent
  rfl

@[simp] theorem stream_promptBoard (stale boot : Bytes) :
    (promptBoard stale boot).stream = stale ++ boot := by
  simp [promptBoard, Board.stream, Function.comp_def]

/-- The evidence reports the marker if it is in one of the logs. -/
def Reports {E : Type} (evidence : Board → Board → E) (reported : E → Prop) : Prop :=
  ∀ first second : Board, first.Prompt → second.Prompt →
    (reported (evidence first second) ↔
      has first.stream missingRomCallback ∨ has second.stream missingRomCallback)

section Law

variable {E : Type} {evidence : Board → Board → E} {reported : E → Prop} {p q : ℕ}

/-- The evidence tells boards with the marker from boards without it. -/
theorem Reports.ne (h : Reports evidence reported) (s s' b b' t t' : Bytes)
    (hmarked : has (s ++ b) missingRomCallback ∨ has (s' ++ b') missingRomCallback)
    (hfree : ¬ (has (t ++ b) missingRomCallback ∨ has (t' ++ b') missingRomCallback)) :
    evidence (promptBoard s b) (promptBoard s' b') ≠
      evidence (promptBoard t b) (promptBoard t' b') := by
  intro heq
  have hreported := h _ _ (prompt_promptBoard s b) (prompt_promptBoard s' b')
  have hnot := h _ _ (prompt_promptBoard t b) (prompt_promptBoard t' b')
  simp only [stream_promptBoard] at hreported hnot
  rw [heq] at hreported
  exact hfree (hnot.mp (hreported.mpr hmarked))

/-- The first byte of the marker. -/
def markerStart : Bytes := (ascii missingRomCallback).take 1

def markerRest : Bytes := (ascii missingRomCallback).drop 1

/-- The law holds exactly when the old firmware of neither board sends anything
between the flush and the reset of the board. -/
theorem onlyMeasured_iff (h : Reports evidence reported) :
    OnlyMeasured evidence p q ↔ p = 0 ∧ q = 0 := by
  constructor
  · intro hlaw
    constructor
    · by_contra hp
      have hone : markerStart.length ≤ p := Nat.one_le_iff_ne_zero.mpr hp
      have hne := h.ne markerStart [] markerRest [] [] [] (by decide) (by decide)
      exact hne (hlaw _ _ _ _ _ _ hone (by simp) (by simp) (by simp))
    · by_contra hq
      have hone : markerStart.length ≤ q := Nat.one_le_iff_ne_zero.mpr hq
      have hne := h.ne [] markerStart [] markerRest [] [] (by decide) (by decide)
      exact hne (hlaw _ _ _ _ _ _ (by simp) (by simp) hone (by simp))
  · rintro ⟨rfl, rfl⟩ boot boot' stale stale' old old' hs ho hs' ho'
    rw [List.eq_nil_of_length_eq_zero (Nat.le_zero.mp hs),
      List.eq_nil_of_length_eq_zero (Nat.le_zero.mp ho),
      List.eq_nil_of_length_eq_zero (Nat.le_zero.mp hs'),
      List.eq_nil_of_length_eq_zero (Nat.le_zero.mp ho')]

end Law

/-! ## §2 The three matrices -/

namespace Coexistence

/-- What a verdict rests on: all but the count of scans and the length of the log. -/
structure Evidence where
  pass : Bool
  missing : List String
  failureMarkers : List String
  localEcho : Option Counters
  softapEcho : Option Counters
  eventConservation : Option Counters
  resourceAcceptance : Option Counters

def Result.evidence (r : Result) : Evidence where
  pass := r.pass
  missing := r.missing
  failureMarkers := r.failureMarkers
  localEcho := r.localEcho
  softapEcho := r.softapEcho
  eventConservation := r.eventConservation
  resourceAcceptance := r.resourceAcceptance

def evidence (contract : Contract) (timeout : ℚ) (t : Schedule) (ble peer : Board) :
    Evidence × Evidence :=
  ((results contract timeout t ble peer).1.evidence, (results contract timeout t ble peer).2.evidence)

theorem reports_evidence (contract : Contract) (timeout : ℚ) (t : Schedule) :
    Reports (evidence contract timeout t) fun e =>
      missingRomCallback ∈ e.1.failureMarkers ∨ missingRomCallback ∈ e.2.failureMarkers := by
  intro first second hfirst hsecond
  have hlog := (script contract).log_watch timeout t (Feed.due_feed hfirst t.firstPulseAt)
    (Feed.due_feed hsecond t.secondPulseAt)
  rw [Feed.stream_feed, Feed.stream_feed] at hlog
  have hmem : missingRomCallback ∈ failureMarkers := by decide
  simp [evidence, results, capturePair, Result.evidence, classify, hlog.1, hlog.2, hmem]

end Coexistence

/-- A marker that `classifyPair` is asked for is reported. -/
theorem mem_failureMarkers_classifyPair (required required' : List String) (first second : Bytes)
    {failures : List String} {marker : String} (hmem : marker ∈ failures) :
    marker ∈ (classifyPair required required' failures first second).failureMarkers ↔
      has first marker ∨ has second marker := by
  simp [classifyPair, hmem]

namespace RadioMatrix

def evidence (protocol : Protocol) (sourceSettle timeout : ℚ) (t : Schedule)
    (source observer : Board) : PairEvidence :=
  (record protocol sourceSettle timeout t source observer).evidence

theorem reports_evidence (protocol : Protocol) (sourceSettle timeout : ℚ) (t : Schedule) :
    Reports (evidence protocol sourceSettle timeout t) fun e =>
      missingRomCallback ∈ e.failureMarkers := by
  intro first second hfirst hsecond
  have hlog := (script protocol.observerMarker).log_settledWatch sourceSettle timeout t hfirst
    hsecond
  have hmem : missingRomCallback ∈ failureMarkers protocol := by
    simp [failureMarkers, commonFailureMarkers, missingRomCallback]
  rw [← hlog.1, ← hlog.2]
  exact mem_failureMarkers_classifyPair [commonMarker, protocol.sourceMarker]
    [commonMarker, protocol.observerMarker] _ _ hmem

end RadioMatrix

namespace GattMatrix

def evidence (serverSettle timeout : ℚ) (t : Schedule) (server client : Board) : PairEvidence :=
  (record serverSettle timeout t server client).evidence

theorem reports_evidence (serverSettle timeout : ℚ) (t : Schedule) :
    Reports (evidence serverSettle timeout t) fun e =>
      missingRomCallback ∈ e.failureMarkers := by
  intro first second hfirst hsecond
  have hlog := script.log_settledWatch serverSettle timeout t hfirst hsecond
  have hmem : missingRomCallback ∈ failureMarkers := by decide
  rw [← hlog.1, ← hlog.2]
  exact mem_failureMarkers_classifyPair serverMarkers clientMarkers _ _ hmem

end GattMatrix

/-- **What the verdicts rest on.** In each of the three matrices, for every contract or
protocol, settle time, timeout and schedule, the evidence is the same for all that
the old firmware of the boards may have sent exactly when it can send nothing. -/
theorem onlyMeasured_matrices_iff (settle timeout : ℚ) (t : Schedule) (p q : ℕ) :
    (∀ contract, OnlyMeasured (Coexistence.evidence contract timeout t) p q ↔ p = 0 ∧ q = 0) ∧
      (∀ protocol,
        OnlyMeasured (RadioMatrix.evidence protocol settle timeout t) p q ↔ p = 0 ∧ q = 0) ∧
      (OnlyMeasured (GattMatrix.evidence settle timeout t) p q ↔ p = 0 ∧ q = 0) := by
  refine ⟨fun contract => ?_, fun protocol => ?_, ?_⟩
  · exact onlyMeasured_iff (Coexistence.reports_evidence contract timeout t)
  · exact onlyMeasured_iff (RadioMatrix.reports_evidence protocol settle timeout t)
  · exact onlyMeasured_iff (GattMatrix.reports_evidence settle timeout t)

/-- An observer that does not boot passes with the markers of its old firmware. -/
theorem not_onlyMeasured_matrices :
    ¬ ∀ (settle timeout : ℚ) (t : Schedule) (p q : ℕ),
      (∀ contract, OnlyMeasured (Coexistence.evidence contract timeout t) p q) ∧
        (∀ protocol, OnlyMeasured (RadioMatrix.evidence protocol settle timeout t) p q) ∧
        OnlyMeasured (GattMatrix.evidence settle timeout t) p q := by
  intro h
  have heq := (h 3 20 .timedOut 0 49).2.1 .ble
    ((ascii "RFDBG_RADIO_U2_INIT_OK RFDBG_RADIO_U2_BLE_ADV_OK").map fun c => (0, c)) []
    [] (ascii "RFDBG_RADIO_U2_INIT_OK RFDBG_RADIO_U2_BLE_SCAN_OK") [] []
    (by decide) (by decide) (by decide) (by decide)
  revert heq
  decide +kernel

end HisiRiscv.Hil
