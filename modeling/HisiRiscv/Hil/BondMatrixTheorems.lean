/-
HisiRiscv.Hil.BondMatrixTheorems — what the redacted log tells about a passkey.

Two streams are `Alike` if they differ only in the digits that follow the
marker. A stream is read as `pieces`: bytes outside the displays, and displays with all
of their digits. Cutting a stream cuts at most one display, so the parts of two such streams
that a run captures are alike again (`Alike.take`); the redacted log is read off the
pieces (`redactPasskeys_eq`), and it shows the digits of every display that has fewer than six.

  §1 Displays.
  §2 Redaction, piece by piece.
  §3 Cutting a stream.
  §4 What the log shows.
-/
import Mathlib.Data.List.Forall2
import HisiRiscv.Hil.BondMatrix

namespace HisiRiscv.Hil.BondMatrix

open HisiRiscv.Scan

/-! ## §1 Displays -/

/-- The marker, and all the digits that follow it. -/
def display (l : Bytes) : Option (ℕ × Bytes) :=
  let run := (l.drop displayMarker.length).takeWhile isDigit
  if displayMarker <+: l then some (displayMarker.length + run.length, run) else none

def pieces (l : Bytes) : List (UInt8 ⊕ Bytes) := scan display l

inductive AlikePiece : UInt8 ⊕ Bytes → UInt8 ⊕ Bytes → Prop
  | byte (c : UInt8) : AlikePiece (.inl c) (.inl c)
  | display {run run' : Bytes} (hlength : run.length = run'.length)
      (hle : run.length ≤ passkeyLength) : AlikePiece (.inr run) (.inr run')

/-- The streams differ only in digits of displays, of at most six digits each. -/
def Alike (a b : Bytes) : Prop := List.Forall₂ AlikePiece (pieces a) (pieces b)

/-- Displays of fewer than six digits show the same digits. -/
def ShortRunsAgree (a b : Bytes) : Prop :=
  ∀ run run', (.inr run, .inr run') ∈ (pieces a).zip (pieces b) → run.length < passkeyLength →
    run = run'

/-- The digits before `l` end there. -/
def NoDigitFirst (l : Bytes) : Prop := ∀ c, l.head? = some c → isDigit c = false

variable {l a b run run' rest : Bytes} {c : UInt8} {n : ℕ}

theorem takeWhile_digits (hrun : run.all isDigit) (hrest : NoDigitFirst rest) :
    (run ++ rest).takeWhile isDigit = run := by
  rw [List.all_eq_true] at hrun
  rw [List.takeWhile_append_of_pos hrun]
  cases rest with
  | nil => simp
  | cons c rest => simp [hrest c rfl]

theorem noDigitFirst_dropWhile (l : Bytes) : NoDigitFirst (l.dropWhile isDigit) := by
  intro c hc
  cases hl : l.dropWhile isDigit with
  | nil =>
    rw [hl] at hc
    cases hc
  | cons d rest =>
    rw [hl] at hc
    cases hc
    have hhead := List.head?_dropWhile_not isDigit l
    simpa [hl] using hhead

theorem length_marker_pos : 0 < displayMarker.length := by decide

@[simp] theorem pieces_nil : pieces [] = [] := rfl

theorem pieces_byte (h : ¬ displayMarker <+: c :: l) : pieces (c :: l) = .inl c :: pieces l :=
  scan_cons_none (if_neg h)

theorem pieces_display (hrun : run.all isDigit) (hrest : NoDigitFirst rest) :
    pieces (displayMarker ++ (run ++ rest)) = .inr run :: pieces rest := by
  have hm : display (displayMarker ++ (run ++ rest)) =
      some (displayMarker.length + run.length, run) := by
    simp [display, takeWhile_digits hrun hrest]
  rw [pieces, scan_some hm (Nat.add_pos_left length_marker_pos _) (by simp [displayMarker, ascii]),
    ← List.append_assoc, ← List.length_append, List.drop_left]
  rfl

/-- A stream is empty, begins with a byte that no display begins with, or
begins with a display. -/
theorem stream_induction {P : Bytes → Prop} (nil : P [])
    (byte : ∀ c l, ¬ displayMarker <+: c :: l → P l → P (c :: l))
    (display : ∀ run rest, run.all isDigit → NoDigitFirst rest → P rest →
      P (displayMarker ++ (run ++ rest))) (l : Bytes) : P l := by
  induction hlen : l.length using Nat.strong_induction_on generalizing l with
  | h len ih =>
    subst hlen
    cases l with
    | nil => exact nil
    | cons c l =>
      by_cases h : displayMarker <+: c :: l
      · obtain ⟨t, ht⟩ := h
        rw [← ht, ← List.takeWhile_append_dropWhile (p := isDigit) (l := t)]
        refine display _ _ (by simp) (noDigitFirst_dropWhile t) (ih _ ?_ _ rfl)
        have hle := (List.dropWhile_suffix (l := t) isDigit).length_le
        have hlength := congrArg List.length ht
        simp [displayMarker, ascii] at hlength
        simp
        omega
      · exact byte c l h (ih l.length (by simp) l rfl)

theorem pieces_eq_nil (h : pieces b = []) : b = [] := by
  cases b using stream_induction with
  | nil => rfl
  | byte c l hno => simp [pieces_byte hno] at h
  | display run rest hrun hrest => simp [pieces_display hrun hrest] at h

theorem pieces_eq_byte {t : List (UInt8 ⊕ Bytes)} (h : pieces b = .inl c :: t) :
    ∃ l, b = c :: l ∧ ¬ displayMarker <+: c :: l ∧ pieces l = t := by
  cases b using stream_induction with
  | nil => cases h
  | byte d l hno =>
    rw [pieces_byte hno] at h
    cases h
    exact ⟨l, rfl, hno, rfl⟩
  | display run rest hrun hrest =>
    rw [pieces_display hrun hrest] at h
    cases h

theorem pieces_eq_display {t : List (UInt8 ⊕ Bytes)} (h : pieces b = .inr run :: t) :
    ∃ rest, b = displayMarker ++ (run ++ rest) ∧ run.all isDigit ∧ NoDigitFirst rest ∧
      pieces rest = t := by
  cases b using stream_induction with
  | nil => cases h
  | byte c l hno =>
    rw [pieces_byte hno] at h
    cases h
  | display run rest hrun hrest =>
    rw [pieces_display hrun hrest] at h
    cases h
    exact ⟨rest, rfl, hrun, hrest, rfl⟩

/-! ## §2 Redaction, piece by piece -/

def redactPiece : UInt8 ⊕ Bytes → Bytes
  | .inl c => [c]
  | .inr run =>
    if passkeyLength ≤ run.length then passkeyRedacted ++ run.drop passkeyLength
    else displayMarker ++ run

theorem passkeyPattern_eq_none (h : ¬ displayMarker <+: l) : passkeyPattern l = none :=
  if_neg fun hmatch => h hmatch.1

theorem silent_digits (hrun : run.all isDigit) : Silent passkeyPattern run rest := by
  intro s hne hs
  obtain ⟨d, s, rfl⟩ := List.exists_cons_of_ne_nil hne
  have hd : isDigit d := List.all_eq_true.mp hrun d (hs.subset List.mem_cons_self)
  apply passkeyPattern_eq_none
  intro hpre
  obtain ⟨rfl, -⟩ := List.cons_prefix_cons.mp hpre
  revert hd
  decide

/-- The marker does not begin within itself. -/
theorem silent_marker_tail : Silent passkeyPattern displayMarker.tail rest := by
  intro s hne hs
  apply passkeyPattern_eq_none
  intro hpre
  have hlen : s.length ≤ displayMarker.length := hs.length_le.trans (by simp)
  have hwithin : s <+: displayMarker :=
    List.prefix_of_prefix_length_le (List.prefix_append s rest) hpre hlen
  have hnone : ∀ s ∈ displayMarker.tail.tails, s <+: displayMarker → s = [] := by decide
  exact hne (hnone s ((List.mem_tails _ _).mpr hs) hwithin)

theorem redactPasskeys_silent (h : Silent passkeyPattern a b) :
    redactPasskeys (a ++ b) = a ++ redactPasskeys b := by
  rw [redactPasskeys, scan_append_silent h, substituteAll_append, substituteAll_map_inl]
  rfl

theorem redactPasskeys_byte (h : ¬ displayMarker <+: c :: l) :
    redactPasskeys (c :: l) = c :: redactPasskeys l := by
  rw [redactPasskeys, scan_cons_none (passkeyPattern_eq_none h)]
  rfl

theorem redactPasskeys_full (hrun : run.all isDigit) (hfull : passkeyLength ≤ run.length) :
    redactPasskeys (displayMarker ++ (run ++ rest)) =
      passkeyRedacted ++ (run.drop passkeyLength ++ redactPasskeys rest) := by
  have htake : (run ++ rest).take passkeyLength = run.take passkeyLength :=
    List.take_append_of_le_length hfull
  have hdigits : (run.take passkeyLength).all isDigit := by
    rw [List.all_eq_true] at hrun ⊢
    exact fun d hd => hrun d (List.mem_of_mem_take hd)
  have hm : passkeyPattern (displayMarker ++ (run ++ rest)) =
      some (displayMarker.length + passkeyLength, run.take passkeyLength) := by
    rw [passkeyPattern, List.drop_left, htake]
    exact if_pos ⟨List.prefix_append _ _, by simp [hfull], hdigits⟩
  have hrest : Silent passkeyPattern (run.drop passkeyLength) rest :=
    (silent_digits hrun).suffix (List.drop_suffix _ _)
  rw [redactPasskeys, scan_some hm (Nat.add_pos_left length_marker_pos _)
    (by simp [displayMarker, ascii]), List.drop_length_add_append,
    List.drop_append_of_le_length hfull, ← redactPasskeys_silent hrest]
  rfl

theorem redactPasskeys_short (hrun : run.all isDigit) (hrest : NoDigitFirst rest)
    (hshort : run.length < passkeyLength) :
    redactPasskeys (displayMarker ++ (run ++ rest)) =
      displayMarker ++ (run ++ redactPasskeys rest) := by
  have hnone : passkeyPattern (displayMarker ++ (run ++ rest)) = none := by
    rw [passkeyPattern, List.drop_left]
    apply if_neg
    rintro ⟨-, hlen, hall⟩
    cases rest with
    | nil =>
      simp at hlen
      omega
    | cons d rest =>
      obtain ⟨k, hk⟩ := Nat.exists_eq_add_of_lt hshort
      have hd : d ∈ (run ++ d :: rest).take passkeyLength := by
        rw [List.take_append, hk, Nat.add_assoc, Nat.add_sub_cancel_left, List.take_succ_cons]
        simp
      have hdigit := List.all_eq_true.mp hall d hd
      rw [hrest d rfl] at hdigit
      cases hdigit
  have hcons : displayMarker = 82 :: displayMarker.tail := by decide
  have hsilent : Silent passkeyPattern (82 :: (displayMarker.tail ++ run)) rest := by
    apply Silent.cons
    · rw [hcons] at hnone
      simpa using hnone
    · exact silent_marker_tail.append (silent_digits hrun)
  rw [← List.cons_append, ← hcons] at hsilent
  rw [← List.append_assoc, redactPasskeys_silent hsilent, List.append_assoc]

theorem redactPasskeys_eq (l : Bytes) : redactPasskeys l = (pieces l).flatMap redactPiece := by
  induction l using stream_induction with
  | nil => rfl
  | byte c l hno ih => simp [redactPasskeys_byte hno, pieces_byte hno, redactPiece, ih]
  | display run rest hrun hrest ih =>
    rw [pieces_display hrun hrest, List.flatMap_cons, redactPiece, ← ih]
    split
    · rename_i hfull
      rw [redactPasskeys_full hrun hfull, List.append_assoc]
    · rename_i hshort
      rw [redactPasskeys_short hrun hrest (not_le.mp hshort), List.append_assoc]

/-! ## §3 Cutting a stream -/

/-- Part of a marker is no display. -/
theorem pieces_take_marker (hn : n < displayMarker.length) :
    pieces (displayMarker.take n) = (displayMarker.take n).map .inl := by
  have hsilent : Silent display (displayMarker.take n) [] := by
    intro s hne hs
    rw [List.append_nil]
    apply if_neg
    intro hpre
    have hle := hpre.length_le.trans (hs.length_le.trans (List.length_take_le n displayMarker))
    omega
  have h := scan_append_silent hsilent
  rwa [List.append_nil, scan_nil, List.append_nil] at h

theorem noDigitFirst_take (h : NoDigitFirst rest) (n : ℕ) : NoDigitFirst (rest.take n) := by
  intro c hc
  apply h c
  cases n with
  | zero => simp at hc
  | succ n => rwa [List.head?_take, if_neg (Nat.succ_ne_zero n)] at hc

theorem pieces_take_display (hrun : run.all isDigit) (hrest : NoDigitFirst rest) (n : ℕ) :
    pieces ((displayMarker ++ (run ++ rest)).take (displayMarker.length + n)) =
      .inr (run.take n) :: pieces (rest.take (n - run.length)) := by
  have htake : (run.take n).all isDigit := by
    rw [List.all_eq_true] at hrun ⊢
    exact fun d hd => hrun d (List.mem_of_mem_take hd)
  rw [List.take_length_add_append, List.take_append]
  exact pieces_display htake (noDigitFirst_take hrest _)

/-- The first bytes of two streams that are alike are alike. -/
theorem Alike.take (h : Alike a b) (n : ℕ) : Alike (a.take n) (b.take n) := by
  induction a using stream_induction generalizing b n with
  | nil =>
    rw [Alike, pieces_nil, List.forall₂_nil_left_iff] at h
    rw [pieces_eq_nil h]
    simp [Alike]
  | byte c l hno ih =>
    rw [Alike, pieces_byte hno] at h
    obtain ⟨p, t, hp, ht, hb⟩ := List.forall₂_cons_left_iff.mp h
    cases hp
    obtain ⟨l', rfl, hno', rfl⟩ := pieces_eq_byte hb
    cases n with
    | zero => simp [Alike]
    | succ n =>
      have hcut : ∀ {l}, ¬ displayMarker <+: c :: l → ¬ displayMarker <+: c :: l.take n :=
        fun hno hpre => hno (hpre.trans (List.cons_prefix_cons.mpr ⟨rfl, List.take_prefix n _⟩))
      rw [List.take_succ_cons, List.take_succ_cons, Alike, pieces_byte (hcut hno),
        pieces_byte (hcut hno')]
      exact .cons (.byte c) (ih ht n)
  | display run rest hrun hrest ih =>
    rw [Alike, pieces_display hrun hrest] at h
    obtain ⟨p, t, hp, ht, hb⟩ := List.forall₂_cons_left_iff.mp h
    cases hp with
    | display hlength hle =>
      obtain ⟨rest', rfl, hrun', hrest', rfl⟩ := pieces_eq_display hb
      by_cases hn : n < displayMarker.length
      · rw [List.take_append_of_le_length hn.le, List.take_append_of_le_length hn.le, Alike,
          pieces_take_marker hn, List.forall₂_map_left_iff, List.forall₂_map_right_iff]
        exact List.forall₂_same.mpr fun c _ => .byte c
      · obtain ⟨k, rfl⟩ := Nat.exists_eq_add_of_le (not_lt.mp hn)
        rw [Alike, pieces_take_display hrun hrest, pieces_take_display hrun' hrest', ← hlength]
        refine .cons (.display ?_ ?_) (ih ht _)
        · simp [hlength]
        · exact (List.length_take_le' k run).trans hle

/-! ## §4 What the log shows -/

theorem length_redactPiece {p p' : UInt8 ⊕ Bytes} (h : AlikePiece p p') :
    (redactPiece p).length = (redactPiece p').length := by
  cases h with
  | byte c => rfl
  | display hlength hle =>
    simp only [redactPiece, hlength]
    split <;> simp [hlength]

theorem redactPiece_eq_iff {p p' : UInt8 ⊕ Bytes} (h : AlikePiece p p') :
    redactPiece p = redactPiece p' ↔
      ∀ run run', (p, p') = (.inr run, .inr run') → run.length < passkeyLength → run = run' := by
  cases h with
  | byte c => simp
  | @display run run' hlength hle =>
    simp only [redactPiece, ← hlength]
    split
    · rename_i hfull
      have hdrop : run.drop passkeyLength = [] := by simp; omega
      have hdrop' : run'.drop passkeyLength = [] := by simp; omega
      simp [hdrop, hdrop']
      omega
    · rename_i hshort
      simp [not_le.mp hshort]

theorem flatMap_redactPiece_eq_iff {x y : List (UInt8 ⊕ Bytes)}
    (h : List.Forall₂ AlikePiece x y) : x.flatMap redactPiece = y.flatMap redactPiece ↔
      ∀ run run', (.inr run, .inr run') ∈ x.zip y → run.length < passkeyLength → run = run' := by
  induction h with
  | nil => simp
  | @cons p p' x y hp _ ih =>
    rw [List.flatMap_cons, List.flatMap_cons, List.zip_cons_cons]
    constructor
    · intro heq run run' hmem hshort
      obtain ⟨hhead, htail⟩ := List.append_inj heq (length_redactPiece hp)
      obtain hmem | hmem := List.mem_cons.mp hmem
      · exact (redactPiece_eq_iff hp).mp hhead run run' hmem.symm hshort
      · exact ih.mp htail run run' hmem hshort
    · intro hagree
      have hhead : redactPiece p = redactPiece p' := by
        rw [redactPiece_eq_iff hp]
        intro run run' hpair
        exact hagree run run' (hpair ▸ List.mem_cons_self)
      have htail := ih.mpr fun run run' hmem => hagree run run' (List.mem_cons_of_mem _ hmem)
      rw [hhead, htail]

theorem redactPasskeys_eq_iff (h : Alike a b) :
    redactPasskeys a = redactPasskeys b ↔ ShortRunsAgree a b := by
  rw [redactPasskeys_eq, redactPasskeys_eq]
  exact flatMap_redactPiece_eq_iff h

namespace Run

variable (r : Run)

/-- What is captured is the first part of what the peripheral sends. -/
theorem captured_eq : r.captured = r.peripheral.stream.take r.captured.length := by
  have hpre : r.captured <+: r.watched.first.stream := Feed.log_prefix
  rw [watched, (Script.stream_settledWatch _ _ _ _ _ _).1] at hpre
  exact List.prefix_iff_eq_take.mp hpre

end Run

/-- **Whether two runs show different passkeys.** The peripherals' logs of two runs that capture
the same number of bytes of streams that are alike are identical exactly when every
display of fewer than six digits that has been captured has the same digits in both. -/
theorem captureRun_fst_eq_iff {r r' : Run} (h : Alike r.peripheral.stream r'.peripheral.stream)
    (hn : r.captured.length = n) (hn' : r'.captured.length = n) :
    r.captureRun.1 = r'.captureRun.1 ↔
      ShortRunsAgree (r.peripheral.stream.take n) (r'.peripheral.stream.take n) := by
  have hr := r.captured_eq
  have hr' := r'.captured_eq
  rw [hn] at hr
  rw [hn'] at hr'
  rw [Run.captureRun, Run.captureRun]
  show redactPasskeys r.captured = redactPasskeys r'.captured ↔ _
  rw [hr, hr']
  exact redactPasskeys_eq_iff (h.take n)

/-- A run that times out before the sixth digit comes. -/
def cutRun (digits : Bytes) : Run where
  settle := 0
  timeout := 1
  pairingMode := .passkey
  expectRemoval := false
  schedule := .timedOut
  peripheral :=
    { stale := displayMarker
      boot := (digits.take 5).map (fun c => (0, c)) ++ (digits.drop 5).map fun c => (2, c) }
  central := { stale := [], boot := [] }

theorem stream_cutRun (digits : Bytes) :
    (cutRun digits).peripheral.stream = displayMarker ++ (digits ++ []) := by
  simp [cutRun, Board.stream, Function.comp_def]

theorem alike_cutRun :
    Alike (cutRun (ascii "123456")).peripheral.stream (cutRun (ascii "654321")).peripheral.stream := by
  rw [stream_cutRun, stream_cutRun, Alike, pieces_display (by decide) (by simp [NoDigitFirst]),
    pieces_display (by decide) (by simp [NoDigitFirst]), pieces_nil]
  exact .cons (.display (by decide) (by decide)) .nil

/-- The log of such a run shows five of the digits. -/
theorem captured_cutRun :
    (cutRun (ascii "123456")).captured = displayMarker ++ ascii "12345" ∧
      (cutRun (ascii "654321")).captured = displayMarker ++ ascii "65432" := by
  decide +kernel

theorem captureRun_fst_eq_iff_cut :
    (cutRun (ascii "123456")).captureRun.1 = (cutRun (ascii "654321")).captureRun.1 ↔
      ShortRunsAgree ((cutRun (ascii "123456")).peripheral.stream.take 51)
        ((cutRun (ascii "654321")).peripheral.stream.take 51) :=
  captureRun_fst_eq_iff alike_cutRun (by rw [captured_cutRun.1]; decide)
    (by rw [captured_cutRun.2]; decide)

theorem not_captureRun_fst_eq_of_alike :
    ¬ ∀ (r r' : Run) (n : ℕ), Alike r.peripheral.stream r'.peripheral.stream →
      r.captured.length = n → r'.captured.length = n → r.captureRun.1 = r'.captureRun.1 := by
  intro h
  have heq := h (cutRun (ascii "123456")) (cutRun (ascii "654321")) 51 alike_cutRun
    (by rw [captured_cutRun.1]; decide) (by rw [captured_cutRun.2]; decide)
  change redactPasskeys (cutRun _).captured = redactPasskeys (cutRun _).captured at heq
  rw [captured_cutRun.1, captured_cutRun.2] at heq
  revert heq
  decide

end HisiRiscv.Hil.BondMatrix
