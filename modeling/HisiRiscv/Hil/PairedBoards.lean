/-
HisiRiscv.Hil.PairedBoards — what the paired-board reset matrices share: two serial
ports, and the loop that reads them until a deadline or until some time after
the log says that the run is complete.

Translation notes. The driver keeps every byte that arrives after
`reset_input_buffer`, in order. A board's port is first read after the pulse that
resets the board, so what its old firmware sent by then is waiting there. The bytes of the new
boot come at times counted from the pulse. The clock is the environment: a
`Schedule` has every reading of it and the time of every read of a port; it is
at the deadline when the passes are used up. The loops of the matrices differ in a
`Script`: the condition that completes the run, how long the loop goes on after it, and
what the host writes to the second board. Sleeping and J-Link are left out.

  §1 Boards and ports.
  §2 The schedule.
  §3 The loop.
  §4 Nothing is lost.
  §5 Boards that send everything at once.
-/
import Mathlib.Algebra.Order.Ring.Rat
import Mathlib.Data.List.TakeWhile
import HisiRiscv.Hil.Record

namespace HisiRiscv.Hil

/-! ## §1 Boards and ports -/

/-- What one board sends to the host during one run. -/
structure Board where
  /-- sent by the firmware that ran before, from `reset_input_buffer` to the reset pulse -/
  stale : Bytes
  /-- sent since the start of the pulse, with the time since then -/
  boot : List (ℚ × UInt8)

/-- The log of a board, what is waiting in its port, and what will come. -/
structure Feed where
  log : Bytes
  waiting : Bytes
  coming : List (ℚ × UInt8)

def Board.feed (b : Board) (pulseAt : ℚ) : Feed where
  log := []
  waiting := b.stale
  coming := b.boot.map fun sent => (pulseAt + sent.1, sent.2)

/-- Everything that the board sends. -/
def Board.stream (b : Board) : Bytes := b.stale ++ b.boot.map Prod.snd

namespace Feed

/-- `log.extend(drain(port))`. -/
def read (f : Feed) (now : ℚ) : Feed where
  log := f.log ++ f.waiting ++ (f.coming.takeWhile fun sent => sent.1 ≤ now).map Prod.snd
  waiting := []
  coming := f.coming.dropWhile fun sent => sent.1 ≤ now

def stream (f : Feed) : Bytes := f.log ++ f.waiting ++ f.coming.map Prod.snd

end Feed

/-! ## §2 The schedule -/

/-- The clock during one pass of `while time.monotonic() < deadline`. -/
structure Pass where
  loopAt : ℚ
  firstAt : ℚ
  secondAt : ℚ
  /-- `complete_at = time.monotonic()` -/
  completeAt : ℚ
  breakAt : ℚ
  /-- when the ports are read after the loop, should it end in this pass -/
  lastFirstAt : ℚ
  lastSecondAt : ℚ

structure Schedule where
  firstPulseAt : ℚ
  settleFrom : ℚ
  /-- of each pass of the first loop: the reading of the clock, and when the port is read -/
  settle : List (ℚ × ℚ)
  secondPulseAt : ℚ
  watchFrom : ℚ
  passes : List Pass
  /-- when the ports are read after the loop, should it end at the deadline -/
  lastFirstAt : ℚ
  lastSecondAt : ℚ
  /-- the boards have been reset before the loop -/
  pulsed : ∀ p ∈ passes, firstPulseAt ≤ p.lastFirstAt ∧ secondPulseAt ≤ p.lastSecondAt
  pulsed_end : firstPulseAt ≤ lastFirstAt ∧ secondPulseAt ≤ lastSecondAt

/-- The deadline has passed before the loop; the ports are read once. -/
def Schedule.timedOut : Schedule where
  firstPulseAt := 0
  settleFrom := 0
  settle := []
  secondPulseAt := 0
  watchFrom := 0
  passes := []
  lastFirstAt := 1
  lastSecondAt := 1
  pulsed := by simp
  pulsed_end := by simp

/-! ## §3 The loop -/

/-- What the loops of the matrices differ in. -/
structure Script where
  complete : Bytes → Bytes → Bool
  /-- the seconds for which the loop goes on once the run is complete -/
  hold : ℚ
  /-- what the host writes to the second board when it has this log of the first -/
  relay : Bytes → Option Bytes

structure Watch where
  first : Feed
  second : Feed
  sent : Option Bytes
  completeAt : Option ℚ

namespace Watch

/-- The reads after the loop. -/
def finish (s : Watch) (firstAt secondAt : ℚ) : Watch :=
  { s with first := s.first.read firstAt, second := s.second.read secondAt }

end Watch

/-- The loop in which the first board is read while it settles. -/
def settleLoop (deadline : ℚ) : List (ℚ × ℚ) → Feed → Feed
  | [], f => f
  | (loopAt, readAt) :: passes, f =>
    if loopAt < deadline then settleLoop deadline passes (f.read readAt) else f

namespace Script

variable (c : Script)

/-- One pass, up to `break`. -/
def pass (s : Watch) (p : Pass) : Watch :=
  let first := s.first.read p.firstAt
  let second := s.second.read p.secondAt
  { first, second
    sent := s.sent <|> c.relay first.log
    completeAt :=
      if c.complete first.log second.log ∧ s.completeAt.isNone then some p.completeAt
      else s.completeAt }

/-- The run has been complete for long enough. -/
def held (s : Watch) (breakAt : ℚ) : Bool := s.completeAt.any fun seenAt => c.hold ≤ breakAt - seenAt

def loop (deadline lastFirstAt lastSecondAt : ℚ) : List Pass → Watch → Watch
  | [], s => s.finish lastFirstAt lastSecondAt
  | p :: passes, s =>
    if p.loopAt < deadline then
      if c.held (c.pass s p) p.breakAt then (c.pass s p).finish p.lastFirstAt p.lastSecondAt
      else loop deadline lastFirstAt lastSecondAt passes (c.pass s p)
    else s.finish p.lastFirstAt p.lastSecondAt

/-- The run from when both boards have been reset. -/
def watch (timeout : ℚ) (t : Schedule) (first second : Feed) : Watch :=
  c.loop (t.watchFrom + timeout) t.lastFirstAt t.lastSecondAt t.passes ⟨first, second, none, none⟩

/-- The run of a matrix that lets the first board settle before it resets the second. -/
def settledWatch (settle timeout : ℚ) (t : Schedule) (first second : Board) : Watch :=
  c.watch timeout t
    (settleLoop (t.settleFrom + settle) t.settle (first.feed t.firstPulseAt))
    (second.feed t.secondPulseAt)

end Script

/-! ## §4 Nothing is lost -/

namespace Feed

variable {f : Feed} {now : ℚ}

@[simp] theorem stream_feed (b : Board) (pulseAt : ℚ) : (b.feed pulseAt).stream = b.stream := by
  simp [stream, Board.feed, Board.stream, Function.comp_def]

@[simp] theorem stream_read : (f.read now).stream = f.stream := by
  simp only [stream, read, List.append_nil, List.append_assoc, ← List.map_append,
    List.takeWhile_append_dropWhile]

theorem log_prefix : f.log <+: f.stream := by
  rw [stream, List.append_assoc]
  exact List.prefix_append f.log _

end Feed

theorem stream_settleLoop {deadline : ℚ} (passes : List (ℚ × ℚ)) (f : Feed) :
    (settleLoop deadline passes f).stream = f.stream := by
  induction passes generalizing f with
  | nil => rfl
  | cons p passes ih =>
    rw [settleLoop]
    split
    · rw [ih, Feed.stream_read]
    · rfl

namespace Script

variable (c : Script) (deadline lastFirstAt lastSecondAt settle timeout : ℚ)

theorem stream_loop (passes : List Pass) (s : Watch) :
    (c.loop deadline lastFirstAt lastSecondAt passes s).first.stream = s.first.stream ∧
      (c.loop deadline lastFirstAt lastSecondAt passes s).second.stream = s.second.stream := by
  induction passes generalizing s with
  | nil => simp [loop, Watch.finish]
  | cons p passes ih =>
    rw [loop]
    split
    · split
      · simp [Watch.finish, pass]
      · simpa [pass] using ih (c.pass s p)
    · simp [Watch.finish]

theorem stream_settledWatch (t : Schedule) (first second : Board) :
    (c.settledWatch settle timeout t first second).first.stream = first.stream ∧
      (c.settledWatch settle timeout t first second).second.stream = second.stream := by
  have h := stream_loop c (t.watchFrom + timeout) t.lastFirstAt t.lastSecondAt t.passes
    ⟨settleLoop (t.settleFrom + settle) t.settle (first.feed t.firstPulseAt),
      second.feed t.secondPulseAt, none, none⟩
  rwa [stream_settleLoop, Feed.stream_feed, Feed.stream_feed] at h

end Script

/-! ## §5 Boards that send everything at once -/

/-- The new boot sends everything with the start of the pulse. -/
def Board.Prompt (b : Board) : Prop := ∀ sent ∈ b.boot, sent.1 = 0

/-- What comes, comes before then. -/
def Feed.Due (f : Feed) (now : ℚ) : Prop := ∀ sent ∈ f.coming, sent.1 ≤ now

namespace Feed

variable {f : Feed} {now due : ℚ}

theorem due_feed {b : Board} (h : b.Prompt) (pulseAt : ℚ) : (b.feed pulseAt).Due pulseAt := by
  intro sent hsent
  obtain ⟨sent, hmem, rfl⟩ := List.mem_map.mp hsent
  simp [h sent hmem]

theorem Due.read (h : f.Due due) (now : ℚ) : (f.read now).Due due :=
  fun sent hsent => h sent ((List.dropWhile_suffix _).subset hsent)

theorem Due.settleLoop (h : f.Due due) (deadline : ℚ) (passes : List (ℚ × ℚ)) :
    (settleLoop deadline passes f).Due due := by
  induction passes generalizing f with
  | nil => exact h
  | cons p passes ih =>
    rw [Hil.settleLoop]
    split
    · exact ih (h.read p.2)
    · exact h

theorem Due.log_read (h : f.Due due) (hnow : due ≤ now) : (f.read now).log = f.stream := by
  have hall : (f.coming.takeWhile fun sent => sent.1 ≤ now) = f.coming := by
    rw [List.takeWhile_eq_self_iff]
    intro sent hsent
    simpa using (h sent hsent).trans hnow
  rw [Feed.read, hall, stream]

end Feed

namespace Script

variable (c : Script) (deadline settle timeout : ℚ) (t : Schedule)

/-- What is due when the ports are last read is in the logs. -/
theorem log_loop {firstDue secondDue lastFirstAt lastSecondAt : ℚ} (passes : List Pass)
    (s : Watch) (hfirst : s.first.Due firstDue) (hsecond : s.second.Due secondDue)
    (hlast : ∀ p ∈ passes, firstDue ≤ p.lastFirstAt ∧ secondDue ≤ p.lastSecondAt)
    (hend : firstDue ≤ lastFirstAt ∧ secondDue ≤ lastSecondAt) :
    (c.loop deadline lastFirstAt lastSecondAt passes s).first.log = s.first.stream ∧
      (c.loop deadline lastFirstAt lastSecondAt passes s).second.log = s.second.stream := by
  induction passes generalizing s with
  | nil => exact ⟨hfirst.log_read hend.1, hsecond.log_read hend.2⟩
  | cons p passes ih =>
    obtain ⟨hp, hpasses⟩ := List.forall_mem_cons.mp hlast
    have hfirst' : (c.pass s p).first.Due firstDue := hfirst.read p.firstAt
    have hsecond' : (c.pass s p).second.Due secondDue := hsecond.read p.secondAt
    rw [loop]
    split
    · split
      · have h := And.intro (hfirst'.log_read hp.1) (hsecond'.log_read hp.2)
        simpa [pass, Watch.finish] using h
      · simpa [pass] using ih (c.pass s p) hfirst' hsecond' hpasses
    · exact ⟨hfirst.log_read hp.1, hsecond.log_read hp.2⟩

theorem log_watch {first second : Feed} (hfirst : first.Due t.firstPulseAt)
    (hsecond : second.Due t.secondPulseAt) :
    (c.watch timeout t first second).first.log = first.stream ∧
      (c.watch timeout t first second).second.log = second.stream :=
  c.log_loop (t.watchFrom + timeout) t.passes ⟨first, second, none, none⟩ hfirst hsecond t.pulsed
    t.pulsed_end

theorem log_settledWatch {first second : Board} (hfirst : first.Prompt)
    (hsecond : second.Prompt) :
    (c.settledWatch settle timeout t first second).first.log = first.stream ∧
      (c.settledWatch settle timeout t first second).second.log = second.stream := by
  have h := c.log_watch timeout t
    ((Feed.due_feed hfirst t.firstPulseAt).settleLoop (t.settleFrom + settle) t.settle)
    (Feed.due_feed hsecond t.secondPulseAt)
  rwa [stream_settleLoop, Feed.stream_feed, Feed.stream_feed] at h

end Script

end HisiRiscv.Hil
