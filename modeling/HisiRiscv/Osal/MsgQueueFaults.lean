/-
HisiRiscv.Osal.MsgQueueFaults — calls of the message queue that return `OSAL_NOK`.

A call fails for a null argument, a full queue, a timeout, or an error of the semaphore. All
of these but one leave the queue as it was. `osal_msg_queue_write_copy` stores its message
before it announces it with `up`, and where `up` fails, the message stays without a permit.

Translation notes. What the semaphore answers is an argument of a call; an answer that it
cannot give (a permit where there is none) is none. An operation that fails changes no
permits. The machine of the calls is that of `MsgQueue` with these failures.

  §1 Calls.
  §2 The machine with failures.
  §3 A call by itself.
  §4 Main results.
-/
import HisiRiscv.Osal.MsgQueueTheorems

namespace HisiRiscv.Osal.MsgQueue

open HisiRiscv.Machine

/-! ## §1 Calls -/

/-- A queue with the permits of its semaphore. -/
structure Shared where
  queue : MsgQueue
  permits : ℕ

/-- What `down_timeout` answers. -/
inductive DownAnswer where
  | acquired
  | timedOut
  | error
  deriving DecidableEq

/-- `osal_msg_queue_write_copy`; no buffer is a null one. -/
def osalMsgQueueWriteCopy (s : Shared) (queueNull : Bool) (buffer : Option (List UInt8))
    (upOk : Bool) : Bool × Shared :=
  match queueNull, buffer with
  | false, some buffer =>
      match s.queue.writeCopy buffer with
      | none => (false, s)
      | some queue => if upOk then (true, ⟨queue, s.permits + 1⟩) else (false, ⟨queue, s.permits⟩)
  | true, _ | false, none => (false, s)

/-- `osal_msg_queue_read_copy`. -/
def osalMsgQueueReadCopy (s : Shared) (queueNull bufferNull : Bool) (size : Option UInt32)
    (down : DownAnswer) : Option (ReadResult × Shared) :=
  if queueNull || bufferNull then some (.nok, s)
  else
    match down with
    | .timedOut | .error => some (.nok, s)
    | .acquired =>
        if s.permits = 0 then none
        else
          match s.queue.readCopy size with
          | none => some (.unfilled, ⟨s.queue, s.permits - 1⟩)
          | some (bytes, queue) => some (.filled bytes, ⟨queue, s.permits - 1⟩)

inductive Call where
  | write (queueNull : Bool) (buffer : Option (List UInt8)) (upOk : Bool)
  | read (queueNull bufferNull : Bool) (size : Option UInt32) (down : DownAnswer)

/-- A call: whether it returns `OSAL_OK`, and what it leaves. -/
def perform (s : Shared) : Call → Option (Bool × Shared)
  | .write queueNull buffer upOk => some (osalMsgQueueWriteCopy s queueNull buffer upOk)
  | .read queueNull bufferNull size down =>
      (osalMsgQueueReadCopy s queueNull bufferNull size down).map fun r => (r.1 != .nok, r.2)

/-! ## §2 The machine with failures -/

inductive FaultyAction where
  | plain (act : Action)
  /-- `items.up()` of write call number `k` fails. -/
  | upError (k : ℕ)
  /-- `down_timeout` of read call number `k` fails. -/
  | downError (k : ℕ)
  /-- A call with a null argument. -/
  | refused

def State.stepUpError (s : State) (k : ℕ) : WriteCall → Option State
  | .stored buffer => some { s with writes := s.writes.set k (.returned buffer false) }
  | .entered _ | .returned _ _ => none

def faultyStep (s : State) : FaultyAction → Option State
  | .plain act => step s act
  | .upError k => s.writes[k]?.bind (s.stepUpError k)
  | .downError k => s.reads[k]?.bind (s.stepTimeout k)
  | .refused => some s

def FaultyAction.isUpError : FaultyAction → Bool
  | .upError _ => true
  | .plain _ | .downError _ | .refused => false

/-- The step is no failure of `up`. -/
def UpSucceeds (_ : State) (act : FaultyAction) : Prop := act.isUpError = false

instance (s : State) (act : FaultyAction) : Decidable (UpSucceeds s act) :=
  inferInstanceAs (Decidable (_ = _))

def State.shared (s : State) : Shared := ⟨s.queue, s.permits⟩

/-! ## §3 A call by itself -/

/-- The steps of a write with nothing in between. -/
def writeAlone (s : State) (buffer : List UInt8) (upOk : Bool) : Option State :=
  run faultyStep s ([.plain (.write buffer), .plain (.writer s.writes.length)] ++
    if s.queue.cap ≤ s.queue.count then []
    else if upOk then [.plain (.writer s.writes.length)] else [.upError s.writes.length])

/-- Its steps are the call. -/
theorem shared_writeAlone (s : State) (buffer : List UInt8) (upOk : Bool) :
    (writeAlone s buffer upOk).map State.shared =
      some (osalMsgQueueWriteCopy s.shared false (some buffer) upOk).2 := by
  by_cases hfull : s.queue.cap ≤ s.queue.count
  · simp [writeAlone, hfull, run, faultyStep, step, State.stepWriter, writeCopy, State.shared,
      osalMsgQueueWriteCopy]
  · cases upOk <;>
      simp [writeAlone, hfull, run, faultyStep, step, State.stepWriter, State.stepUpError, writeCopy,
        State.shared, osalMsgQueueWriteCopy]

/-- The steps of a read with nothing in between. -/
def readAlone (s : State) (size : Option UInt32) (down : DownAnswer) : Option State :=
  run faultyStep s (.plain (.read size) ::
    match down with
    | .acquired => [.plain (.reader s.reads.length), .plain (.reader s.reads.length)]
    | .timedOut => [.plain (.timeout s.reads.length)]
    | .error => [.downError s.reads.length])

theorem shared_readAlone (s : State) (size : Option UInt32) (down : DownAnswer) :
    (readAlone s size down).map State.shared =
      (osalMsgQueueReadCopy s.shared false false size down).map Prod.snd := by
  cases down with
  | acquired =>
    by_cases hpermits : s.permits = 0
    · simp [readAlone, run, faultyStep, step, State.stepReader, osalMsgQueueReadCopy, hpermits,
        State.shared]
    · have hpos := Nat.pos_of_ne_zero hpermits
      by_cases hcount : s.queue.count = 0 <;>
        simp [readAlone, run, faultyStep, step, State.stepReader, osalMsgQueueReadCopy, hpermits, hpos,
          State.shared, readCopy, hcount]
  | timedOut =>
    simp [readAlone, run, faultyStep, step, State.stepTimeout, osalMsgQueueReadCopy, State.shared]
  | error =>
    simp [readAlone, run, faultyStep, step, State.stepTimeout, osalMsgQueueReadCopy, State.shared]

/-! ## §4 Main results -/

/-- The message of a write is stored, and announcing it fails. -/
def UpFails (s : Shared) (call : Call) : Prop :=
  ∃ buffer, call = .write false (some buffer) false ∧ s.queue.count < s.queue.cap

/-- Every message of a write that has succeeded is read once or waits in a slot, in order, and
every occupied slot has a permit or a call under way. -/
structure MessagesKept (itemSize cap : ℕ) (blank : ℕ → List UInt8) (s : State) : Prop where
  balance : s.permits + s.holding + s.between = s.queue.count
  written : (s.writes.filterMap WriteCall.message?).Perm s.written
  counted : s.written.length = s.read.length + s.queue.count
  order : ∀ (j : ℕ) (result : Option UInt32 × List UInt8), s.read[j]? = some result →
    Delivers itemSize cap blank s.written j result

theorem write_unchanged_iff {s s' : Shared} {queueNull upOk : Bool} {buffer : Option (List UInt8)}
    (h : osalMsgQueueWriteCopy s queueNull buffer upOk = (false, s')) :
    s' = s ↔ ¬ UpFails s (.write queueNull buffer upOk) := by
  match queueNull, buffer with
  | true, _ =>
    cases h
    exact iff_of_true rfl nofun
  | false, none =>
    cases h
    exact iff_of_true rfl nofun
  | false, some buffer =>
    simp only [osalMsgQueueWriteCopy] at h
    cases hwrite : s.queue.writeCopy buffer with
    | none =>
      rw [hwrite] at h
      cases h
      refine iff_of_true rfl ?_
      rintro ⟨-, -, hroom⟩
      rw [writeCopy, if_neg (Nat.not_le.mpr hroom)] at hwrite
      cases hwrite
    | some queue =>
      rw [hwrite] at h
      cases upOk with
      | true => cases h
      | false =>
        cases h
        obtain ⟨hroom, hcount, -⟩ := writeCopy_spec hwrite
        refine iff_of_false ?_ (not_not.mpr ⟨buffer, rfl, hroom⟩)
        intro heq
        have hsame := congrArg (fun s => s.queue.count) heq
        dsimp only at hsame
        omega

theorem read_unchanged {s s' : Shared} {queueNull bufferNull : Bool} {size : Option UInt32}
    {down : DownAnswer}
    (h : osalMsgQueueReadCopy s queueNull bufferNull size down = some (.nok, s')) : s' = s := by
  unfold osalMsgQueueReadCopy at h
  split at h
  · cases h
    rfl
  · cases down with
    | acquired =>
      dsimp only at h
      split_ifs at h
      split at h <;> cases h
    | timedOut | error =>
      cases h
      rfl

/-- A failure of `down_timeout` is a timeout for the queue. -/
theorem inv_faultyStep {itemSize cap : ℕ} {blank : ℕ → List UInt8} {s t : State} {act : FaultyAction}
    (h : Inv itemSize cap blank s) (hok : UpSucceeds s act) (hs : faultyStep s act = some t) :
    Inv itemSize cap blank t := by
  cases act with
  | plain act => exact inv_step h hs
  | upError k => cases hok
  | downError k => exact inv_step h (show step _ (.timeout k) = some t from hs)
  | refused =>
    cases hs
    exact h

theorem messagesKept_of_inv {itemSize cap : ℕ} {blank : ℕ → List UInt8} {s : State}
    (h : Inv itemSize cap blank s) : MessagesKept itemSize cap blank s :=
  ⟨h.balance, h.messages, h.counted, h.delivered⟩

/-- A call that fails leaves the queue as it was exactly if it is no write whose `up` fails, and
in runs without these, every message that is written is read once. -/
theorem failed_call_iff (r r' : Shared) (call : Call) (memory : ℕ → UInt8)
    (queueLen maxMsgsize : UInt16) (q : MsgQueue) (s : State) (acts : List FaultyAction) :
    (perform r call = some (false, r') → (r' = r ↔ ¬ UpFails r call)) ∧
    (create memory queueLen maxMsgsize = some q →
      Steps faultyStep UpSucceeds (init q) acts s →
        MessagesKept maxMsgsize.toNat queueLen.toNat q.slotBytes s) := by
  refine ⟨?_, ?_⟩
  · rintro h
    cases call with
    | write queueNull buffer upOk => exact write_unchanged_iff (Option.some_inj.mp h)
    | read queueNull bufferNull size down =>
      obtain ⟨⟨result, t⟩, hread, hresult⟩ := Option.map_eq_some_iff.mp h
      obtain ⟨hnok, rfl⟩ := Prod.mk.inj hresult
      rw [bne_eq_false_iff_eq] at hnok
      subst hnok
      exact iff_of_true (read_unchanged hread) nofun
  · rintro hcreate hsteps
    exact messagesKept_of_inv
      (hsteps.invariant (inv_init hcreate) fun t a u ht hok hs => inv_faultyStep ht hok hs)

/-- A write to a full queue; and a write, a read whose wait fails, and a read. -/
theorem failed_call_sample :
    ¬ UpFails ⟨⟨fun _ => 0, 2, 1, 0, 1⟩, 1⟩ (.write false (some [7]) true) ∧
      ∃ s, s.read.map Prod.snd = [[1, 2]] ∧ MessagesKept 2 1 (slotBytes ⟨fun _ => 0, 2, 1, 0, 0⟩) s := by
  have hrun : (run (guarded faultyStep UpSucceeds) (init ⟨fun _ => 0, 2, 1, 0, 0⟩)
      [.refused, .plain (.write [1, 2]), .plain (.writer 0), .plain (.writer 0), .plain (.read none),
        .downError 0, .plain (.read none), .plain (.reader 1), .plain (.reader 1)]).map
      (fun s => s.read.map Prod.snd) = some [[1, 2]] := by decide +kernel
  obtain ⟨s, hs, hread⟩ := Option.map_eq_some_iff.mp hrun
  have hcall := failed_call_iff ⟨⟨fun _ => 0, 2, 1, 0, 1⟩, 1⟩ ⟨⟨fun _ => 0, 2, 1, 0, 1⟩, 1⟩
    (.write false (some [7]) true) (fun _ => 0) 1 2 ⟨fun _ => 0, 2, 1, 0, 0⟩ s
    [.refused, .plain (.write [1, 2]), .plain (.writer 0), .plain (.writer 0), .plain (.read none),
      .downError 0, .plain (.read none), .plain (.reader 1), .plain (.reader 1)]
  exact ⟨(hcall.1 rfl).mp rfl, s, hread, hcall.2 rfl (Steps.of_run_guarded hs)⟩

/-- The write of a message whose `up` fails: the message occupies a slot and has no permit. -/
theorem not_failed_call_unchanged : ¬ ∀ (s s' : Shared) (call : Call),
    perform s call = some (false, s') → s' = s := by
  intro h
  have heq := h ⟨⟨fun _ => 0, 2, 1, 0, 0⟩, 0⟩ _ (.write false (some [7]) false) rfl
  exact absurd (congrArg (fun s => s.queue.count) heq) (by decide)

end HisiRiscv.Osal.MsgQueue
