/-
HisiRiscv.Wifi.FrwWorker — starting and stopping the worker thread of `frw.rs`.

`start_worker` spawns a thread, whose first step sets `running`; the thread parks on
`EVENT`, checks `running` and drains the FIFO, again and again. `stop_worker` clears
`running` and releases `EVENT` once. If the thread takes its first step before the store of
`stop_worker`, the stop is final (`stop_final`): the permit that it releases is taken only by a
thread that then leaves its loop. A thread that comes later sets `running` again.

Translation notes. One step is one critical section, one operation on `EVENT`, one
reading of the timers or one call of a handler. The semaphore of `hisi_rf_rtos_driver`
is a number of permits; `down_timeout` may fail at any time, and time out
unless the time is `u32::MAX`. Posts come from any thread and from the handlers. The timers
are what the environment says they are.

History variables: `passes` counts the drain passes that began, `passesAtStop` is their
number when `stop_worker` returned.

  §1 The delay.
  §2 The machine.
  §3 The invariant.
  §4 Main results.
-/
import HisiRiscv.Osal.Timer
import HisiRiscv.Wifi.Frw

namespace HisiRiscv.Wifi.FrwWorker

open HisiRiscv.Machine Osal.Timer Frw

/-! ## §1 The delay -/

/-- Milliseconds until the nearest deadline. -/
def nearest (now : UInt64) (slots : List Slot) : Option ℕ :=
  ((slots.filter fun slot => slot.used && slot.active).map fun slot =>
    slot.deadline.toNat - now.toNat).min?

def forever : UInt32 := 0xffffffff

def nextDelayMs (now : UInt64) (slots : List Slot) : UInt32 :=
  match nearest now slots with
  | none => forever
  | some d => UInt32.ofNat (max 1 (min d 0xffffffff))

/-! ## §2 The machine -/

inductive Worker where
  | absent
  /-- Spawned, before its first step. -/
  | spawned
  /-- Before the reading of the timers. -/
  | resting
  /-- In `down_timeout`. -/
  | parked (delay : UInt32)
  /-- Before the check of `running`. -/
  | woken
  /-- Before `local_timer_timeout_proc`. -/
  | firing
  /-- Before `fifo_pop`. -/
  | draining
  /-- Before the handler is called and the message counted. -/
  | dispatching (node : ℕ)
  | exited
  deriving DecidableEq

inductive Stopper where
  | idle
  /-- Between the store and `up`. -/
  | stored
  | returned
  deriving DecidableEq

structure State where
  frw : FrwState
  running : Bool
  dispatched : UInt32
  permits : ℕ
  /-- posts between their critical section and `up` -/
  posting : ℕ
  started : Bool
  worker : Worker
  stopper : Stopper
  passes : ℕ
  passesAtStop : Option ℕ

def init : State := ⟨frw, false, 0, 0, 0, false, .absent, .idle, 0, none⟩

inductive Action where
  /-- `start_worker`; false if there is no thread. -/
  | start (spawned : Bool)
  /-- The first step of the thread. -/
  | enter
  | delay (now : UInt64) (slots : List Slot)
  | down
  | timeout
  | downFails
  | check
  | fire
  | pop
  | dispatch
  | post (node : ℕ)
  | postUp
  | stopStore
  | stopUp
  deriving DecidableEq

def step (s : State) : Action → Option State
  | .start spawned =>
    if s.started then none
    else some { s with started := true, worker := if spawned then .spawned else .absent }
  | .enter =>
    if s.worker = .spawned then some { s with running := true, worker := .resting } else none
  | .delay now slots =>
    if s.worker = .resting then some { s with worker := .parked (nextDelayMs now slots) } else none
  | .down =>
    match s.worker, s.permits with
    | .parked _, permits + 1 => some { s with permits, worker := .woken }
    | _, _ => none
  | .timeout =>
    match s.worker with
    | .parked delay => if delay = forever then none else some { s with worker := .woken }
    | _ => none
  | .downFails =>
    match s.worker with
    | .parked _ => some { s with worker := .woken }
    | _ => none
  | .check =>
    if s.worker = .woken then
      if s.running then some { s with worker := .firing, passes := s.passes + 1 }
      else some { s with worker := .exited }
    else none
  | .fire => if s.worker = .firing then some { s with worker := .draining } else none
  | .pop =>
    if s.worker = .draining then
      let (node, frw) := fifoPop s.frw
      some { s with frw, worker := if node = 0 then .resting else .dispatching node }
    else none
  | .dispatch =>
    match s.worker with
    | .dispatching _ => some { s with dispatched := s.dispatched + 1, worker := .draining }
    | _ => none
  | .post node =>
    let (ok, frw) := Frw.post s.frw node
    some { s with frw, posting := if ok then s.posting + 1 else s.posting }
  | .postUp =>
    if s.posting = 0 then none
    else some { s with posting := s.posting - 1, permits := s.permits + 1 }
  | .stopStore =>
    if s.started ∧ s.stopper = .idle then some { s with running := false, stopper := .stored }
    else none
  | .stopUp =>
    if s.stopper = .stored then
      some { s with
        permits := s.permits + 1, stopper := .returned, passesAtStop := some s.passes }
    else none

/-! ## §3 The invariant -/

/-- The thread takes its first step before the store of `stop_worker`, or never. -/
def EntersBeforeStop (s : State) (a : Action) : Prop := a = .enter → s.stopper = .idle

instance (s : State) (a : Action) : Decidable (EntersBeforeStop s a) :=
  inferInstanceAs (Decidable (_ → _))

/-- The thread does not need another permit to leave its loop. -/
def Worker.Leaving (worker : Worker) : Prop :=
  worker = .absent ∨ worker = .spawned ∨ worker = .woken ∨ worker = .exited

/-- A step that neither stops nor starts anything, and takes no permit from a thread that does
not leave its loop at the next check. -/
structure Quiet (s t : State) : Prop where
  stopper : t.stopper = s.stopper
  running : t.running = s.running
  passes : t.passes = s.passes
  passesAtStop : t.passesAtStop = s.passesAtStop
  worker : t.worker.Leaving ∨ s.permits ≤ t.permits ∧ (s.worker.Leaving → t.worker.Leaving)

/-- What a step can do, as far as stopping is concerned. -/
inductive Move (s : State) : Action → State → Prop
  | quiet {a : Action} {t : State} : Quiet s t → Move s a t
  | enter : s.worker = .spawned → Move s .enter { s with running := true, worker := .resting }
  | pass : s.worker = .woken → s.running = true →
      Move s .check { s with worker := .firing, passes := s.passes + 1 }
  | stopStore : s.started → s.stopper = .idle →
      Move s .stopStore { s with running := false, stopper := .stored }
  | stopUp : s.stopper = .stored → Move s .stopUp
      { s with permits := s.permits + 1, stopper := .returned, passesAtStop := some s.passes }

variable {s t : State}

theorem leaving_woken : Worker.woken.Leaving := .inr (.inr (.inl rfl))

theorem leaving_exited : Worker.exited.Leaving := .inr (.inr (.inr rfl))

theorem Quiet.of_leaving {worker : Worker} {permits : ℕ} (h : worker.Leaving) :
    Quiet s { s with worker, permits } := ⟨rfl, rfl, rfl, rfl, .inl h⟩

/-- A step within the loop. -/
theorem Quiet.of_inside {worker : Worker} {frw : FrwState} {dispatched : UInt32}
    (h : ¬ s.worker.Leaving) : Quiet s { s with worker, frw, dispatched } :=
  ⟨rfl, rfl, rfl, rfl, .inr ⟨Nat.le_refl _, fun hleaving => absurd hleaving h⟩⟩

/-- A step of a thread that posts. -/
theorem Quiet.of_posting {frw : FrwState} {posting permits : ℕ} (h : s.permits ≤ permits) :
    Quiet s { s with frw, posting, permits } := ⟨rfl, rfl, rfl, rfl, .inr ⟨h, id⟩⟩

theorem step_move {a : Action} (hs : step s a = some t) : Move s a t := by
  cases a with
  | start spawned =>
    simp only [step, Option.ite_none_left_eq_some, Option.some.injEq] at hs
    obtain ⟨-, rfl⟩ := hs
    refine .quiet ⟨rfl, rfl, rfl, rfl, .inl ?_⟩
    cases spawned
    · exact .inl rfl
    · exact .inr (.inl rfl)
  | enter =>
    simp only [step, Option.ite_none_right_eq_some, Option.some.injEq] at hs
    obtain ⟨hworker, rfl⟩ := hs
    exact .enter hworker
  | delay now slots =>
    simp only [step, Option.ite_none_right_eq_some, Option.some.injEq] at hs
    obtain ⟨hworker, rfl⟩ := hs
    exact .quiet (.of_inside (by simp [Worker.Leaving, hworker]))
  | down =>
    simp only [step] at hs
    split at hs
    · cases hs
      exact .quiet (.of_leaving leaving_woken)
    · cases hs
  | timeout =>
    simp only [step] at hs
    split at hs
    · obtain ⟨-, hs⟩ := Option.ite_none_left_eq_some.mp hs
      cases hs
      exact .quiet (.of_leaving leaving_woken)
    · cases hs
  | downFails =>
    simp only [step] at hs
    split at hs
    · cases hs
      exact .quiet (.of_leaving leaving_woken)
    · cases hs
  | check =>
    simp only [step, Option.ite_none_right_eq_some] at hs
    obtain ⟨hworker, hs⟩ := hs
    split at hs
    · rename_i hrunning
      cases hs
      exact .pass hworker hrunning
    · cases hs
      exact .quiet (.of_leaving leaving_exited)
  | fire =>
    simp only [step, Option.ite_none_right_eq_some, Option.some.injEq] at hs
    obtain ⟨hworker, rfl⟩ := hs
    exact .quiet (.of_inside (by simp [Worker.Leaving, hworker]))
  | pop =>
    simp only [step, Option.ite_none_right_eq_some, Option.some.injEq] at hs
    obtain ⟨hworker, rfl⟩ := hs
    exact .quiet (.of_inside (by simp [Worker.Leaving, hworker]))
  | dispatch =>
    simp only [step] at hs
    split at hs
    · rename_i hworker
      cases hs
      exact .quiet (.of_inside (by simp [Worker.Leaving, hworker]))
    · cases hs
  | post node =>
    cases hs
    exact .quiet (.of_posting (Nat.le_refl _))
  | postUp =>
    simp only [step, Option.ite_none_left_eq_some, Option.some.injEq] at hs
    obtain ⟨-, rfl⟩ := hs
    exact .quiet (.of_posting (Nat.le_succ _))
  | stopStore =>
    simp only [step, Option.ite_none_right_eq_some, Option.some.injEq] at hs
    obtain ⟨⟨hstarted, hidle⟩, rfl⟩ := hs
    exact .stopStore hstarted hidle
  | stopUp =>
    simp only [step, Option.ite_none_right_eq_some, Option.some.injEq] at hs
    obtain ⟨hstored, rfl⟩ := hs
    exact .stopUp hstored

structure Inv (s : State) : Prop where
  stopped : s.stopper ≠ .idle → s.running = false
  passes : s.stopper = .returned → s.passesAtStop = some s.passes
  noPasses : s.stopper ≠ .returned → s.passesAtStop = none
  permit : s.stopper = .returned → s.worker.Leaving ∨ 0 < s.permits

theorem inv_init : Inv init := by
  constructor <;> simp [init]

theorem Inv.quiet (h : Inv s) (q : Quiet s t) : Inv t := by
  obtain ⟨stopper, running, passes, passesAtStop, worker⟩ := q
  constructor
  · rw [stopper, running]
    exact h.stopped
  · rw [stopper, passes, passesAtStop]
    exact h.passes
  · rw [stopper, passesAtStop]
    exact h.noPasses
  · rw [stopper]
    intro hreturned
    rcases worker with hleaving | ⟨hpermits, hkept⟩
    · exact .inl hleaving
    · exact (h.permit hreturned).imp hkept fun hpos => Nat.lt_of_lt_of_le hpos hpermits

theorem inv_step {a : Action} (h : Inv s) (ok : EntersBeforeStop s a) (hs : step s a = some t) :
    Inv t := by
  cases step_move hs with
  | quiet q => exact h.quiet q
  | enter hworker =>
    have hidle := ok rfl
    constructor <;> simp [hidle, h.noPasses]
  | pass hworker hrunning =>
    have hidle : s.stopper = .idle := by
      by_contra hne
      rw [h.stopped hne] at hrunning
      cases hrunning
    constructor <;> simp [hidle, h.noPasses]
  | stopStore hstarted hidle => constructor <;> simp [hidle, h.noPasses]
  | stopUp hstored =>
    have hrunning := h.stopped (by rw [hstored]; decide)
    constructor <;> simp [hrunning]

/-! ## §4 Main results -/

/-- After `stop_worker` has returned, no pass has begun since, `running` is false, and the
thread does not wait for a permit that nobody has released. -/
def StopIsFinal (s : State) : Prop :=
  ∀ n, s.passesAtStop = some n → s.passes = n ∧ s.running = false ∧
    ∀ delay, s.worker = .parked delay → 0 < s.permits

theorem Inv.stopIsFinal (h : Inv s) : StopIsFinal s := by
  intro n hn
  have hreturned : s.stopper = .returned := by
    by_contra hne
    rw [h.noPasses hne] at hn
    cases hn
  have hpasses := h.passes hreturned
  rw [hn] at hpasses
  refine ⟨(Option.some.inj hpasses).symm, h.stopped (by rw [hreturned]; decide), ?_⟩
  intro delay hparked
  exact (h.permit hreturned).resolve_left (by simp [Worker.Leaving, hparked])

/-- In every run in which the thread takes its first step before the store of `stop_worker`, or
never. -/
theorem stop_final {acts : List Action} (h : Steps step EntersBeforeStop init acts s) :
    StopIsFinal s :=
  (h.invariant inv_init fun _ _ _ hI ok hs => inv_step hI ok hs).stopIsFinal

/-- The worker drains a message, is stopped and leaves. -/
def promptRun : List Action :=
  [.start true, .enter, .post 1000, .postUp, .delay 5 [], .down, .check, .fire, .pop, .dispatch,
    .pop, .delay 5 [], .stopStore, .stopUp, .down, .check]

theorem stop_final_prompt : ∃ s, s.worker = .exited ∧ s.passesAtStop = some 1 ∧ StopIsFinal s := by
  have hrun : (run (guarded step EntersBeforeStop) init promptRun).map
      (fun s => (s.worker, s.passesAtStop)) = some (.exited, some 1) := by decide +kernel
  obtain ⟨s, hs, hlast⟩ := Option.map_eq_some_iff.mp hrun
  obtain ⟨hworker, hpasses⟩ := Prod.mk.inj hlast
  exact ⟨s, hworker, hpasses, stop_final (Steps.of_run_guarded hs)⟩

/-- The thread is scheduled for the first time after `stop_worker`. -/
def lateRun : List Action :=
  [.start true, .stopStore, .stopUp, .enter, .delay 5 [], .down, .check, .fire, .pop, .delay 5 []]

theorem not_stop_final : ¬ ∀ acts s, Steps step Always init acts s → StopIsFinal s := by
  intro h
  have hrun : (run step init lateRun).map (fun s => (s.worker, s.permits, s.passesAtStop)) =
      some (.parked forever, 0, some 0) := by decide +kernel
  obtain ⟨s, hs, hlast⟩ := Option.map_eq_some_iff.mp hrun
  obtain ⟨hworker, hrest⟩ := Prod.mk.inj hlast
  obtain ⟨hpermits, hpasses⟩ := Prod.mk.inj hrest
  have law := (h lateRun s (Steps.of_run hs) 0 hpasses).2.2 forever hworker
  rw [hpermits] at law
  exact absurd law (Nat.lt_irrefl 0)

end HisiRiscv.Wifi.FrwWorker
