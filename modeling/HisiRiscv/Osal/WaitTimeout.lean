/-
HisiRiscv.Osal.WaitTimeout — what `osal_wait_timeout_interruptible` of `osal_wait.rs` returns.

One call against everything around it: the shared state that the predicate reads changes at
any time, the clock goes on, and each wait on the semaphore ends by a wakeup, by a timeout or
in an error. The result is told from the last iteration of the loop: 0 where the predicate did
not hold and the deadline had come, and the time that remains where it held.

Translation notes. The environment answers by iteration: the shared state of its evaluation,
the reading of the clock in it (the reading before the loop is number 0), and the end of its
wait. The number of iterations is fuel; a call that goes on is none. The
deadline is a `saturating_add`, so at the end of the 64 bits it comes early.

  §1 One call.
  §2 The loop.
  §3 Main results.
-/
import HisiRiscv.Osal.Wait

namespace HisiRiscv.Osal.Wait

/-! ## §1 One call -/

/-- How `down_timeout` ends. -/
inductive DownOutcome where
  | wakeup
  | timedOut
  | error
  deriving DecidableEq

structure Environment (S : Type*) where
  /-- the shared state at an evaluation of the predicate -/
  shared : ℕ → S
  clock : ℕ → UInt64
  down : ℕ → DownOutcome

/-- An iteration of the loop: what the predicate said, the reading of the clock after it, and
the time given to `down_timeout`. -/
structure Iteration where
  value : Int32
  now : Option UInt64
  blocked : Option UInt32
  deriving DecidableEq

variable {S : Type*}

/-- The loop, from iteration `k` on: the result and the iterations. -/
def timeoutLoop (env : Environment S) (predicate : S → Int32) (forever : Bool) (deadline : UInt64) :
    ℕ → ℕ → Option (Int32 × List Iteration)
  | 0, _ => none
  | fuel + 1, k =>
    let value := predicate (env.shared k)
    let now := env.clock (k + 1)
    let block := fun (now : Option UInt64) (remaining : UInt32) =>
      let iteration : Iteration := ⟨value, now, some remaining⟩
      if env.down k = .error then some (osalFailure, [iteration])
      else (timeoutLoop env predicate forever deadline fuel (k + 1)).map fun r =>
        (r.1, iteration :: r.2)
    if value ≠ 0 then some (waitSuccessResult forever deadline now, [⟨value, some now, none⟩])
    else if forever then block none 0xffffffff
    else if deadline ≤ now then some (0, [⟨value, some now, none⟩])
    else block (some now) (UInt32.ofNat (min (deadline.toNat - now.toNat) 0xffffffff))

/-- `start.saturating_add(timeout_ms)`. -/
def deadlineOf (start : UInt64) (timeoutMs : UInt32) : UInt64 :=
  UInt64.ofNat (min (start.toNat + timeoutMs.toNat) (2 ^ 64 - 1))

def osalWaitTimeoutInterruptible (env : Environment S) (semNull : Bool) (func : Option (S → Int32))
    (timeoutMs : UInt32) (fuel : ℕ) : Option (Int32 × List Iteration) :=
  let forever := isForever timeoutMs
  if semNull then some (osalFailure, [])
  else if !forever ∧ 2147483647 < timeoutMs.toNat then some (osalFailure, [])
  else
    match func with
    | none => some (if forever then 2147483647 else timeoutMs.toInt32, [])
    | some predicate =>
        if timeoutMs = 0 then
          let value := predicate (env.shared 0)
          some (if value ≠ 0 then 1 else 0, [⟨value, none, none⟩])
        else timeoutLoop env predicate forever (deadlineOf (env.clock 0) timeoutMs) fuel 0

/-! ## §2 The loop -/

/-- What a loop with a deadline returns. -/
structure LoopLaw (start deadline : ℕ) (result : Int32) (iterations : List Iteration) : Prop where
  /-- 0 is a predicate that did not hold, and then a clock at the deadline -/
  zero : result = 0 → ∃ last ∈ iterations.getLast?, last.value = 0 ∧
    ∃ now ∈ last.now, deadline ≤ now.toNat
  /-- what is positive is the time that remained when the predicate held, or 1 -/
  positive : 0 < result.toInt → ∃ last ∈ iterations.getLast?, last.value ≠ 0 ∧
    ∃ now ∈ last.now, start ≤ now.toNat ∧ result.toInt = max 1 (deadline - now.toNat : ℤ)
  /-- no wait is longer than what remains -/
  blocks : ∀ iteration ∈ iterations, ∀ remaining ∈ iteration.blocked,
    ∃ now ∈ iteration.now, remaining.toNat + now.toNat ≤ deadline

theorem toInt_waitSuccessResult (deadline now : UInt64) (h : deadline.toNat ≤ now.toNat + 2147483647) :
    (waitSuccessResult false deadline now).toInt = max 1 (deadline.toNat - now.toNat : ℤ) := by
  have hint : (waitSuccessResult false deadline now).toInt =
      ((max 1 (min (deadline.toNat - now.toNat) 2147483647) : ℕ) : ℤ) :=
    Int32.toInt_ofNat_of_lt (show _ < 2147483648 by omega)
  rw [hint]
  omega

theorem toNat_remaining (n : ℕ) : (UInt32.ofNat (min n 0xffffffff)).toNat = min n 0xffffffff :=
  UInt32.toNat_ofNat_of_lt' (show _ < 4294967296 by omega)

theorem getLast?_cons_of_some {α : Type*} {a last : α} {l : List α} (h : last ∈ l.getLast?) :
    last ∈ (a :: l).getLast? := by
  cases l with
  | nil => cases h
  | cons b l => rwa [List.getLast?_cons_cons]

theorem LoopLaw.cons {start deadline : ℕ} {result : Int32} {iterations : List Iteration}
    (h : LoopLaw start deadline result iterations) {iteration : Iteration}
    (hblock : ∀ remaining ∈ iteration.blocked, ∃ now ∈ iteration.now,
      remaining.toNat + now.toNat ≤ deadline) :
    LoopLaw start deadline result (iteration :: iterations) where
  zero := by
    intro hzero
    obtain ⟨last, hlast, hrest⟩ := h.zero hzero
    exact ⟨last, getLast?_cons_of_some hlast, hrest⟩
  positive := by
    intro hpos
    obtain ⟨last, hlast, hrest⟩ := h.positive hpos
    exact ⟨last, getLast?_cons_of_some hlast, hrest⟩
  blocks := by
    intro other hmem
    obtain rfl | hmem := List.mem_cons.mp hmem
    · exact hblock
    · exact h.blocks other hmem

theorem remaining_le {value : Int32} {deadline now : UInt64} (hcome : ¬ deadline ≤ now) :
    ∀ remaining ∈ (Iteration.mk value (some now)
      (some (UInt32.ofNat (min (deadline.toNat - now.toNat) 0xffffffff)))).blocked,
      ∃ reading ∈ (some now : Option UInt64), remaining.toNat + reading.toNat ≤ deadline.toNat := by
  intro remaining hremaining
  obtain rfl := Option.some_inj.mp hremaining
  have hlt : now.toNat < deadline.toNat := UInt64.not_le.mp hcome
  exact ⟨now, rfl, by rw [toNat_remaining]; omega⟩

theorem loopLaw_timeoutLoop {env : Environment S} {predicate : S → Int32} {deadline : UInt64}
    {start : ℕ} (hclock : ∀ k, start ≤ (env.clock k).toNat)
    (hdeadline : deadline.toNat ≤ start + 2147483647) {fuel k : ℕ} {result : Int32}
    {iterations : List Iteration}
    (h : timeoutLoop env predicate false deadline fuel k = some (result, iterations)) :
    LoopLaw start deadline.toNat result iterations := by
  induction fuel generalizing k result iterations with
  | zero => cases h
  | succ fuel ih =>
    have hnow := hclock (k + 1)
    simp only [timeoutLoop, Bool.false_eq_true, if_false] at h
    split_ifs at h with hvalue hcome herror
    · cases h
      refine ⟨?_, fun _ => ⟨_, rfl, hvalue, _, rfl, hnow, ?_⟩, by simp⟩
      · intro hzero
        have hpos := toInt_waitSuccessResult deadline (env.clock (k + 1)) (by omega)
        rw [hzero, Int32.toInt_zero] at hpos
        omega
      · exact toInt_waitSuccessResult deadline (env.clock (k + 1)) (by omega)
    · cases h
      exact ⟨fun _ => ⟨_, rfl, not_not.mp hvalue, _, rfl, hcome⟩, nofun, by simp⟩
    · cases h
      refine ⟨nofun, nofun, ?_⟩
      intro iteration hmem
      obtain rfl := List.mem_singleton.mp hmem
      exact remaining_le hcome
    · obtain ⟨⟨result', iterations'⟩, hloop, heq⟩ := Option.map_eq_some_iff.mp h
      cases heq
      exact (ih hloop).cons (remaining_le hcome)

/-- The loop returns once the predicate holds, the deadline has come or a wait fails. -/
theorem exists_result (env : Environment S) (predicate : S → Int32) (deadline : UInt64) {n k : ℕ}
    (h : predicate (env.shared (k + n)) ≠ 0 ∨ deadline ≤ env.clock (k + n + 1) ∨
      env.down (k + n) = .error) :
    ∃ r, timeoutLoop env predicate false deadline (n + 1) k = some r := by
  induction n generalizing k with
  | zero =>
    rw [Nat.add_zero] at h
    simp only [timeoutLoop, Bool.false_eq_true, if_false]
    split_ifs with hvalue hcome herror
    · exact ⟨_, rfl⟩
    · exact ⟨_, rfl⟩
    · exact ⟨_, rfl⟩
    · obtain h | h | h := h
      · exact absurd h hvalue
      · exact absurd h hcome
      · exact absurd h herror
  | succ n ih =>
    obtain ⟨r, hr⟩ := ih (k := k + 1) (by rwa [Nat.add_right_comm k 1 n])
    rw [timeoutLoop]
    simp only [Bool.false_eq_true, if_false, hr]
    split_ifs <;> exact ⟨_, rfl⟩

/-! ## §3 Main results -/

/-- What the call returns, with a deadline. -/
structure TimeoutLaw (start deadline : ℕ) (timeoutMs : UInt32) (result : Int32)
    (iterations : List Iteration) : Prop extends LoopLaw start deadline result iterations where
  /-- a positive result is at most the timeout, or 1 -/
  result_le : 0 < result.toInt → result.toInt ≤ max 1 timeoutMs.toNat

theorem isForever_iff {timeoutMs : UInt32} : isForever timeoutMs = true ↔ timeoutMs = 0xffffffff :=
  beq_iff_eq

theorem toNat_deadlineOf (start : UInt64) (timeoutMs : UInt32) :
    (deadlineOf start timeoutMs).toNat = min (start.toNat + timeoutMs.toNat) (2 ^ 64 - 1) :=
  UInt64.toNat_ofNat_of_lt' (show _ < 2 ^ 64 by omega)

/-- A wait without an end never returns 0. -/
theorem forever_ne_zero {env : Environment S} {predicate : S → Int32} {deadline : UInt64}
    {fuel k : ℕ} {result : Int32} {iterations : List Iteration}
    (h : timeoutLoop env predicate true deadline fuel k = some (result, iterations)) : result ≠ 0 := by
  induction fuel generalizing k result iterations with
  | zero => cases h
  | succ fuel ih =>
    simp only [timeoutLoop, if_true] at h
    split_ifs at h with hvalue herror
    · cases h
      exact show (1 : Int32) ≠ 0 by decide
    · cases h
      decide
    · obtain ⟨⟨result', iterations'⟩, hloop, heq⟩ := Option.map_eq_some_iff.mp h
      cases heq
      exact ih hloop

/-- **What a timed wait returns**, for every predicate over a state that changes, every clock that
does not go back, and every end of its waits. The deadline is the start and the timeout,
but within 64 bits. -/
theorem wait_timeout_law {env : Environment S} (hclock : ∀ k, env.clock 0 ≤ env.clock k)
    (predicate : S → Int32) (timeoutMs : UInt32) (fuel : ℕ) {result : Int32}
    {iterations : List Iteration} (h : osalWaitTimeoutInterruptible env false (some predicate)
      timeoutMs fuel = some (result, iterations)) :
    (1 ≤ timeoutMs.toNat → timeoutMs.toNat ≤ 2147483647 →
      TimeoutLaw (env.clock 0).toNat (min ((env.clock 0).toNat + timeoutMs.toNat) (2 ^ 64 - 1))
        timeoutMs result iterations) ∧
    (timeoutMs = 0xffffffff → result ≠ 0) := by
  refine ⟨?_, ?_⟩
  · intro hmin hmax
    have hforever : isForever timeoutMs = false := by
      refine Bool.eq_false_iff.mpr fun hforever => ?_
      rw [isForever_iff.mp hforever] at hmax
      exact absurd hmax (by decide)
    have hzero : timeoutMs ≠ 0 := by
      rintro rfl
      cases hmin
    rw [osalWaitTimeoutInterruptible, if_neg (by decide), if_neg (by omega)] at h
    dsimp only at h
    rw [if_neg hzero, hforever] at h
    have hstart : ∀ k, (env.clock 0).toNat ≤ (env.clock k).toNat :=
      fun k => UInt64.le_iff_toNat_le.mp (hclock k)
    have hlaw := loopLaw_timeoutLoop hstart (by rw [toNat_deadlineOf]; omega) h
    rw [toNat_deadlineOf] at hlaw
    refine ⟨hlaw, ?_⟩
    intro hpos
    obtain ⟨last, -, -, now, -, hstart, hresult⟩ := hlaw.positive hpos
    omega
  · rintro rfl
    rw [osalWaitTimeoutInterruptible, if_neg (by decide), if_neg (by decide)] at h
    exact forever_ne_zero h

/-- A clock that is read five times. -/
def sampleClock (start : UInt64) (k : ℕ) : UInt64 := start + if k ≤ 1 then 0 else if k = 2 then 1 else 4

/-- A predicate that holds at its third evaluation, after a timeout. -/
def sampleEnvironment (start : UInt64) : Environment ℕ := ⟨id, sampleClock start, fun _ => .timedOut⟩

def atThird (n : ℕ) : Int32 := if n = 2 then 1 else 0

theorem wait_timeout_law_sample : TimeoutLaw 100 150 50 46
    [⟨0, some 100, some 50⟩, ⟨0, some 101, some 49⟩, ⟨1, some 104, none⟩] := by
  have hclock : ∀ k, sampleClock 100 0 ≤ sampleClock 100 k := by
    intro k
    show sampleClock 100 0 ≤ 100 + if k ≤ 1 then 0 else if k = 2 then 1 else 4
    split_ifs <;> decide
  have hrun : osalWaitTimeoutInterruptible (sampleEnvironment 100) false (some atThird) 50 3 =
      some (46, [⟨0, some 100, some 50⟩, ⟨0, some 101, some 49⟩, ⟨1, some 104, none⟩]) := by decide
  exact (wait_timeout_law hclock atThird 50 3 hrun).1 (by decide) (by decide)

/-- Near the end of the 64 bits the call returns 0 after 4 ms of 10. -/
theorem not_wait_timeout_law : ¬ ∀ (env : Environment ℕ), (∀ k, env.clock 0 ≤ env.clock k) →
    ∀ (predicate : ℕ → Int32) (timeoutMs : UInt32) (fuel : ℕ) (result : Int32)
      (iterations : List Iteration), osalWaitTimeoutInterruptible env false (some predicate)
        timeoutMs fuel = some (result, iterations) →
      1 ≤ timeoutMs.toNat → timeoutMs.toNat ≤ 2147483647 →
      TimeoutLaw (env.clock 0).toNat ((env.clock 0).toNat + timeoutMs.toNat) timeoutMs result
        iterations := by
  intro h
  have hclock : ∀ k, sampleClock 0xfffffffffffffffb 0 ≤ sampleClock 0xfffffffffffffffb k := by
    intro k
    show sampleClock 0xfffffffffffffffb 0 ≤
      0xfffffffffffffffb + if k ≤ 1 then 0 else if k = 2 then 1 else 4
    split_ifs <;> decide
  have hlaw := h (sampleEnvironment 0xfffffffffffffffb) hclock (fun _ => 0) 10 3 0
    [⟨0, some 0xfffffffffffffffb, some 4⟩, ⟨0, some 0xfffffffffffffffc, some 3⟩,
      ⟨0, some 0xffffffffffffffff, none⟩] (by decide) (by decide) (by decide)
  obtain ⟨last, hlast, -, now, hnow, hdeadline⟩ := hlaw.zero rfl
  have hlt := now.toNat_lt
  exact absurd (Nat.lt_of_le_of_lt hdeadline hlt) (by decide)

end HisiRiscv.Osal.Wait
