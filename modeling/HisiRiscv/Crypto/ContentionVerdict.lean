/-
HisiRiscv.Crypto.ContentionVerdict — what the verdict of the contention
self test says.

A test reads the observation and the two results after both tasks have
signalled, and a task stores its result before it signals. So a test that
returns `Ok` has read final values: both tasks have succeeded, the holder
has seen the waiter come while it held the service, and the waiter has
found it releasing.

  §1 The invariant.
  §2 Steps.
  §3 Main result.
-/
import HisiRiscv.Crypto.ContentionOrder

namespace HisiRiscv.Crypto.Contention

open HisiRiscv.Machine
open HisiRiscv.Ledger
open Service (CryptoError Result failed)
open Semaphore (usable permitsOf)
open State

/-! ## §1 The invariant -/

def Tail.result : Tail → Result
  | completing result | storing result | signalling result | finished result => result

/-- The result that is in the context. -/
def Tail.stored : Tail → Option Result
  | signalling result | finished result => some result
  | completing _ | storing _ => none

def Holder.stored (h : Holder) : Option Result :=
  match h.pc with
  | .tail t => t.stored
  | .entered | .calling | .yielding | .checking | .observing | .hashing | .releasing _ _ | .leaving =>
      none

def Waiter.stored (w : Waiter) : Option Result :=
  match w.pc with
  | .tail t => t.stored
  | .entered | .attempting | .arrived | .calling | .comparing _ => none

/-- The waiter has succeeded. -/
def Waiter.succeeded (w : Waiter) : Bool :=
  match w.pc with
  | .tail t => !failed t.result
  | .entered | .attempting | .arrived | .calling | .comparing _ => false

/-- How many of the three loads a test has passed. -/
def Test.loaded (t : Test) : Nat :=
  match t.pc with
  | .loadingHolder => 1
  | .loadingWaiter => 2
  | .succeeding | .returned (.ok ()) => 3
  | _ => 0

/-- The flags and results of the context are those of the tasks. -/
structure Told (codeOf : CryptoError → UInt32) (c : Context) (hs : List Holder) (ws : List Waiter) :
    Prop where
  holder : ∀ h ∈ hs, ∀ result, h.stored = some result → c.holderResult = code codeOf result
  waiter : ∀ w ∈ ws, ∀ result, w.stored = some result → c.waiterResult = code codeOf result
  succeeded : ∀ w ∈ ws, w.succeeded = true → c.holderReleasing ≠ 0
  observing : ∀ h ∈ hs, h.pc = .observing → c.waiterAttempted ≠ 0
  observed : c.contentionObserved ≠ 0 → c.waiterAttempted ≠ 0

/-- What a test has read is what the context says. -/
def Read (c : Context) (t : Test) : Prop :=
  (1 ≤ t.loaded → c.contentionObserved ≠ 0) ∧ (2 ≤ t.loaded → c.holderResult = 0) ∧
    (3 ≤ t.loaded → c.waiterResult = 0)

structure Verdict (codeOf : CryptoError → UInt32) (s : State) : Prop where
  told : ∀ c, s.context = some c → Told codeOf c s.holders s.waiters
  read : ∀ c, s.context = some c → ∀ t ∈ s.tests, Read c t

theorem verdict_init (codeOf : CryptoError → UInt32) : Verdict codeOf init :=
  ⟨fun _ h => (nomatch h), fun _ h => (nomatch h)⟩

theorem read_of_unloaded {c : Context} {t : Test} (h : t.loaded = 0) : Read c t := by
  unfold Read
  omega

/-- A test that reads has taken two signals, so no task is left. -/
theorem unloaded_of_live {s : State} (hinv : Inv s)
    (hlt : overs s.holders s.waiters < s.holders.length + s.waiters.length) {t : Test}
    (ht : t ∈ s.tests) : t.loaded = 0 := by
  have hwf := hinv.wf t ht
  unfold Test.Wf at hwf
  obtain ⟨i, hi⟩ := List.mem_iff_getElem?.mp ht
  have hnone : t.won = true → t.taken = 2 → False := by
    intro hwon htaken
    have := ((hinv.tasks_of_won hi hwon).settled htaken).1
    omega
  unfold Test.loaded
  split <;> rename_i hpc
  · rw [hpc] at hwf
    exact (hnone hwf.1 hwf.2.1).elim
  · rw [hpc] at hwf
    exact (hnone hwf.1 hwf.2.1).elim
  · rw [hpc] at hwf
    exact (hnone hwf.1 hwf.2.1).elim
  · rw [hpc] at hwf
    exact (hnone hwf.1 hwf.2.1).elim
  · rfl

/-! ## §2 Steps -/

/-- A step of a task that is not over: only the context and the tasks matter. -/
theorem Verdict.task {codeOf : CryptoError → UInt32} {s s' : State} (hinv : Inv s)
    (hlt : overs s.holders s.waiters < s.holders.length + s.waiters.length)
    (htold : ∀ c, s'.context = some c → Told codeOf c s'.holders s'.waiters)
    (htests : ∀ t' ∈ s'.tests, ∃ t ∈ s.tests, t'.loaded = t.loaded) : Verdict codeOf s' := by
  refine ⟨htold, fun c hc t' ht' => ?_⟩
  obtain ⟨t, ht, heq⟩ := htests t' ht'
  exact read_of_unloaded (heq.trans (unloaded_of_live hinv hlt ht))

theorem loaded_put (t : Test) (role : Role) (sem : Option Semaphore) :
    (t.put role sem).loaded = t.loaded := by
  cases role <;> rfl

theorem tests_touch (s : State) (handle : Handle) (sem : Option Semaphore) :
    (s.touch handle sem).tests = s.tests := by
  unfold State.touch
  split_ifs <;> rfl

theorem loaded_up {s : State} {handle : Handle} {reply : Reply} {t' : Test}
    (h : t' ∈ (s.up handle reply).tests) : ∃ t ∈ s.tests, t'.loaded = t.loaded := by
  unfold State.up at h
  split at h
  · rename_i t ht
    rcases mem_set_cases h with rfl | h
    · exact ⟨t, List.mem_of_getElem? ht, loaded_put ..⟩
    · rw [tests_touch] at h
      exact ⟨t', h, rfl⟩
  · rw [tests_touch] at h
    exact ⟨t', h, rfl⟩

theorem loaded_down {s s' : State} {handle : Handle} {reply : Reply}
    (hs : s.down handle reply = some s') {t' : Test} (h : t' ∈ s'.tests) :
    ∃ t ∈ s.tests, t'.loaded = t.loaded := by
  unfold State.down at hs
  split at hs
  · rename_i t ht
    obtain ⟨sem, -, rfl⟩ := Option.map_eq_some_iff.mp hs
    rcases mem_set_cases h with rfl | h
    · exact ⟨t, List.mem_of_getElem? ht, loaded_put ..⟩
    · rw [tests_touch] at h
      exact ⟨t', h, rfl⟩
  · cases hs
    rw [tests_touch] at h
    exact ⟨t', h, rfl⟩

/-- The only holder goes to a place where it has stored nothing. -/
theorem Told.goHolder {codeOf : CryptoError → UInt32} {c : Context} {hd : Holder}
    {ws : List Waiter} (h : Told codeOf c [hd] ws) (hd' : Holder) (hstored : hd'.stored = none)
    (hobserving : hd'.pc = .observing → c.waiterAttempted ≠ 0) : Told codeOf c [hd'] ws where
  holder d hd₁ result hresult := by
    rw [List.mem_singleton.mp hd₁, hstored] at hresult
    cases hresult
  waiter := h.waiter
  succeeded := h.succeeded
  observing d hd₁ hpc := by
    rw [List.mem_singleton.mp hd₁] at hpc
    exact hobserving hpc
  observed := h.observed

/-- The only waiter goes to a place where it has stored nothing. -/
theorem Told.goWaiter {codeOf : CryptoError → UInt32} {c : Context} {hs : List Holder} {w : Waiter}
    (h : Told codeOf c hs [w]) (w' : Waiter) (hstored : w'.stored = none)
    (hsucceeded : w'.succeeded = true → c.holderReleasing ≠ 0) : Told codeOf c hs [w'] where
  holder := h.holder
  waiter d hd₁ result hresult := by
    rw [List.mem_singleton.mp hd₁, hstored] at hresult
    cases hresult
  succeeded d hd₁ hd₂ := by
    rw [List.mem_singleton.mp hd₁] at hd₂
    exact hsucceeded hd₂
  observing := h.observing
  observed := h.observed

/-- The holder goes on without the context. -/
theorem Verdict.placeHolder {codeOf : CryptoError → UInt32} {s s' : State} (h : Verdict codeOf s)
    (hinv : Inv s) {hd : Holder} (hd' : Holder) (hone : s.holders = [hd]) (hover : hd.over = false)
    (hone' : s'.holders = [hd']) (hwaiters : s'.waiters = s.waiters)
    (hcontext : s'.context = s.context) (hstored : hd'.stored = none)
    (hobserving : hd'.pc = .observing → ∀ c, s.context = some c → c.waiterAttempted ≠ 0)
    (htests : ∀ t' ∈ s'.tests, ∃ t ∈ s.tests, t'.loaded = t.loaded) : Verdict codeOf s' := by
  refine Verdict.task hinv (overs_lt_of_holder (i := 0) (by rw [hone]; rfl) hover) (fun c hc => ?_) htests
  rw [hcontext] at hc
  have htold := h.told c hc
  rw [hone] at htold
  rw [hone', hwaiters]
  exact htold.goHolder hd' hstored fun hpc => hobserving hpc c hc

theorem Verdict.answerHolder {codeOf : CryptoError → UInt32} {s s' : State} (h : Verdict codeOf s)
    (hinv : Inv s) {hd : Holder} (hone : s.holders = [hd]) (hover : hd.over = false) {k : Nat}
    {result : Result} (hs : s.answerHolder 0 hd k result = some s') : Verdict codeOf s' := by
  obtain ⟨s₁, hs₁, rfl⟩ := Option.map_eq_some_iff.mp hs
  obtain ⟨sv', -, rfl⟩ := Option.map_eq_some_iff.mp hs₁
  exact h.placeHolder hinv { hd with pc := .leaving, closure := some result } hone hover
    (by rw [State.gotoHolder, hone]; rfl) rfl rfl rfl (fun hpc => (by cases hpc)) fun t' ht' => ⟨t', ht', rfl⟩

/-- A live task changes the context. -/
theorem Verdict.updateContext {codeOf : CryptoError → UInt32} {s : State} (h : Verdict codeOf s)
    (hinv : Inv s) (hlt : overs s.holders s.waiters < s.holders.length + s.waiters.length)
    {f : Context → Context}
    (hf : ∀ c, Told codeOf c s.holders s.waiters → Told codeOf (f c) s.holders s.waiters) :
    Verdict codeOf (s.updateContext f) := by
  refine Verdict.task hinv hlt (fun c hc => ?_) fun t' ht' => ⟨t', ht', rfl⟩
  obtain ⟨c', hc', rfl⟩ := Option.map_eq_some_iff.mp hc
  exact hf c' (h.told c' hc')

theorem Verdict.stepHolder {codeOf : CryptoError → UInt32} {s s' : State} (h : Verdict codeOf s)
    (hinv : Inv s) {i : Nat} {reply : Reply} {hd : Holder} (hi : s.holders[i]? = some hd)
    (hs : s.stepHolder codeOf i reply hd = some s') : Verdict codeOf s' := by
  obtain ⟨hone, rfl⟩ := eq_singleton hinv.lengths.1 hi
  have hset : ∀ hd', (s.gotoHolder 0 hd').holders = [hd'] := by
    intro hd'
    rw [State.gotoHolder, hone]
    rfl
  have hsame : ∀ t' ∈ s.tests, ∃ t ∈ s.tests, t'.loaded = t.loaded := fun t' ht' => ⟨t', ht', rfl⟩
  unfold State.stepHolder at hs
  split at hs
  · rename_i hpc
    obtain ⟨s₁, hs₁, rfl⟩ := Option.map_eq_some_iff.mp hs
    obtain ⟨sv', -, rfl⟩ := Option.map_eq_some_iff.mp hs₁
    exact h.placeHolder hinv _ hone (by rw [Holder.over, hpc]) (hset _) rfl rfl rfl (by simp) hsame
  · rename_i k hpc hk
    have hover : hd.over = false := by rw [Holder.over, hpc]
    split at hs
    · cases hs
      exact h.placeHolder hinv _ hone hover (hset _) rfl rfl rfl (by simp) hsame
    · split_ifs at hs
      split at hs
      · rename_i c hc
        cases hs
        refine h.placeHolder hinv { hd with pc := .yielding, raised := true } hone hover ?_ (tasks_up ..).2 (service_up ..).2 rfl (by simp)
          fun t' ht' => loaded_up ht'
        rw [State.gotoHolder, (tasks_up ..).1, hone]
        rfl
      · rename_i c _ hc
        obtain ⟨s₁, hs₁, rfl⟩ := Option.map_eq_some_iff.mp hs
        obtain ⟨sv', -, rfl⟩ := Option.map_eq_some_iff.mp hs₁
        refine h.placeHolder hinv
          { hd with pc := .leaving, closure := some (.error (contentionRuntimeError 1)) } hone hover ?_
          (tasks_up ..).2 (service_up ..).2 rfl (by simp) fun t' ht' => loaded_up ht'
        rw [State.gotoHolder, show ({ s.up _ _ with service := sv' } : State).holders = _ from
          (tasks_up ..).1, hone]
        rfl
      · cases hs
  · rename_i k hpc hk
    have hover : hd.over = false := by rw [Holder.over, hpc]
    split at hs
    · cases hs
      exact h.placeHolder hinv _ hone hover (hset _) rfl rfl rfl (by simp) hsame
    · exact h.answerHolder hinv hone hover hs
    · exact h.answerHolder hinv hone hover hs
  · rename_i k hpc hk
    have hover : hd.over = false := by rw [Holder.over, hpc]
    obtain ⟨value, hvalue, hs⟩ := Option.bind_eq_some_iff.mp hs
    split_ifs at hs with hzero
    · exact h.answerHolder hinv hone hover hs
    · cases hs
      refine h.placeHolder hinv _ hone hover (hset _) rfl rfl rfl (fun _ c hc => ?_) hsame
      rw [State.load, hc, Option.map_some, Option.some_inj] at hvalue
      rwa [hvalue]
  · rename_i k hpc hk
    have hover : hd.over = false := by rw [Holder.over, hpc]
    cases hs
    refine Verdict.task hinv (overs_lt_of_holder hi hover) (fun c hc => ?_) hsame
    obtain ⟨c', hc', rfl⟩ := Option.map_eq_some_iff.mp hc
    have htold := h.told c' hc'
    have hattempted := htold.observing hd (List.mem_of_getElem? hi) hpc
    rw [hone] at htold
    have hgone := htold.goHolder { hd with pc := .hashing } rfl fun hfalse => (by cases hfalse)
    show Told codeOf _ (s.holders.set 0 _) s.waiters
    rw [hone]
    exact ⟨hgone.holder, hgone.waiter, hgone.succeeded, hgone.observing, fun _ => hattempted⟩
  · rename_i result sameDigest k hpc hk
    have hover : hd.over = false := by rw [Holder.over, hpc]
    obtain ⟨s₁, hs₁, rfl⟩ := Option.map_eq_some_iff.mp hs
    obtain ⟨sv', -, rfl⟩ := Option.map_eq_some_iff.mp hs₁
    refine Verdict.task hinv (overs_lt_of_holder hi hover) (fun c hc => ?_) hsame
    obtain ⟨c', hc', rfl⟩ := Option.map_eq_some_iff.mp hc
    have htold := h.told c' hc'
    rw [hone] at htold
    show Told codeOf _ (s.holders.set 0 _) s.waiters
    rw [hone]
    refine ⟨fun d hd₁ r hr => ?_, htold.waiter, fun _ _ _ => one_ne_zero, fun d hd₁ hpc' => ?_,
      htold.observed⟩
    · rw [List.mem_singleton.mp hd₁] at hr
      cases hr
    · rw [List.mem_singleton.mp hd₁] at hpc'
      cases hpc'
  · rename_i k hpc hk
    have hover : hd.over = false := by rw [Holder.over, hpc]
    obtain ⟨result, -, rfl⟩ := Option.map_eq_some_iff.mp hs
    exact h.placeHolder hinv _ hone hover (hset _) rfl rfl rfl (by simp) hsame
  · rename_i t hpc
    obtain ⟨⟨s₁, t'⟩, hs₁, rfl⟩ := Option.map_eq_some_iff.mp hs
    cases t with
    | completing result =>
      have hover : hd.over = false := by rw [Holder.over, hpc]; rfl
      cases hs₁
      dsimp only
      split_ifs
      · exact h.placeHolder hinv _ hone hover (hset _) rfl rfl rfl (by simp) hsame
      · exact h.placeHolder hinv _ hone hover (hset _) rfl rfl rfl (by simp) hsame
    | storing result =>
      have hover : hd.over = false := by rw [Holder.over, hpc]; rfl
      cases hs₁
      refine Verdict.task hinv (overs_lt_of_holder hi hover) (fun c hc => ?_) hsame
      obtain ⟨c', hc', rfl⟩ := Option.map_eq_some_iff.mp hc
      have htold := h.told c' hc'
      show Told codeOf _ (s.holders.set 0 _) s.waiters
      rw [hone]
      refine ⟨fun d hd₁ r hr => ?_, htold.waiter, htold.succeeded, fun d hd₁ hpc' => ?_, htold.observed⟩
      · rw [List.mem_singleton.mp hd₁] at hr
        cases hr
        rfl
      · rw [List.mem_singleton.mp hd₁] at hpc'
        cases hpc'
    | signalling result =>
      have hover : hd.over = false := by rw [Holder.over, hpc]; rfl
      obtain ⟨c, hc, hpair⟩ := Option.map_eq_some_iff.mp hs₁
      cases hpair
      refine Verdict.task hinv (overs_lt_of_holder hi hover) (fun c' hc' => ?_)
        fun t' ht' => loaded_up ht'
      have hup : (s.up ⟨c.test, .done⟩ reply).context = some c' := hc'
      rw [(service_up ..).2] at hup
      have htold := h.told c' hup
      show Told codeOf c' ((s.up _ _).holders.set 0 _) (s.up _ _).waiters
      rw [(tasks_up ..).1, (tasks_up ..).2, hone]
      refine ⟨fun d hd₁ r hr => ?_, htold.waiter, htold.succeeded, fun d hd₁ hpc' => ?_, htold.observed⟩
      · rw [List.mem_singleton.mp hd₁] at hr
        cases hr
        exact htold.holder hd (List.mem_of_getElem? hi) result (by rw [Holder.stored, hpc]; rfl)
      · rw [List.mem_singleton.mp hd₁] at hpc'
        cases hpc'
    | finished result => cases hs₁
  all_goals cases hs

theorem Verdict.stepHash {codeOf : CryptoError → UInt32} {s s' : State} (h : Verdict codeOf s)
    (hinv : Inv s) {i : Nat} {result : Result} {sameDigest : Bool} {hd : Holder}
    (hi : s.holders[i]? = some hd) (hs : s.stepHash i result sameDigest hd = some s') :
    Verdict codeOf s' := by
  obtain ⟨hone, rfl⟩ := eq_singleton hinv.lengths.1 hi
  unfold State.stepHash at hs
  split at hs
  · rename_i hpc
    cases hs
    exact h.placeHolder hinv _ hone (by rw [Holder.over, hpc])
      (by rw [State.gotoHolder, hone]; rfl) rfl rfl rfl (by simp) fun t' ht' => ⟨t', ht', rfl⟩
  all_goals cases hs

/-- The waiter goes on without the context. -/
theorem Verdict.placeWaiter {codeOf : CryptoError → UInt32} {s s' : State} (h : Verdict codeOf s)
    (hinv : Inv s) {w : Waiter} (w' : Waiter) (hone : s.waiters = [w]) (hover : w.over = false)
    (hone' : s'.waiters = [w']) (hholders : s'.holders = s.holders)
    (hcontext : s'.context = s.context) (hstored : w'.stored = none)
    (hsucceeded : w'.succeeded = true → ∀ c, s.context = some c → c.holderReleasing ≠ 0)
    (htests : ∀ t' ∈ s'.tests, ∃ t ∈ s.tests, t'.loaded = t.loaded) : Verdict codeOf s' := by
  refine Verdict.task hinv (overs_lt_of_waiter (i := 0) (by rw [hone]; rfl) hover) (fun c hc => ?_) htests
  rw [hcontext] at hc
  have htold := h.told c hc
  rw [hone] at htold
  rw [hone', hholders]
  exact htold.goWaiter w' hstored fun hd => hsucceeded hd c hc

theorem Verdict.waiterFails {codeOf : CryptoError → UInt32} {s s' : State} (h : Verdict codeOf s)
    (hinv : Inv s) {w w₁ : Waiter} (hone : s.waiters = [w]) (hover : w.over = false)
    (hwaiters : s'.waiters = s.waiters) (hholders : s'.holders = s.holders)
    (hcontext : s'.context = s.context) (code : UInt32)
    (htests : ∀ t' ∈ s'.tests, ∃ t ∈ s.tests, t'.loaded = t.loaded) :
    Verdict codeOf (s'.waiterFails 0 w₁ code) := by
  refine h.placeWaiter hinv
    { w₁ with pc := .tail (.completing (.error (contentionRuntimeError code))) } hone hover ?_ hholders
    hcontext rfl (fun hd => (by cases hd)) htests
  rw [State.waiterFails, State.gotoWaiter, hwaiters, hone]
  rfl

theorem Verdict.stepWaiter {codeOf : CryptoError → UInt32} {s s' : State} (h : Verdict codeOf s)
    (hinv : Inv s) {i : Nat} {reply : Reply} {w : Waiter} (hi : s.waiters[i]? = some w)
    (hs : s.stepWaiter codeOf i reply w = some s') : Verdict codeOf s' := by
  obtain ⟨hone, rfl⟩ := eq_singleton hinv.lengths.2 hi
  have hset : ∀ w', (s.gotoWaiter 0 w').waiters = [w'] := by
    intro w'
    rw [State.gotoWaiter, hone]
    rfl
  have hsame : ∀ t' ∈ s.tests, ∃ t ∈ s.tests, t'.loaded = t.loaded := fun t' ht' => ⟨t', ht', rfl⟩
  unfold State.stepWaiter at hs
  split at hs
  · rename_i hpc
    have hover : w.over = false := by rw [Waiter.over, hpc]
    obtain ⟨c, hc, hs⟩ := Option.bind_eq_some_iff.mp hs
    obtain ⟨s₁, hs₁, rfl⟩ := Option.map_eq_some_iff.mp hs
    have hcontext : s₁.context = s.context := by
      obtain ⟨t, ht, hwon, htasks, hu⟩ := hinv.alive hc (overs_lt_of_waiter hi hover)
      obtain ⟨sem, -, rfl⟩ := down_eq ⟨c.test, .start⟩ ht (hu .start) hs₁
      rfl
    obtain ⟨hholders, hwaiters⟩ := tasks_down hs₁
    cases reply with
    | ok =>
      refine h.placeWaiter hinv { w with pc := .attempting, started := true } hone hover ?_ hholders
        hcontext rfl (fun hd => (by cases hd)) fun t' ht' => loaded_down hs₁ ht'
      rw [State.gotoWaiter, hwaiters, hone]
      rfl
    | timesOut =>
      exact h.waiterFails hinv hone hover hwaiters hholders hcontext 6 fun t' ht' => loaded_down hs₁ ht'
    | fails =>
      exact h.waiterFails hinv hone hover hwaiters hholders hcontext 5 fun t' ht' => loaded_down hs₁ ht'
  · rename_i hpc
    have hover : w.over = false := by rw [Waiter.over, hpc]
    cases hs
    refine Verdict.task hinv (overs_lt_of_waiter hi hover) (fun c hc => ?_) hsame
    obtain ⟨c', hc', rfl⟩ := Option.map_eq_some_iff.mp hc
    have htold := h.told c' hc'
    rw [hone] at htold
    have hgone := htold.goWaiter { w with pc := .arrived } rfl fun hd => (by cases hd)
    show Told codeOf _ s.holders (s.waiters.set 0 _)
    rw [hone]
    exact ⟨hgone.holder, hgone.waiter, hgone.succeeded, fun _ _ _ => one_ne_zero,
      fun _ => one_ne_zero⟩
  · rename_i hpc
    obtain ⟨s₁, hs₁, rfl⟩ := Option.map_eq_some_iff.mp hs
    obtain ⟨sv', -, rfl⟩ := Option.map_eq_some_iff.mp hs₁
    exact h.placeWaiter hinv _ hone (by rw [Waiter.over, hpc]) (hset _) rfl rfl rfl
      (fun hd => (by cases hd)) hsame
  · rename_i hpc
    have hover : w.over = false := by rw [Waiter.over, hpc]
    split at hs
    · cases hs
      exact h.placeWaiter hinv _ hone hover (hset _) rfl rfl rfl (fun hd => (by cases hd)) hsame
    all_goals cases hs
  · rename_i sameBlock hpc
    have hover : w.over = false := by rw [Waiter.over, hpc]
    obtain ⟨value, hvalue, rfl⟩ := Option.map_eq_some_iff.mp hs
    split_ifs with hzero
    · exact h.waiterFails hinv hone hover rfl rfl rfl 7 hsame
    · refine h.placeWaiter hinv _ hone hover (hset _) rfl rfl rfl (fun _ c hc => ?_) hsame
      rw [State.load, hc, Option.map_some, Option.some_inj] at hvalue
      rwa [hvalue]
    · exact h.waiterFails hinv hone hover rfl rfl rfl 8 hsame
  · rename_i t hpc
    obtain ⟨⟨s₁, t'⟩, hs₁, rfl⟩ := Option.map_eq_some_iff.mp hs
    have hsucceeded : ∀ c, s.context = some c → t.result = t'.result →
        Waiter.succeeded { w with pc := .tail t' } = true → c.holderReleasing ≠ 0 := by
      intro c hc heq hd
      refine (h.told c hc).succeeded w (List.mem_of_getElem? hi) ?_
      rw [Waiter.succeeded, hpc]
      dsimp only
      rw [heq]
      exact hd
    cases t with
    | completing result =>
      have hover : w.over = false := by rw [Waiter.over, hpc]; rfl
      cases hs₁
      dsimp only
      split_ifs
      · exact h.placeWaiter hinv _ hone hover (hset _) rfl rfl rfl
          (fun hd c hc => hsucceeded c hc rfl hd) hsame
      · exact h.placeWaiter hinv _ hone hover (hset _) rfl rfl rfl
          (fun hd c hc => hsucceeded c hc rfl hd) hsame
    | storing result =>
      have hover : w.over = false := by rw [Waiter.over, hpc]; rfl
      cases hs₁
      refine Verdict.task hinv (overs_lt_of_waiter hi hover) (fun c hc => ?_) hsame
      obtain ⟨c', hc', rfl⟩ := Option.map_eq_some_iff.mp hc
      have htold := h.told c' hc'
      show Told codeOf _ s.holders (s.waiters.set 0 _)
      rw [hone]
      refine ⟨htold.holder, fun d hd₁ r hr => ?_, fun d hd₁ hd₂ => ?_, htold.observing, htold.observed⟩
      · rw [List.mem_singleton.mp hd₁] at hr
        cases hr
        rfl
      · rw [List.mem_singleton.mp hd₁] at hd₂
        exact hsucceeded c' hc' rfl hd₂
    | signalling result =>
      have hover : w.over = false := by rw [Waiter.over, hpc]; rfl
      obtain ⟨c, hc, hpair⟩ := Option.map_eq_some_iff.mp hs₁
      cases hpair
      refine Verdict.task hinv (overs_lt_of_waiter hi hover) (fun c' hc' => ?_)
        fun t' ht' => loaded_up ht'
      have hup : (s.up ⟨c.test, .done⟩ reply).context = some c' := hc'
      rw [(service_up ..).2] at hup
      have htold := h.told c' hup
      show Told codeOf c' (s.up _ _).holders ((s.up _ _).waiters.set 0 _)
      rw [(tasks_up ..).1, (tasks_up ..).2, hone]
      refine ⟨htold.holder, fun d hd₁ r hr => ?_, fun d hd₁ hd₂ => ?_, htold.observing, htold.observed⟩
      · rw [List.mem_singleton.mp hd₁] at hr
        cases hr
        exact htold.waiter w (List.mem_of_getElem? hi) result (by rw [Waiter.stored, hpc]; rfl)
      · rw [List.mem_singleton.mp hd₁] at hd₂
        exact hsucceeded c' hup rfl hd₂
    | finished result => cases hs₁

theorem Verdict.stepCompare {codeOf : CryptoError → UInt32} {s s' : State} (h : Verdict codeOf s)
    (hinv : Inv s) {i : Nat} {sameBlock : Bool} {w : Waiter} (hi : s.waiters[i]? = some w)
    (hs : s.stepCompare i sameBlock w = some s') : Verdict codeOf s' := by
  obtain ⟨hone, rfl⟩ := eq_singleton hinv.lengths.2 hi
  unfold State.stepCompare at hs
  split at hs
  · rename_i hpc
    split at hs
    · cases hs
      exact h.placeWaiter hinv _ hone (by rw [Waiter.over, hpc])
        (by rw [State.gotoWaiter, hone]; rfl) rfl rfl rfl (fun hd => (by cases hd))
        fun t' ht' => ⟨t', ht', rfl⟩
    all_goals cases hs
  all_goals cases hs

/-- A test that does not load goes on. -/
theorem Verdict.gotoTest {codeOf : CryptoError → UInt32} {s s' : State} (h : Verdict codeOf s)
    {i : Nat} {t' : Test} (hcontext : s'.context = s.context) (hholders : s'.holders = s.holders)
    (hwaiters : s'.waiters = s.waiters) (htests : s'.tests = s.tests.set i t')
    (hread : ∀ c, s.context = some c → Read c t') : Verdict codeOf s' := by
  refine ⟨fun c hc => ?_, fun c hc t ht => ?_⟩
  · rw [hholders, hwaiters]
    exact h.told c (hcontext ▸ hc)
  · rw [htests] at ht
    rw [hcontext] at hc
    rcases mem_set_cases ht with rfl | ht
    · exact hread c hc
    · exact h.read c hc t ht

theorem Verdict.stepTest {codeOf : CryptoError → UInt32} {s s' : State} (h : Verdict codeOf s)
    (hinv : Inv s) {i : Nat} {reply : Reply} {t : Test} (ht : s.tests[i]? = some t)
    (hs : s.stepTest i reply t = some s') : Verdict codeOf s' := by
  have hmem := List.mem_of_getElem? ht
  have hwf := hinv.wf t hmem
  unfold Test.Wf at hwf
  have hctx : ∀ handle sem, (s.touch handle sem).context = s.context ∧
      (s.touch handle sem).holders = s.holders ∧ (s.touch handle sem).waiters = s.waiters := by
    intro handle sem
    unfold State.touch
    split_ifs <;> exact ⟨rfl, rfl, rfl⟩
  have hplain : ∀ t', t'.loaded = 0 → Verdict codeOf (s.gotoTest i t') :=
    fun t' hzero => h.gotoTest rfl rfl rfl rfl fun c _ => read_of_unloaded hzero
  have htouch : ∀ handle sem t', t'.loaded = 0 →
      Verdict codeOf ((s.touch handle sem).gotoTest i t') :=
    fun handle sem t' hzero => h.gotoTest (hctx ..).1 (hctx ..).2.1 (hctx ..).2.2
      (by rw [State.gotoTest, tests_touch]) fun c _ => read_of_unloaded hzero
  unfold State.stepTest at hs
  split at hs <;> rename_i hpc <;> rw [hpc] at hwf
  case h_1 | h_2 =>
    cases hs
    split_ifs <;> exact hplain _ rfl
  case h_3 | h_5 | h_6 =>
    cases hs
    exact htouch _ _ _ rfl
  case h_4 =>
    split at hs <;> rename_i hc
    · cases hs
      obtain ⟨hholders, hwaiters⟩ := hinv.unfilled hc
      refine ⟨fun c hc' => ?_, fun c hc' u hu => ?_⟩
      · show Told codeOf c s.holders s.waiters
        rw [hholders, hwaiters]
        cases hc'
        exact ⟨by simp, by simp, by simp, by simp, by simp⟩
      · rcases mem_set_cases hu with rfl | hu
        · exact read_of_unloaded rfl
        · refine read_of_unloaded ?_
          -- a test that has loaded found a context
          have hwf' := hinv.wf u hu
          obtain ⟨j, hj⟩ := List.mem_iff_getElem?.mp hu
          have hlost : u.won = true → False := by
            intro hwon
            obtain ⟨c', hc'', -⟩ := hinv.won j u hj hwon
            rw [hc] at hc''
            cases hc''
          unfold Test.Wf at hwf'
          unfold Test.loaded
          split <;> rename_i hpc' <;> first
            | rfl
            | (rw [hpc'] at hwf'; exact (hlost hwf'.1).elim)
    · cases hs
      exact hplain _ rfl
  case h_7 =>
    cases hs
    split_ifs
    · refine ⟨fun c hc => ?_, fun c hc u hu => ?_⟩
      · have htold := h.told c hc
        refine ⟨fun d hd r hr => ?_, htold.waiter, htold.succeeded, fun d hd hp => ?_, htold.observed⟩
        · rcases List.mem_append.mp hd with hd | hd
          · exact htold.holder d hd r hr
          · rw [List.mem_singleton.mp hd] at hr
            cases hr
        · rcases List.mem_append.mp hd with hd | hd
          · exact htold.observing d hd hp
          · rw [List.mem_singleton.mp hd] at hp
            cases hp
      · rcases mem_set_cases hu with rfl | hu
        · exact read_of_unloaded rfl
        · exact h.read c hc u hu
    · exact hplain _ rfl
  case h_8 =>
    cases hs
    split_ifs
    · refine ⟨fun c hc => ?_, fun c hc u hu => ?_⟩
      · have htold := h.told c hc
        refine ⟨htold.holder, fun d hd r hr => ?_, fun d hd hp => ?_, htold.observing, htold.observed⟩
        · rcases List.mem_append.mp hd with hd | hd
          · exact htold.waiter d hd r hr
          · rw [List.mem_singleton.mp hd] at hr
            cases hr
        · rcases List.mem_append.mp hd with hd | hd
          · exact htold.succeeded d hd hp
          · rw [List.mem_singleton.mp hd] at hp
            cases hp
      · rcases mem_set_cases hu with rfl | hu
        · exact read_of_unloaded rfl
        · exact h.read c hc u hu
    · exact hplain _ rfl
  case h_9 =>
    obtain ⟨sem, -, rfl⟩ := Option.map_eq_some_iff.mp hs
    cases reply <;> exact htouch _ _ _ rfl
  case h_10 =>
    cases hs
    refine hplain _ ?_
    rename_i both
    cases both <;> rfl
  case h_11 | h_12 =>
    cases hs
    cases reply <;> exact htouch _ _ _ rfl
  case h_13 =>
    obtain ⟨value, hvalue, rfl⟩ := Option.map_eq_some_iff.mp hs
    split_ifs with hzero
    · exact hplain _ rfl
    · refine h.gotoTest rfl rfl rfl rfl fun c hc => ⟨fun _ => ?_, ?_, ?_⟩
      · rw [State.load, hc, Option.map_some, Option.some_inj] at hvalue
        rwa [hvalue]
      · simp [Test.loaded]
      · simp [Test.loaded]
  case h_14 =>
    obtain ⟨value, hvalue, rfl⟩ := Option.map_eq_some_iff.mp hs
    split_ifs with hzero
    · refine h.gotoTest rfl rfl rfl rfl fun c hc => ⟨fun _ => ?_, fun _ => ?_, ?_⟩
      · exact (h.read c hc t hmem).1 (by rw [Test.loaded, hpc])
      · rw [State.load, hc, Option.map_some, Option.some_inj] at hvalue
        rw [hvalue, hzero]
      · simp [Test.loaded]
    · exact hplain _ rfl
  case h_15 =>
    obtain ⟨value, hvalue, rfl⟩ := Option.map_eq_some_iff.mp hs
    split_ifs with hzero
    · refine h.gotoTest rfl rfl rfl rfl fun c hc => ⟨fun _ => ?_, fun _ => ?_, fun _ => ?_⟩
      · exact (h.read c hc t hmem).1 (by rw [Test.loaded, hpc]; decide)
      · exact (h.read c hc t hmem).2.1 (by rw [Test.loaded, hpc])
      · rw [State.load, hc, Option.map_some, Option.some_inj] at hvalue
        rw [hvalue, hzero]
    · exact hplain _ rfl
  case h_16 =>
    cases hs
    refine h.gotoTest rfl rfl rfl rfl fun c hc => ?_
    have hread := h.read c hc t hmem
    rw [Read, Test.loaded, hpc] at hread
    exact hread
  case h_17 =>
    cases hs
    exact h.gotoTest rfl rfl rfl rfl fun c _ => read_of_unloaded rfl
  case h_18 => cases hs

theorem Verdict.step {codeOf : CryptoError → UInt32} {s s' : State} {a : Action}
    (h : Verdict codeOf s) (hinv : Inv s) (hs : Contention.step codeOf s a = some s') :
    Verdict codeOf s' := by
  cases a with
  | service a =>
    rw [Contention.step] at hs
    split_ifs at hs
    obtain ⟨sv', -, rfl⟩ := Option.map_eq_some_iff.mp hs
    exact ⟨h.told, h.read⟩
  | test =>
    cases hs
    refine ⟨h.told, fun c hc t ht => ?_⟩
    rcases List.mem_append.mp ht with ht | ht
    · exact h.read c hc t ht
    · rw [List.mem_singleton.mp ht]
      exact read_of_unloaded rfl
  | testStep i reply =>
    obtain ⟨t, ht, hs⟩ := Option.bind_eq_some_iff.mp hs
    exact h.stepTest hinv ht hs
  | holder i reply =>
    obtain ⟨hd, hi, hs⟩ := Option.bind_eq_some_iff.mp hs
    exact h.stepHolder hinv hi hs
  | hash i result sameDigest =>
    obtain ⟨hd, hi, hs⟩ := Option.bind_eq_some_iff.mp hs
    exact h.stepHash hinv hi hs
  | waiter i reply =>
    obtain ⟨w, hi, hs⟩ := Option.bind_eq_some_iff.mp hs
    exact h.stepWaiter hinv hi hs
  | compare i sameBlock =>
    obtain ⟨w, hi, hs⟩ := Option.bind_eq_some_iff.mp hs
    exact h.stepCompare hinv hi hs

/-! ## §3 Main result -/

theorem stored_of_over {h : Holder} (hover : h.over = true) :
    ∃ result, h.stored = some result ∧ h.pc = .tail (.finished result) := by
  unfold Holder.over at hover
  split at hover
  · rename_i t hpc
    cases t with
    | finished result => exact ⟨result, by rw [Holder.stored, hpc]; rfl, hpc⟩
    | completing | storing | signalling => cases hover
  all_goals cases hover

theorem stored_of_waiter_over {w : Waiter} (hover : w.over = true) :
    ∃ result, w.stored = some result ∧ w.pc = .tail (.finished result) := by
  unfold Waiter.over at hover
  split at hover
  · rename_i t hpc
    cases t with
    | finished result => exact ⟨result, by rw [Waiter.stored, hpc]; rfl, hpc⟩
    | completing | storing | signalling => cases hover
  all_goals cases hover

theorem ok_of_code {codeOf : CryptoError → UInt32} (hcode : ∀ error, codeOf error ≠ 0)
    {result : Result} (h : code codeOf result = 0) : ∃ value, result = .ok value := by
  cases result with
  | ok value => exact ⟨value, rfl⟩
  | error error => exact (hcode error h).elim

/-- What a self test that returned `Ok` proves, in any interleaving. -/
structure Proven (s : State) : Prop where
  holder : ∃ hd, s.holders = [hd] ∧ ∃ value, hd.pc = .tail (.finished (.ok value))
  waiter : ∃ w, s.waiters = [w] ∧ ∃ value, w.pc = .tail (.finished (.ok value))
  /-- The holder has seen the waiter come. -/
  seen : ∃ c, s.context = some c ∧ c.contentionObserved ≠ 0 ∧ c.waiterAttempted ≠ 0 ∧
    c.holderReleasing ≠ 0

theorem proven_of_ok {codeOf : CryptoError → UInt32} (hcode : ∀ error, codeOf error ≠ 0) {s : State}
    (h : Reachable (Contention.step codeOf) init s) {t : Test} (ht : t ∈ s.tests)
    (hok : t.pc = .returned (.ok ())) : Proven s := by
  obtain ⟨hinv, hverdict⟩ : Inv s ∧ Verdict codeOf s :=
    h.invariant (I := fun s => Inv s ∧ Verdict codeOf s) ⟨inv_init, verdict_init codeOf⟩
      fun _ _ _ hI hs => ⟨hI.1.step hs, hI.2.step hI.1 hs⟩
  obtain ⟨-, -, hone, hone', hholders, hwaiters⟩ := (contention_safe h).succeeded t ht hok
  have hwf := hinv.wf t ht
  rw [Test.Wf, hok] at hwf
  obtain ⟨i, hi⟩ := List.mem_iff_getElem?.mp ht
  obtain ⟨c, hc, -⟩ := hinv.won i t hi hwf.1
  have hread := hverdict.read c hc t ht
  rw [Read, Test.loaded, hok] at hread
  obtain ⟨hobserved, hholder, hwaiter⟩ := hread
  have htold := hverdict.told c hc
  obtain ⟨hd, hhd⟩ := List.length_eq_one_iff.mp hone
  obtain ⟨w, hw⟩ := List.length_eq_one_iff.mp hone'
  have hmem : hd ∈ s.holders := by rw [hhd]; exact List.mem_singleton_self _
  have hmem' : w ∈ s.waiters := by rw [hw]; exact List.mem_singleton_self _
  obtain ⟨r, hr, hpc⟩ := stored_of_over (hholders hd hmem)
  obtain ⟨r', hr', hpc'⟩ := stored_of_waiter_over (hwaiters w hmem')
  obtain ⟨v, rfl⟩ := ok_of_code hcode ((htold.holder hd hmem r hr).symm.trans (hholder (by decide)))
  obtain ⟨v', rfl⟩ := ok_of_code hcode ((htold.waiter w hmem' r' hr').symm.trans (hwaiter (by decide)))
  refine ⟨⟨hd, hhd, v, hpc⟩, ⟨w, hw, v', hpc'⟩, c, hc, hobserved (by decide),
    htold.observed (hobserved (by decide)), htold.succeeded w hmem' ?_⟩
  rw [Waiter.succeeded, hpc']
  rfl

theorem proven_of_ok_success : ∃ s, Proven s :=
  have hrun : Reachable (Contention.step fun _ => 1) init _ := ⟨successRun, Steps.of_run rfl⟩
  ⟨_, proven_of_ok (fun _ => one_ne_zero) hrun List.mem_cons_self rfl⟩

end HisiRiscv.Crypto.Contention
