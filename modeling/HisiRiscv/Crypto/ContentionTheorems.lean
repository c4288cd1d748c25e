/-
HisiRiscv.Crypto.ContentionTheorems — the semaphores of the contention
self test.

Only the test that fills the context spawns tasks, so there are at most
one holder and one waiter in the lifetime of the firmware. A task signals
`done` as its last operation, and the test destroys the semaphores after
two signals, so nobody uses a semaphore that is gone: not in any
interleaving of tests, tasks and other users of the crypto service, and
whatever fails or times out.

  §1 The invariant.
  §2 Steps of a test.
  §3 Operations of the tasks.
  §4 Steps of the tasks.
  §5 Main result.
-/
import HisiRiscv.Crypto.Contention
import HisiRiscv.Crypto.ServiceTheorems

namespace HisiRiscv.Crypto.Contention

open HisiRiscv.Machine
open HisiRiscv.Ledger
open Service (CryptoError Result)
open Semaphore (usable permitsOf)
open State

/-! ## §1 The invariant -/

def Tail.over : Tail → Bool
  | finished _ => true
  | completing _ | storing _ | signalling _ => false

def Holder.over (h : Holder) : Bool :=
  match h.pc with
  | .tail t => t.over
  | .entered | .calling | .yielding | .checking | .observing | .hashing | .releasing _ _ | .leaving =>
      false

def Waiter.over (w : Waiter) : Bool :=
  match w.pc with
  | .tail t => t.over
  | .entered | .attempting | .arrived | .calling | .comparing _ => false

/-- The tasks that have signalled. -/
def overs (hs : List Holder) (ws : List Waiter) : Nat := hs.countP Holder.over + ws.countP Waiter.over

/-- The semaphores and the signals at each place of a test. -/
def Test.Wf (t : Test) : Prop :=
  match t.pc with
  | .creatingStart => t.won = false ∧ t.taken = 0
  | .creatingDone => t.won = false ∧ t.taken = 0 ∧ usable t.start
  | .droppingOnly => t.won = false ∧ usable t.start
  | .initialising =>
      t.won = false ∧ t.taken = 0 ∧ usable t.start ∧ usable t.done ∧ permitsOf t.done = 0
  | .droppingStart => t.won = false ∧ usable t.start ∧ usable t.done
  | .droppingDone => t.won = false ∧ usable t.done
  | .spawningHolder | .spawningWaiter =>
      t.won = true ∧ t.taken = 0 ∧ usable t.start ∧ usable t.done
  | .awaiting left both =>
      t.won = true ∧ t.taken + left = 1 + both.toNat ∧ usable t.start ∧ usable t.done
  | .destroyingStart => t.won = true ∧ t.taken = 2 ∧ usable t.start ∧ usable t.done
  | .destroyingDone => t.won = true ∧ t.taken = 2 ∧ usable t.start = false ∧ usable t.done
  | .loadingObserved | .loadingHolder | .loadingWaiter | .succeeding | .returned (.ok ()) =>
      t.won = true ∧ t.taken = 2 ∧ usable t.start = false ∧ usable t.done = false
  | .failing _ | .returned (.error _) => True

/-- The tasks of the test that has filled the context. -/
structure Tasks (hs : List Holder) (ws : List Waiter) (t : Test) : Prop where
  shape :
    match t.pc with
    | .spawningHolder => hs.length = 0 ∧ ws.length = 0
    | .spawningWaiter => hs.length = 1 ∧ ws.length = 0
    | .awaiting _ both => hs.length = 1 ∧ ws.length = both.toNat
    | _ => hs.length ≤ 1 ∧ ws.length ≤ 1
  /-- Every signal comes from a task that is over. -/
  account : permitsOf t.done + t.taken ≤ overs hs ws
  /-- The semaphores stay as long as a task is not. -/
  alive : overs hs ws < hs.length + ws.length → usable t.start ∧ usable t.done

structure Inv (s : State) : Prop where
  service : Service.Inv s.service
  noFaults : s.faults = []
  wf : ∀ t ∈ s.tests, t.Wf
  /-- The test that filled the context is named by it. -/
  won : ∀ (i : Nat) (t : Test), s.tests[i]? = some t → t.won = true →
    ∃ c, s.context = some c ∧ c.test = i
  unfilled : s.context = none → s.holders = [] ∧ s.waiters = []
  tasks : ∀ c, s.context = some c →
    ∃ t, s.tests[c.test]? = some t ∧ t.won = true ∧ Tasks s.holders s.waiters t

theorem inv_init : Inv init where
  service := Service.inv_init
  noFaults := rfl
  wf _ h := nomatch h
  won _ _ h := nomatch h
  unfilled _ := ⟨rfl, rfl⟩
  tasks _ h := nomatch h

theorem touch_usable {s : State} {handle : Handle} {sem : Option Semaphore}
    (h : usable sem = true) : s.touch handle sem = s := if_pos h

theorem usable_destroy_ok {sem : Option Semaphore} (h : usable sem = true) :
    usable (Semaphore.destroy sem .ok) = false := by
  rw [Semaphore.destroy, if_pos ⟨rfl, h⟩]
  rfl

@[simp] theorem permitsOf_destroy (sem : Option Semaphore) (reply : Reply) :
    permitsOf (Semaphore.destroy sem reply) = permitsOf sem := by
  unfold Semaphore.destroy
  split_ifs <;> rfl

theorem overs_le (hs : List Holder) (ws : List Waiter) : overs hs ws ≤ hs.length + ws.length :=
  Nat.add_le_add List.countP_le_length List.countP_le_length

/-! ## §2 Steps of a test -/

/-- A test that has not filled the context goes on alone. -/
theorem Inv.gotoLoser {s : State} (h : Inv s) {i : Nat} {t t' : Test} (ht : s.tests[i]? = some t)
    (hlost : t.won = false) (hlost' : t'.won = false) (hwf : t'.Wf) : Inv (s.gotoTest i t') where
  service := h.service
  noFaults := h.noFaults
  wf u hu := by
    rcases mem_set_cases hu with rfl | hu
    · exact hwf
    · exact h.wf u hu
  won j u hu hwon := by
    rcases getElem?_set_cases hu with ⟨-, rfl⟩ | ⟨-, hu⟩
    · rw [hlost'] at hwon
      cases hwon
    · exact h.won j u hu hwon
  unfilled := h.unfilled
  tasks c hc := by
    obtain ⟨u, hu, hwon, htasks⟩ := h.tasks c hc
    have hne : i ≠ c.test := by
      rintro rfl
      rw [ht, Option.some_inj] at hu
      rw [hu, hwon] at hlost
      cases hlost
    exact ⟨u, (List.getElem?_set_ne hne).trans hu, hwon, htasks⟩

/-- The test that has filled the context goes on, with its tasks. -/
theorem Inv.rework {s : State} (h : Inv s) (hs : List Holder) (ws : List Waiter) {i : Nat}
    {t t' : Test} (ht : s.tests[i]? = some t) (hwon : t.won = true) (hwon' : t'.won = true)
    (hwf : t'.Wf) (htasks : Tasks hs ws t') :
    Inv ({ s with holders := hs, waiters := ws }.gotoTest i t') := by
  obtain ⟨c, hc, hi⟩ := h.won i t ht hwon
  refine ⟨h.service, h.noFaults, fun u hu => ?_, fun j u hu hw => ?_, fun hnone => ?_,
    fun c' hc' => ?_⟩
  · rcases mem_set_cases hu with rfl | hu
    · exact hwf
    · exact h.wf u hu
  · rcases getElem?_set_cases hu with ⟨rfl, -⟩ | ⟨-, hu⟩
    · exact ⟨c, hc, hi⟩
    · exact h.won j u hu hw
  · rw [show s.context = none from hnone] at hc
    cases hc
  · rw [show s.context = some c' from hc', Option.some_inj] at hc
    subst hc
    subst hi
    exact ⟨_, List.getElem?_set_self (List.getElem?_eq_some_iff.mp ht).1, hwon', htasks⟩

/-- The tasks of the test that has filled the context. -/
theorem Inv.tasks_of_won {s : State} (h : Inv s) {i : Nat} {t : Test} (ht : s.tests[i]? = some t)
    (hwon : t.won = true) : Tasks s.holders s.waiters t := by
  obtain ⟨c, hc, rfl⟩ := h.won i t ht hwon
  obtain ⟨u, hu, -, hu'⟩ := h.tasks c hc
  rw [ht, Option.some_inj] at hu
  rwa [hu]

theorem Inv.gotoWinner {s : State} (h : Inv s) {i : Nat} {t t' : Test} (ht : s.tests[i]? = some t)
    (hwon : t.won = true) (hwon' : t'.won = true) (hwf : t'.Wf)
    (htasks : Tasks s.holders s.waiters t → Tasks s.holders s.waiters t') :
    Inv (s.gotoTest i t') :=
  h.rework _ _ ht hwon hwon' hwf (htasks (h.tasks_of_won ht hwon))

theorem Tasks.lengths {hs : List Holder} {ws : List Waiter} {t : Test} (h : Tasks hs ws t) :
    hs.length ≤ 1 ∧ ws.length ≤ 1 := by
  have hshape := h.shape
  split at hshape
  · omega
  · omega
  · rename_i both _
    exact ⟨hshape.1.le, hshape.2 ▸ Bool.toNat_le both⟩
  · exact hshape

/-- There are at most two tasks. -/
theorem Inv.lengths {s : State} (h : Inv s) : s.holders.length ≤ 1 ∧ s.waiters.length ≤ 1 := by
  cases hc : s.context with
  | none =>
    obtain ⟨hholders, hwaiters⟩ := h.unfilled hc
    simp [hholders, hwaiters]
  | some c =>
    obtain ⟨t, -, -, htasks⟩ := h.tasks c hc
    exact htasks.lengths

/-- A holder finds the context filled. -/
theorem Inv.context_of_holder {s : State} (h : Inv s) {i : Nat} {hd : Holder}
    (hi : s.holders[i]? = some hd) : ∃ c, s.context = some c := by
  cases hc : s.context with
  | none =>
    rw [(h.unfilled hc).1] at hi
    cases hi
  | some c => exact ⟨c, rfl⟩

/-- With two signals taken, both tasks are over. -/
theorem Tasks.settled {hs : List Holder} {ws : List Waiter} {t : Test} (h : Tasks hs ws t)
    (htaken : t.taken = 2) : overs hs ws = hs.length + ws.length ∧ hs.length = 1 ∧ ws.length = 1 := by
  have haccount := h.account
  have hlengths := h.lengths
  have hle := overs_le hs ws
  omega

/-- The same tasks at another place, with the same semaphores. -/
theorem Tasks.goto {hs : List Holder} {ws : List Waiter} {t t' : Test} (h : Tasks hs ws t)
    (hshape : match t'.pc with
      | .spawningHolder => hs.length = 0 ∧ ws.length = 0
      | .spawningWaiter => hs.length = 1 ∧ ws.length = 0
      | .awaiting _ both => hs.length = 1 ∧ ws.length = both.toNat
      | _ => hs.length ≤ 1 ∧ ws.length ≤ 1)
    (haccount : permitsOf t'.done + t'.taken ≤ permitsOf t.done + t.taken)
    (halive : overs hs ws < hs.length + ws.length → usable t.start ∧ usable t.done →
      usable t'.start ∧ usable t'.done) : Tasks hs ws t' :=
  ⟨hshape, haccount.trans h.account, fun hlt => halive hlt (h.alive hlt)⟩

/-- The first test fills the context. -/
theorem Inv.fill {s : State} (h : Inv s) {i : Nat} {t : Test} (ht : s.tests[i]? = some t)
    (hpc : t.pc = .initialising) (hempty : s.context = none) :
    Inv ({ s with context := some ⟨i, 0, 0, 0, 0xffffffff, 0xffffffff⟩ }.gotoTest i
      { t with pc := .spawningHolder, won := true }) := by
  have hwf := h.wf t (List.mem_of_getElem? ht)
  rw [Test.Wf, hpc] at hwf
  obtain ⟨-, htaken, hstart, hdone, hpermits⟩ := hwf
  obtain ⟨hholders, hwaiters⟩ := h.unfilled hempty
  refine ⟨h.service, h.noFaults, fun u hu => ?_, fun j u hu hwon => ?_, fun hc => (nomatch hc),
    fun c hc => ?_⟩
  · rcases mem_set_cases hu with rfl | hu
    · exact ⟨rfl, htaken, hstart, hdone⟩
    · exact h.wf u hu
  · rcases getElem?_set_cases hu with ⟨rfl, -⟩ | ⟨-, hu⟩
    · exact ⟨_, rfl, rfl⟩
    · obtain ⟨c, hc, -⟩ := h.won j u hu hwon
      rw [hempty] at hc
      cases hc
  · cases hc
    refine ⟨_, List.getElem?_set_self (List.getElem?_eq_some_iff.mp ht).1, rfl, ?_⟩
    show Tasks s.holders s.waiters _
    rw [hholders, hwaiters]
    refine ⟨⟨rfl, rfl⟩, ?_, fun _ => ⟨hstart, hdone⟩⟩
    show permitsOf t.done + t.taken ≤ 0
    rw [htaken, hpermits]

theorem Inv.tally {s : State} (h : Inv s) (tally : Tally) : Inv { s with tally } :=
  ⟨h.service, h.noFaults, h.wf, h.won, h.unfilled, h.tasks⟩

/-- A place of a test without any demands. -/
theorem Inv.gotoFree {s : State} (h : Inv s) {i : Nat} {t : Test} (ht : s.tests[i]? = some t)
    (t' : Test) (hwon : t'.won = t.won) (hwf : t'.Wf)
    (htasks : Tasks s.holders s.waiters t → Tasks s.holders s.waiters t') :
    Inv (s.gotoTest i t') := by
  cases hw : t.won with
  | false => exact h.gotoLoser ht hw (hwon.trans hw) hwf
  | true => exact h.gotoWinner ht hw (hwon.trans hw) hwf htasks

theorem Inv.stepTest {s s' : State} (h : Inv s) {i : Nat} {reply : Reply} {t : Test}
    (ht : s.tests[i]? = some t) (hs : s.stepTest i reply t = some s') : Inv s' := by
  have hwf := h.wf t (List.mem_of_getElem? ht)
  unfold Test.Wf at hwf
  -- failing keeps the tasks as they are
  have hfail : ∀ code t', t'.pc = .failing code → t'.won = t.won → t'.start = t.start →
      t'.done = t.done → t'.taken = t.taken → Inv (s.gotoTest i t') := by
    intro code t' hpc hwon hstart hdone htaken
    refine h.gotoFree ht t' hwon (by rw [Test.Wf, hpc]; trivial) fun htasks => ?_
    refine htasks.goto (by rw [hpc]; exact htasks.lengths) (by rw [hdone, htaken]) ?_
    rw [hstart, hdone]
    exact fun _ halive => halive
  unfold State.stepTest at hs
  split at hs <;> rename_i hpc <;> rw [hpc] at hwf
  case h_1 =>
    cases hs
    split_ifs
    · exact h.gotoLoser ht hwf.1 hwf.1 ⟨hwf.1, hwf.2, rfl⟩
    · exact hfail 9 _ rfl rfl rfl rfl rfl
  case h_2 =>
    cases hs
    split_ifs
    · exact h.gotoLoser ht hwf.1 hwf.1 ⟨hwf.1, hwf.2.1, hwf.2.2, rfl, rfl⟩
    · exact h.gotoLoser ht hwf.1 hwf.1 ⟨hwf.1, hwf.2.2⟩
  case h_3 =>
    cases hs
    rw [touch_usable hwf.2]
    exact h.gotoLoser ht hwf.1 hwf.1 trivial
  case h_4 =>
    split at hs <;> rename_i hc
    · cases hs
      exact h.fill ht hpc hc
    · cases hs
      exact h.gotoLoser ht hwf.1 hwf.1 ⟨hwf.1, hwf.2.2.1, hwf.2.2.2.1⟩
  case h_5 =>
    cases hs
    rw [touch_usable hwf.2.1]
    exact h.gotoLoser ht hwf.1 hwf.1 ⟨hwf.1, hwf.2.2⟩
  case h_6 =>
    cases hs
    rw [touch_usable hwf.2]
    exact h.gotoLoser ht hwf.1 hwf.1 trivial
  case h_7 =>
    have htasks := h.tasks_of_won ht hwf.1
    have hshape := htasks.shape
    rw [hpc] at hshape
    obtain ⟨hholders, hwaiters⟩ := And.imp List.length_eq_zero_iff.mp List.length_eq_zero_iff.mp hshape
    cases hs
    split_ifs
    · refine h.rework _ s.waiters ht hwf.1 hwf.1 hwf ⟨?_, ?_, fun _ => hwf.2.2⟩
      · rw [hholders, hwaiters]
        exact ⟨rfl, rfl⟩
      · have haccount := htasks.account
        rw [hholders, hwaiters] at haccount ⊢
        exact haccount
    · exact hfail 12 _ rfl rfl rfl rfl rfl
  case h_8 =>
    have htasks := h.tasks_of_won ht hwf.1
    have hshape := htasks.shape
    rw [hpc] at hshape
    obtain ⟨hholders, hwaiters⟩ := And.imp_right List.length_eq_zero_iff.mp hshape
    cases hs
    split_ifs
    · refine h.rework s.holders _ ht hwf.1 hwf.1
        ⟨hwf.1, by rw [hwf.2.1]; rfl, hwf.2.2⟩ ⟨?_, ?_, fun _ => hwf.2.2⟩
      · rw [hwaiters]
        exact ⟨hholders, rfl⟩
      · have haccount := htasks.account
        rw [hwaiters] at haccount ⊢
        exact haccount
    · refine h.gotoWinner ht hwf.1 hwf.1 ⟨hwf.1, by rw [hwf.2.1]; rfl, hwf.2.2⟩ fun _ => ?_
      refine htasks.goto ⟨hholders, by rw [hwaiters]; rfl⟩ (Nat.le_refl _) fun _ halive => halive
  case h_9 =>
    rename_i left both
    have htasks := h.tasks_of_won ht hwf.1
    have hshape := htasks.shape
    rw [hpc] at hshape
    obtain ⟨hwon, htaken, hstart, hdone⟩ := hwf
    obtain ⟨sem, hsem, hs⟩ := Option.map_eq_some_iff.mp hs
    subst hs
    rw [touch_usable hdone]
    cases reply with
    | timesOut => exact hfail 14 _ rfl rfl rfl rfl rfl
    | fails => exact hfail 13 _ rfl rfl rfl rfl rfl
    | ok =>
      simp only [Semaphore.down] at hsem
      split_ifs at hsem with hpermit
      cases hsem
      refine h.gotoWinner ht hwon hwon ⟨hwon, ?_, hstart, rfl⟩ fun _ =>
        htasks.goto hshape ?_ fun _ _ => ⟨hstart, rfl⟩
      · show t.taken + 1 + left = 1 + both.toNat
        omega
      · show permitsOf t.done - 1 + (t.taken + 1) ≤ permitsOf t.done + t.taken
        omega
  case h_10 =>
    rename_i both
    have htasks := h.tasks_of_won ht hwf.1
    have hshape := htasks.shape
    rw [hpc] at hshape
    obtain ⟨hwon, htaken, hstart, hdone⟩ := hwf
    cases hs
    cases both with
    | false => exact hfail 15 _ rfl rfl rfl rfl rfl
    | true =>
      refine h.gotoWinner ht hwon hwon ⟨hwon, htaken, hstart, hdone⟩ fun _ =>
        htasks.goto ?_ (Nat.le_refl _) fun _ halive => halive
      exact ⟨hshape.1.le, hshape.2.le⟩
  case h_11 =>
    obtain ⟨hwon, htaken, hstart, hdone⟩ := hwf
    have htasks := h.tasks_of_won ht hwon
    have hsettled := htasks.settled htaken
    cases hs
    rw [touch_usable hstart]
    cases reply with
    | ok =>
      refine h.gotoWinner ht hwon hwon ⟨hwon, htaken, usable_destroy_ok hstart, hdone⟩ fun _ =>
        htasks.goto htasks.lengths (Nat.le_refl _) fun hlt => ?_
      omega
    | timesOut | fails =>
      refine h.gotoWinner ht hwon hwon trivial fun _ =>
        htasks.goto htasks.lengths (Nat.le_refl _) fun hlt => ?_
      omega
  case h_12 =>
    obtain ⟨hwon, htaken, hstart, hdone⟩ := hwf
    have htasks := h.tasks_of_won ht hwon
    have hsettled := htasks.settled htaken
    cases hs
    rw [touch_usable hdone]
    cases reply with
    | ok =>
      refine h.gotoWinner ht hwon hwon ⟨hwon, htaken, hstart, usable_destroy_ok hdone⟩ fun _ =>
        htasks.goto htasks.lengths ?_ fun hlt => ?_
      · rw [permitsOf_destroy]
      · omega
    | timesOut | fails =>
      refine h.gotoWinner ht hwon hwon trivial fun _ =>
        htasks.goto htasks.lengths ?_ fun hlt => ?_
      · rw [permitsOf_destroy]
      · omega
  case h_13 | h_14 | h_15 =>
    obtain ⟨value, -, hs⟩ := Option.map_eq_some_iff.mp hs
    subst hs
    split_ifs
    · first
      | exact hfail 18 _ rfl rfl rfl rfl rfl
      | exact h.gotoWinner ht hwf.1 hwf.1 hwf fun htasks =>
          htasks.goto htasks.lengths (Nat.le_refl _) fun _ halive => halive
    · first
      | exact hfail 18 _ rfl rfl rfl rfl rfl
      | exact h.gotoWinner ht hwf.1 hwf.1 hwf fun htasks =>
          htasks.goto htasks.lengths (Nat.le_refl _) fun _ halive => halive
  case h_16 =>
    cases hs
    exact (h.tally _).gotoWinner ht hwf.1 hwf.1 hwf fun htasks =>
      htasks.goto htasks.lengths (Nat.le_refl _) fun _ halive => halive
  case h_17 =>
    rename_i code
    cases hs
    exact (h.tally { s.tally with failures := s.tally.failures + 1 }).gotoFree ht
      { t with pc := .returned (.error (contentionRuntimeError code)) } rfl trivial fun htasks =>
        htasks.goto htasks.lengths (Nat.le_refl _) fun _ halive => halive
  case h_18 => cases hs

/-! ## §3 Operations of the tasks -/

/-- The tasks go on, and none that was over is not. -/
theorem Tasks.advance {hs hs' : List Holder} {ws ws' : List Waiter} {t t' : Test}
    (h : Tasks hs ws t) (hholders : hs'.length = hs.length) (hwaiters : ws'.length = ws.length)
    (hovers : overs hs ws ≤ overs hs' ws') (hpc : t'.pc = t.pc)
    (hstart : usable t'.start = usable t.start) (hdone : usable t'.done = usable t.done)
    (haccount : permitsOf t'.done + t'.taken ≤ overs hs' ws') : Tasks hs' ws' t' := by
  refine ⟨?_, haccount, fun hlt => ?_⟩
  · rw [hpc, hholders, hwaiters]
    exact h.shape
  · rw [hstart, hdone]
    exact h.alive (by omega)

theorem usable_up (sem : Option Semaphore) (reply : Reply) :
    usable (Semaphore.up sem reply) = usable sem := by
  unfold Semaphore.up
  split_ifs with h
  · exact h.2.symm
  · rfl

theorem usable_down {sem sem' : Option Semaphore} {reply : Reply}
    (h : Semaphore.down sem reply = some sem') : usable sem' = usable sem := by
  cases reply with
  | timesOut | fails =>
    cases h
    rfl
  | ok =>
    simp only [Semaphore.down] at h
    split_ifs at h with hpermit
    cases h
    exact hpermit.1.symm

theorem permitsOf_up_le (sem : Option Semaphore) (reply : Reply) :
    permitsOf (Semaphore.up sem reply) ≤ permitsOf sem + 1 := by
  unfold Semaphore.up
  split_ifs
  · exact Nat.le_refl _
  · exact Nat.le_succ _

theorem Test.Wf.put {t : Test} (h : t.Wf) (role : Role) (hwon : t.won = true)
    {sem : Option Semaphore} (hsem : usable sem = usable (t.get role)) : (t.put role sem).Wf := by
  obtain ⟨pc, start, done, won, taken⟩ := t
  obtain rfl : won = true := hwon
  cases role with
  | start =>
    simp only [Test.get] at hsem
    simp only [Test.put, Test.Wf, hsem] at h ⊢
    cases pc <;> simp_all
  | done =>
    simp only [Test.get] at hsem
    simp only [Test.put, Test.Wf, hsem] at h ⊢
    cases pc <;> simp_all

/-- The semaphores of the context while a task is not over. -/
theorem Inv.alive {s : State} (h : Inv s) {c : Context} (hc : s.context = some c)
    (hlt : overs s.holders s.waiters < s.holders.length + s.waiters.length) :
    ∃ t, s.tests[c.test]? = some t ∧ t.won = true ∧ Tasks s.holders s.waiters t ∧
      ∀ role, usable (t.get role) = true := by
  obtain ⟨t, ht, hwon, htasks⟩ := h.tasks c hc
  refine ⟨t, ht, hwon, htasks, fun role => ?_⟩
  cases role with
  | start => exact (htasks.alive hlt).1
  | done => exact (htasks.alive hlt).2

theorem overs_lt_of_holder {hs : List Holder} {ws : List Waiter} {i : Nat} {hd : Holder}
    (hi : hs[i]? = some hd) (hover : hd.over = false) : overs hs ws < hs.length + ws.length := by
  have hset := countP_set_insert Holder.over (y := ⟨.tail (.finished (.ok .unit)), none, false, none⟩)
    hi hover rfl
  have hle : (hs.set i ⟨.tail (.finished (.ok .unit)), none, false, none⟩).countP Holder.over ≤
      hs.length := (List.countP_le_length).trans_eq List.length_set
  have hws : ws.countP Waiter.over ≤ ws.length := List.countP_le_length
  unfold overs
  omega

theorem overs_lt_of_waiter {hs : List Holder} {ws : List Waiter} {i : Nat} {w : Waiter}
    (hi : ws[i]? = some w) (hover : w.over = false) : overs hs ws < hs.length + ws.length := by
  have hset := countP_set_insert Waiter.over (y := ⟨.tail (.finished (.ok .unit)), none, false, false⟩)
    hi hover rfl
  have hle : (ws.set i ⟨.tail (.finished (.ok .unit)), none, false, false⟩).countP Waiter.over ≤
      ws.length := (List.countP_le_length).trans_eq List.length_set
  have hhs : hs.countP Holder.over ≤ hs.length := List.countP_le_length
  unfold overs
  omega

theorem up_eq {s : State} (handle : Handle) {reply : Reply} {t : Test}
    (ht : s.tests[handle.test]? = some t) (hu : usable (t.get handle.role) = true) :
    s.up handle reply =
      s.gotoTest handle.test (t.put handle.role (Semaphore.up (t.get handle.role) reply)) := by
  simp only [State.up, ht, touch_usable hu]

theorem down_eq {s s' : State} (handle : Handle) {reply : Reply} {t : Test}
    (ht : s.tests[handle.test]? = some t) (hu : usable (t.get handle.role) = true)
    (hs : s.down handle reply = some s') :
    ∃ sem, Semaphore.down (t.get handle.role) reply = some sem ∧
      s' = s.gotoTest handle.test (t.put handle.role sem) := by
  simp only [State.down, ht, touch_usable hu] at hs
  obtain ⟨sem, hsem, rfl⟩ := Option.map_eq_some_iff.mp hs
  exact ⟨sem, hsem, rfl⟩

/-- A task changes `start`. -/
theorem Inv.changeStart {s : State} (h : Inv s) {c : Context} {t : Test} {sem : Option Semaphore}
    (ht : s.tests[c.test]? = some t) (hwon : t.won = true)
    (hsem : usable sem = usable t.start) : Inv (s.gotoTest c.test (t.put .start sem)) := by
  have hwf := (h.wf t (List.mem_of_getElem? ht)).put .start hwon hsem
  refine h.rework s.holders s.waiters ht hwon hwon hwf ?_
  exact (h.tasks_of_won ht hwon).advance rfl rfl (Nat.le_refl _) rfl hsem rfl
    (h.tasks_of_won ht hwon).account

theorem Inv.upStart {s : State} (h : Inv s) {c : Context} (hc : s.context = some c)
    (hlt : overs s.holders s.waiters < s.holders.length + s.waiters.length) (reply : Reply) :
    Inv (s.up ⟨c.test, .start⟩ reply) := by
  obtain ⟨t, ht, hwon, htasks, hu⟩ := h.alive hc hlt
  rw [up_eq ⟨c.test, .start⟩ ht (hu .start)]
  exact h.changeStart ht hwon (usable_up _ _)

theorem Inv.downStart {s s' : State} (h : Inv s) {c : Context} (hc : s.context = some c)
    (hlt : overs s.holders s.waiters < s.holders.length + s.waiters.length) {reply : Reply}
    (hs : s.down ⟨c.test, .start⟩ reply = some s') : Inv s' := by
  obtain ⟨t, ht, hwon, htasks, hu⟩ := h.alive hc hlt
  obtain ⟨sem, hsem, rfl⟩ := down_eq ⟨c.test, .start⟩ ht (hu .start) hs
  exact h.changeStart ht hwon (usable_down hsem)

/-- The last operation of a task: it signals and is over. -/
theorem Inv.signal {s : State} (h : Inv s) (hs : List Holder) (ws : List Waiter) {c : Context} (hc : s.context = some c)
    (hlt : overs s.holders s.waiters < s.holders.length + s.waiters.length) (reply : Reply)
    (hholders : hs.length = s.holders.length) (hwaiters : ws.length = s.waiters.length)
    (hovers : overs hs ws = overs s.holders s.waiters + 1) :
    Inv { s.up ⟨c.test, .done⟩ reply with holders := hs, waiters := ws } := by
  obtain ⟨t, ht, hwon, htasks, hu⟩ := h.alive hc hlt
  rw [up_eq ⟨c.test, .done⟩ ht (hu .done)]
  have hwf := (h.wf t (List.mem_of_getElem? ht)).put .done hwon (usable_up _ reply)
  refine h.rework hs ws ht hwon hwon hwf ?_
  refine htasks.advance hholders hwaiters (by omega) rfl rfl (usable_up _ _) ?_
  have hle := permitsOf_up_le t.done reply
  have haccount := htasks.account
  show permitsOf (Semaphore.up t.done reply) + t.taken ≤ overs hs ws
  omega

/-- A step of tasks that are not over. -/
theorem Inv.advance {s : State} (h : Inv s) (hs : List Holder) (ws : List Waiter)
    (hholders : hs.length = s.holders.length) (hwaiters : ws.length = s.waiters.length)
    (hovers : overs hs ws = overs s.holders s.waiters) :
    Inv { s with holders := hs, waiters := ws } where
  service := h.service
  noFaults := h.noFaults
  wf := h.wf
  won := h.won
  unfilled hc := by
    obtain ⟨hnil, hnil'⟩ := h.unfilled hc
    rw [hnil] at hholders
    rw [hnil'] at hwaiters
    exact ⟨List.length_eq_zero_iff.mp hholders, List.length_eq_zero_iff.mp hwaiters⟩
  tasks c hc := by
    obtain ⟨t, ht, hwon, htasks⟩ := h.tasks c hc
    exact ⟨t, ht, hwon, htasks.advance hholders hwaiters hovers.ge rfl rfl rfl
      (hovers ▸ htasks.account)⟩

theorem Inv.gotoHolder {s : State} (h : Inv s) {i : Nat} {hd hd' : Holder}
    (hi : s.holders[i]? = some hd) (hover : hd'.over = hd.over) : Inv (s.gotoHolder i hd') :=
  h.advance _ s.waiters List.length_set rfl
    (congrArg (· + _) (countP_set_eq Holder.over hi hover))

theorem Inv.gotoWaiter {s : State} (h : Inv s) {i : Nat} {w w' : Waiter}
    (hi : s.waiters[i]? = some w) (hover : w'.over = w.over) : Inv (s.gotoWaiter i w') :=
  h.advance s.holders _ rfl List.length_set
    (congrArg (_ + ·) (countP_set_eq Waiter.over hi hover))

theorem Inv.updateContext {s : State} (h : Inv s) {f : Context → Context}
    (hf : ∀ c, (f c).test = c.test) : Inv (s.updateContext f) where
  service := h.service
  noFaults := h.noFaults
  wf := h.wf
  won i t ht hwon := by
    obtain ⟨c, hc, hi⟩ := h.won i t ht hwon
    exact ⟨f c, by rw [State.updateContext, hc]; rfl, (hf c).trans hi⟩
  unfilled hc := h.unfilled (Option.map_eq_none_iff.mp hc)
  tasks c hc := by
    obtain ⟨c', hc', rfl⟩ := Option.map_eq_some_iff.mp hc
    rw [hf]
    exact h.tasks c' hc'

theorem Inv.stepService {s s' : State} (h : Inv s) {a : Service.Action}
    (hs : s.stepService a = some s') : Inv s' := by
  obtain ⟨service, hstep, rfl⟩ := Option.map_eq_some_iff.mp hs
  exact ⟨h.service.step hstep, h.noFaults, h.wf, h.won, h.unfilled, h.tasks⟩

/-! ## §4 Steps of the tasks -/

theorem Inv.answerHolder {s s' : State} (h : Inv s) {i k : Nat} {hd : Holder} {result : Result}
    (hi : s.holders[i]? = some hd) (hover : hd.over = false)
    (hs : s.answerHolder i hd k result = some s') : Inv s' := by
  obtain ⟨s₁, hs₁, rfl⟩ := Option.map_eq_some_iff.mp hs
  have hinv := h.stepService hs₁
  obtain ⟨service, -, rfl⟩ := Option.map_eq_some_iff.mp hs₁
  exact hinv.gotoHolder hi (by rw [hover]; rfl)

/-- An operation on `start` leaves the tasks as they are. -/
theorem tasks_up (s : State) (handle : Handle) (reply : Reply) :
    (s.up handle reply).holders = s.holders ∧ (s.up handle reply).waiters = s.waiters := by
  unfold State.up State.touch
  split
  · split_ifs <;> exact ⟨rfl, rfl⟩
  · split_ifs <;> exact ⟨rfl, rfl⟩

theorem tasks_down {s s' : State} {handle : Handle} {reply : Reply}
    (hs : s.down handle reply = some s') : s'.holders = s.holders ∧ s'.waiters = s.waiters := by
  unfold State.down at hs
  split at hs
  · obtain ⟨sem, -, rfl⟩ := Option.map_eq_some_iff.mp hs
    unfold State.touch
    split_ifs <;> exact ⟨rfl, rfl⟩
  · cases hs
    unfold State.touch
    split_ifs <;> exact ⟨rfl, rfl⟩

theorem Inv.stepHolder {codeOf : CryptoError → UInt32} {s s' : State} (h : Inv s) {i : Nat}
    {reply : Reply} {hd : Holder} (hi : s.holders[i]? = some hd)
    (hs : s.stepHolder codeOf i reply hd = some s') : Inv s' := by
  -- every place but the last is that of a task that is not over
  have live : hd.over = false → overs s.holders s.waiters < s.holders.length + s.waiters.length :=
    fun hover => overs_lt_of_holder hi hover
  unfold State.stepHolder at hs
  split at hs
  · rename_i hpc
    obtain ⟨s₁, hs₁, rfl⟩ := Option.map_eq_some_iff.mp hs
    have hinv := h.stepService hs₁
    obtain ⟨service, -, rfl⟩ := Option.map_eq_some_iff.mp hs₁
    exact hinv.gotoHolder hi (by rw [Holder.over, Holder.over, hpc])
  · rename_i k hpc hk
    have hover : hd.over = false := by rw [Holder.over, hpc]
    split at hs
    · cases hs
      exact h.gotoHolder hi (by rw [hover]; rfl)
    · split_ifs at hs
      split at hs
      · rename_i c hc
        cases hs
        refine (h.upStart hc (live hover) .ok).gotoHolder (?_ : _ = some hd) (by rw [hover]; rfl)
        rwa [(tasks_up ..).1]
      · rename_i c _ hc
        refine (h.upStart hc (live hover) _).answerHolder (?_ : _ = some hd) hover hs
        rwa [(tasks_up ..).1]
      · cases hs
  · rename_i k hpc hk
    have hover : hd.over = false := by rw [Holder.over, hpc]
    split at hs
    · cases hs
      exact h.gotoHolder hi (by rw [hover]; rfl)
    · exact h.answerHolder hi hover hs
    · exact h.answerHolder hi hover hs
  · rename_i k hpc hk
    have hover : hd.over = false := by rw [Holder.over, hpc]
    obtain ⟨value, -, hs⟩ := Option.bind_eq_some_iff.mp hs
    split_ifs at hs
    · exact h.answerHolder hi hover hs
    · cases hs
      exact h.gotoHolder hi (by rw [hover]; rfl)
  · rename_i k hpc hk
    have hover : hd.over = false := by rw [Holder.over, hpc]
    cases hs
    refine Inv.gotoHolder (s := s.updateContext _) (h.updateContext ?_) hi ?_
    · exact fun _ => rfl
    · rw [hover]
      rfl
  · rename_i result sameDigest k hpc hk
    have hover : hd.over = false := by rw [Holder.over, hpc]
    refine Inv.answerHolder (s := s.updateContext _) (h.updateContext ?_) hi hover hs
    exact fun _ => rfl
  · rename_i k hpc hk
    have hover : hd.over = false := by rw [Holder.over, hpc]
    obtain ⟨result, -, rfl⟩ := Option.map_eq_some_iff.mp hs
    exact h.gotoHolder hi (by rw [hover]; rfl)
  · rename_i t hpc
    obtain ⟨⟨s₁, t'⟩, hs₁, rfl⟩ := Option.map_eq_some_iff.mp hs
    cases t with
    | completing result =>
      have hover : hd.over = false := by rw [Holder.over, hpc]; rfl
      cases hs₁
      dsimp only
      split
      · exact h.gotoHolder hi (by rw [hover]; rfl)
      · exact (h.tally _).gotoHolder hi (by rw [hover]; rfl)
    | storing result =>
      have hover : hd.over = false := by rw [Holder.over, hpc]; rfl
      cases hs₁
      refine Inv.gotoHolder (s := s.updateContext _) (h.updateContext ?_) hi ?_
      · exact fun _ => rfl
      · rw [hover]
        rfl
    | signalling result =>
      have hover : hd.over = false := by rw [Holder.over, hpc]; rfl
      obtain ⟨c, hc, hpair⟩ := Option.map_eq_some_iff.mp hs₁
      cases hpair
      have hinv := h.signal (s.holders.set i { hd with pc := .tail (.finished result) })
        s.waiters hc (live hover) reply List.length_set rfl
        (by
          unfold overs
          rw [countP_set_insert Holder.over hi hover rfl]
          omega)
      show Inv ((s.up ⟨c.test, .done⟩ reply).gotoHolder i { hd with pc := .tail (.finished result) })
      rw [State.gotoHolder, (tasks_up ..).1]
      rw [← (tasks_up s ⟨c.test, .done⟩ reply).2] at hinv
      exact hinv
    | finished result => cases hs₁
  all_goals cases hs

theorem Inv.stepHash {s s' : State} (h : Inv s) {i : Nat} {result : Result} {sameDigest : Bool}
    {hd : Holder} (hi : s.holders[i]? = some hd)
    (hs : s.stepHash i result sameDigest hd = some s') : Inv s' := by
  unfold State.stepHash at hs
  split at hs
  · rename_i hpc
    cases hs
    exact h.gotoHolder hi (by rw [Holder.over, Holder.over, hpc])
  all_goals cases hs

theorem Inv.waiterFails {s : State} (h : Inv s) {i : Nat} {w w' : Waiter} (code : UInt32)
    (hi : s.waiters[i]? = some w) (hover : w.over = false) : Inv (s.waiterFails i w' code) :=
  h.gotoWaiter hi (by rw [hover]; rfl)

theorem Inv.stepWaiter {codeOf : CryptoError → UInt32} {s s' : State} (h : Inv s) {i : Nat}
    {reply : Reply} {w : Waiter} (hi : s.waiters[i]? = some w)
    (hs : s.stepWaiter codeOf i reply w = some s') : Inv s' := by
  have live : w.over = false → overs s.holders s.waiters < s.holders.length + s.waiters.length :=
    fun hover => overs_lt_of_waiter hi hover
  unfold State.stepWaiter at hs
  split at hs
  · rename_i hpc
    have hover : w.over = false := by rw [Waiter.over, hpc]
    obtain ⟨c, hc, hs⟩ := Option.bind_eq_some_iff.mp hs
    obtain ⟨s₁, hs₁, rfl⟩ := Option.map_eq_some_iff.mp hs
    have hinv := h.downStart hc (live hover) hs₁
    have hi₁ : s₁.waiters[i]? = some w := by rwa [(tasks_down hs₁).2]
    cases reply with
    | ok => exact hinv.gotoWaiter hi₁ (by rw [hover]; rfl)
    | timesOut => exact hinv.waiterFails 6 hi₁ hover
    | fails => exact hinv.waiterFails 5 hi₁ hover
  · rename_i hpc
    cases hs
    refine Inv.gotoWaiter (s := s.updateContext _) (h.updateContext ?_) hi ?_
    · exact fun _ => rfl
    · rw [Waiter.over, Waiter.over, hpc]
  · rename_i hpc
    obtain ⟨s₁, hs₁, rfl⟩ := Option.map_eq_some_iff.mp hs
    have hinv := h.stepService hs₁
    obtain ⟨service, -, rfl⟩ := Option.map_eq_some_iff.mp hs₁
    exact hinv.gotoWaiter hi (by rw [Waiter.over, Waiter.over, hpc])
  · rename_i hpc
    have hover : w.over = false := by rw [Waiter.over, hpc]
    split at hs
    · cases hs
      exact h.gotoWaiter hi (by rw [hover]; rfl)
    all_goals cases hs
  · rename_i sameBlock hpc
    have hover : w.over = false := by rw [Waiter.over, hpc]
    obtain ⟨value, -, rfl⟩ := Option.map_eq_some_iff.mp hs
    split_ifs
    · exact h.waiterFails 7 hi hover
    · exact h.gotoWaiter hi (by rw [hover]; rfl)
    · exact h.waiterFails 8 hi hover
  · rename_i t hpc
    obtain ⟨⟨s₁, t'⟩, hs₁, rfl⟩ := Option.map_eq_some_iff.mp hs
    cases t with
    | completing result =>
      have hover : w.over = false := by rw [Waiter.over, hpc]; rfl
      cases hs₁
      dsimp only
      split
      · exact h.gotoWaiter hi (by rw [hover]; rfl)
      · exact (h.tally _).gotoWaiter hi (by rw [hover]; rfl)
    | storing result =>
      have hover : w.over = false := by rw [Waiter.over, hpc]; rfl
      cases hs₁
      refine Inv.gotoWaiter (s := s.updateContext _) (h.updateContext ?_) hi ?_
      · exact fun _ => rfl
      · rw [hover]
        rfl
    | signalling result =>
      have hover : w.over = false := by rw [Waiter.over, hpc]; rfl
      obtain ⟨c, hc, hpair⟩ := Option.map_eq_some_iff.mp hs₁
      cases hpair
      have hinv := h.signal s.holders
        (s.waiters.set i { w with pc := .tail (.finished result) }) hc (live hover) reply rfl
        List.length_set
        (by
          unfold overs
          rw [countP_set_insert Waiter.over hi hover rfl]
          omega)
      show Inv ((s.up ⟨c.test, .done⟩ reply).gotoWaiter i { w with pc := .tail (.finished result) })
      rw [State.gotoWaiter, (tasks_up ..).2]
      rw [← (tasks_up s ⟨c.test, .done⟩ reply).1] at hinv
      exact hinv
    | finished result => cases hs₁

theorem Inv.stepCompare {s s' : State} (h : Inv s) {i : Nat} {sameBlock : Bool} {w : Waiter}
    (hi : s.waiters[i]? = some w) (hs : s.stepCompare i sameBlock w = some s') : Inv s' := by
  unfold State.stepCompare at hs
  split at hs
  · rename_i hpc
    split at hs
    · cases hs
      exact h.gotoWaiter hi (by rw [Waiter.over, Waiter.over, hpc])
    all_goals cases hs
  all_goals cases hs

/-! ## §5 Main result -/

theorem Inv.step {codeOf : CryptoError → UInt32} {s s' : State} {a : Action} (h : Inv s)
    (hs : step codeOf s a = some s') : Inv s' := by
  cases a with
  | service a =>
    rw [Contention.step] at hs
    split_ifs at hs
    exact h.stepService hs
  | test =>
    cases hs
    refine ⟨h.service, h.noFaults, fun t ht => ?_, fun i t ht hwon => ?_, h.unfilled, fun c hc => ?_⟩
    · rcases List.mem_append.mp ht with ht | ht
      · exact h.wf t ht
      · rw [List.mem_singleton.mp ht]
        exact ⟨rfl, rfl⟩
    · rcases getElem?_append_cases ht with ht | ⟨-, rfl⟩
      · exact h.won i t ht hwon
      · cases hwon
    · obtain ⟨t, ht, htasks⟩ := h.tasks c hc
      exact ⟨t, (List.getElem?_append_left (List.getElem?_eq_some_iff.mp ht).1).trans ht, htasks⟩
  | testStep i reply =>
    obtain ⟨t, ht, hs⟩ := Option.bind_eq_some_iff.mp hs
    exact h.stepTest ht hs
  | holder i reply =>
    obtain ⟨hd, hi, hs⟩ := Option.bind_eq_some_iff.mp hs
    exact h.stepHolder hi hs
  | hash i result sameDigest =>
    obtain ⟨hd, hi, hs⟩ := Option.bind_eq_some_iff.mp hs
    exact h.stepHash hi hs
  | waiter i reply =>
    obtain ⟨w, hi, hs⟩ := Option.bind_eq_some_iff.mp hs
    exact h.stepWaiter hi hs
  | compare i sameBlock =>
    obtain ⟨w, hi, hs⟩ := Option.bind_eq_some_iff.mp hs
    exact h.stepCompare hi hs

theorem reachable_inv {codeOf : CryptoError → UInt32} {s : State}
    (h : Reachable (step codeOf) init s) : Inv s :=
  h.invariant inv_init fun _ _ _ hI hs => hI.step hs

/-- What no interleaving of tests, tasks and users of the service breaks. -/
structure Safe (s : State) : Prop where
  /-- No operation on a semaphore that is destroyed or was never made. -/
  noFaults : s.faults = []
  /-- The tasks are spawned once, however many tests are run. -/
  tasks : s.holders.length ≤ 1 ∧ s.waiters.length ≤ 1
  /-- A test that has succeeded has destroyed both semaphores, and the tasks are over. -/
  succeeded : ∀ t ∈ s.tests, t.pc = .returned (.ok ()) →
    usable t.start = false ∧ usable t.done = false ∧
      s.holders.length = 1 ∧ s.waiters.length = 1 ∧
      (∀ h ∈ s.holders, h.over = true) ∧ ∀ w ∈ s.waiters, w.over = true
  /-- At most one test succeeds. -/
  once : s.tests.countP (fun t => t.pc = .returned (.ok ())) ≤ 1

theorem all_over {hs : List Holder} {ws : List Waiter} (h : overs hs ws = hs.length + ws.length) :
    (∀ hd ∈ hs, hd.over = true) ∧ ∀ w ∈ ws, w.over = true := by
  have hhs : hs.countP Holder.over ≤ hs.length := List.countP_le_length
  have hws : ws.countP Waiter.over ≤ ws.length := List.countP_le_length
  unfold overs at h
  exact ⟨List.countP_eq_length.mp (by omega), List.countP_eq_length.mp (by omega)⟩

theorem contention_safe {codeOf : CryptoError → UInt32} {s : State}
    (h : Reachable (step codeOf) init s) : Safe s := by
  have hinv := reachable_inv h
  have hok : ∀ t ∈ s.tests, t.pc = .returned (.ok ()) →
      t.won = true ∧ t.taken = 2 ∧ usable t.start = false ∧ usable t.done = false := by
    intro t ht hpc
    have hwf := hinv.wf t ht
    rwa [Test.Wf, hpc] at hwf
  refine ⟨hinv.noFaults, hinv.lengths, fun t ht hpc => ?_, countP_le_one fun i j t u hi hj ht hu => ?_⟩
  · obtain ⟨hwon, htaken, hstart, hdone⟩ := hok t ht hpc
    obtain ⟨i, hi⟩ := List.mem_iff_getElem?.mp ht
    obtain ⟨hsettled, hone, hone'⟩ := (hinv.tasks_of_won hi hwon).settled htaken
    exact ⟨hstart, hdone, hone, hone', all_over hsettled⟩
  · have hit := (hok t (List.mem_of_getElem? hi) (of_decide_eq_true ht)).1
    have hju := (hok u (List.mem_of_getElem? hj) (of_decide_eq_true hu)).1
    obtain ⟨c, hc, rfl⟩ := hinv.won i t hi hit
    obtain ⟨c', hc', rfl⟩ := hinv.won j u hj hju
    rw [hc, Option.some_inj] at hc'
    rw [hc']

/-- Installation, a test with its two tasks, and the test again. -/
def successRun : List Action :=
  [.service .install, .service (.create 0 true), .service (.installer 0), .service (.installer 0),
    .service (.installer 0), .test, .testStep 0 .ok, .testStep 0 .ok, .testStep 0 .ok,
    .testStep 0 .ok, .testStep 0 .ok, .holder 0 .ok, .service (.client 0), .service (.acquires 0),
    .holder 0 .ok, .waiter 0 .ok, .waiter 0 .ok, .waiter 0 .ok, .service (.client 1),
    .service (.clock 1 5), .service (.client 1), .holder 0 .ok, .holder 0 .ok, .holder 0 .ok,
    .hash 0 (.ok .unit) true, .holder 0 .ok, .service (.unlock 0 true), .holder 0 .ok, .holder 0 .ok,
    .holder 0 .ok, .holder 0 .ok, .service (.acquires 1), .service (.backend 1 (.ok .unit)),
    .service (.unlock 1 true), .service (.clock 1 9), .service (.client 1), .service (.client 1),
    .compare 0 true, .waiter 0 .ok, .waiter 0 .ok, .waiter 0 .ok, .waiter 0 .ok, .testStep 0 .ok,
    .testStep 0 .ok, .testStep 0 .ok, .testStep 0 .ok, .testStep 0 .ok, .testStep 0 .ok,
    .testStep 0 .ok, .testStep 0 .ok, .testStep 0 .ok]

theorem contention_safe_success :
    ∃ s, (s.tests.map Test.pc = [.returned (.ok ())] ∧ s.tally = ⟨1, 0, 1, 1, 1⟩) ∧ Safe s :=
  ⟨_, ⟨rfl, rfl⟩, contention_safe
    (⟨successRun, Steps.of_run rfl⟩ : Reachable (step fun _ => 1) init _)⟩

end HisiRiscv.Crypto.Contention
