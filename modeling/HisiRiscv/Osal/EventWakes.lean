/-
HisiRiscv.Osal.EventWakes — no reader is left behind by `osal_event_write`.

A reader whose condition holds while it waits has a permit, or a write call still has to call
`up` on its semaphore: the condition did not hold when the reader was entered into the table, and
the write that made it hold has copied the entry. A write call whose `up` fails returns at once and
drops the pointers it still has; in a run where no reader depends on these, the fact holds
in every state.

  §1 The condition.
  §2 Bits and conditions.
  §3 The invariant.
  §4 Main results.
-/
import HisiRiscv.Osal.EventTable

namespace HisiRiscv.Osal.EventGroup

open HisiRiscv.Machine

/-! ## §1 The condition -/

/-- The condition of the call holds for these bits. -/
def Reader.satisfied (r : Reader) (bits : UInt32) : Bool := (eventMatches bits r.mask r.mode).isSome

def State.HasPermit (s : State) (p : Nat) : Prop := ∃ sem ∈ s.semaphores p, 0 < sem.permits

instance (s : State) (p : Nat) : Decidable (s.HasPermit p) :=
  inferInstanceAs (Decidable (∃ sem ∈ s.semaphores p, 0 < sem.permits))

/-- One of these write calls still has to call `up` on the semaphore. -/
def Pending (writers : List Writer) (p : Nat) : Prop :=
  ∃ w ∈ writers, ∃ c ∈ w.pointers, c.pointer = p

instance (writers : List Writer) (p : Nat) : Decidable (Pending writers p) :=
  inferInstanceAs (Decidable (∃ w ∈ writers, ∃ c ∈ w.pointers, c.pointer = p))

/-- When an `up` fails, nobody whose signal is dropped with it depends on this one: the reader has
left, or its condition does not hold any more, or it has a permit, or another write call has its
pointer too. -/
def DropsNone (s : State) : Action → Prop
  | .upFails k =>
      ∀ w ∈ s.writers[k]?, ∀ c ∈ w.pointers, ∀ r ∈ s.readers,
        r.pc = .waiting c.pointer → r.satisfied s.group.bits = true →
          s.HasPermit c.pointer ∨ Pending (s.writers.eraseIdx k) c.pointer
  | .read _ _ _ _ | .write _ | .clear _ | .reader _ | .pin _ _ _ _ | .giveUp _ | .writer _ => True

instance decidableDropsNone (s : State) : (a : Action) → Decidable (DropsNone s a)
  | .upFails k =>
      inferInstanceAs (Decidable (∀ w ∈ s.writers[k]?, ∀ c ∈ w.pointers, ∀ r ∈ s.readers,
        r.pc = .waiting c.pointer → r.satisfied s.group.bits = true →
          s.HasPermit c.pointer ∨ Pending (s.writers.eraseIdx k) c.pointer))
  | .read _ _ _ _ | .write _ | .clear _ | .reader _ | .pin _ _ _ _ | .giveUp _ | .writer _ =>
      inferInstanceAs (Decidable True)

/-! ## §2 Bits and conditions -/

/-- Fewer bits satisfy no more. -/
theorem Reader.satisfied_of_and {r : Reader} {bits keep : UInt32}
    (h : r.satisfied (bits &&& keep) = true) : r.satisfied bits = true := by
  have hand : bits &&& keep &&& r.mask = keep &&& (bits &&& r.mask) := by
    rw [UInt32.and_comm bits keep, UInt32.and_assoc]
  unfold Reader.satisfied eventMatches at h ⊢
  rw [hand] at h
  by_cases hmode : r.mode &&& waitmodeAnd ≠ 0
  · simp only [if_pos hmode, Bool.and_eq_true, beq_iff_eq, bne_iff_ne, Option.isSome_ite] at h ⊢
    refine ⟨?_, h.2⟩
    have hself : bits &&& (keep &&& (bits &&& r.mask)) = keep &&& (bits &&& r.mask) := by
      rw [← UInt32.and_assoc, UInt32.and_comm bits keep, UInt32.and_assoc,
        ← UInt32.and_assoc bits bits, UInt32.and_self]
    rw [h.1] at hself
    exact hself
  · simp only [if_neg hmode, bne_iff_ne, Option.isSome_ite] at h ⊢
    intro hzero
    rw [hzero] at h
    exact h (UInt32.and_zero)

/-- A poll only takes bits away. -/
theorem Reader.satisfied_of_poll {r : Reader} {g g' : Group} {mask mode matched : UInt32}
    (h : g.pollEvent mask mode = some (matched, g')) (hr : r.satisfied g'.bits = true) :
    r.satisfied g.bits = true := by
  obtain ⟨m, -, heq⟩ := Option.map_eq_some_iff.mp h
  obtain ⟨-, rfl⟩ := Prod.mk.inj heq
  split at hr
  · exact Reader.satisfied_of_and hr
  · exact hr

/-! ## §3 The invariant -/

/-- A waiting reader whose condition holds has a permit, or will get one. -/
def Signalled (s : State) : Prop :=
  ∀ r ∈ s.readers, ∀ p, r.pc = .waiting p → r.satisfied s.group.bits = true →
    s.HasPermit p ∨ Pending s.writers p

section Invariant

variable {s t : State} {k : Nat} {r : Reader} {a : Action}

/-- The semaphore of another read call is left alone. -/
theorem ReaderStep.semaphores_eq (h : ReaderStep s k r a t) (hsound : Sound s)
    (hk : s.readers[k]? = some r) {j : Nat} {r' : Reader} (hj : s.readers[j]? = some r')
    (hjk : j ≠ k) {q : Nat} (hq : r'.pc.semaphore? = some q) : t.semaphores q = s.semaphores q := by
  cases h with
  | acquires hpc | destroys hpc =>
    exact Function.update_of_ne (hsound.ne_of_other hk (by rw [hpc]; rfl) hj hjk hq).1 ..
  | @pins now p hpc hearly hfree =>
    refine Function.update_of_ne ?_ ..
    rintro rfl
    obtain ⟨-, serial, hid⟩ := hsound.alone.owned j r' _ hj hq
    obtain ⟨sem, hsem, -⟩ := Option.map_eq_some_iff.mp hid
    exact hfree (.inr (Option.isSome_of_mem hsem))
  | takes | misses | takesPinned | tableFull | registers | unregisters | expires | pinFails | givesUp =>
    rfl

theorem ReaderStep.satisfied_of (h : ReaderStep s k r a t) {r' : Reader}
    (hr : r'.satisfied t.group.bits = true) : r'.satisfied s.group.bits = true := by
  cases h with
  | takes hpc hpoll | takesPinned hpc hpoll => exact Reader.satisfied_of_poll hpoll hr
  | @registers p group hpc hpoll hregister =>
    obtain ⟨i, -, rfl⟩ := Option.map_eq_some_iff.mp hregister
    exact hr
  | @unregisters p acquired hpc =>
    have hbits : (s.group.unregister p).bits = s.group.bits := by
      unfold Group.unregister
      split <;> rfl
    rw [← hbits]
    exact hr
  | misses | tableFull | acquires | destroys | expires | pins | pinFails | givesUp => exact hr

/-- A call begins to wait when its condition does not hold. -/
theorem ReaderStep.not_satisfied (h : ReaderStep s k r a t) (hk : s.readers[k]? = some r) {r' : Reader}
    (hr : t.readers[k]? = some r') {p : Nat} (hpc : r'.pc = .waiting p) :
    r'.satisfied t.group.bits = false := by
  have hlt : k < s.readers.length := (List.getElem?_eq_some_iff.mp hk).1
  cases h with
  | @registers q group _ hpoll hregister =>
    obtain ⟨i, -, rfl⟩ := Option.map_eq_some_iff.mp hregister
    obtain rfl : _ = r' := Option.some.inj ((List.getElem?_set_self hlt).symm.trans hr)
    have hnone : eventMatches s.group.bits r.mask r.mode = none := Option.map_eq_none_iff.mp hpoll
    exact Option.isSome_eq_false_iff.mpr (Option.isNone_iff_eq_none.mpr hnone)
  | @destroys q result _ =>
    obtain rfl : _ = r' := Option.some.inj ((List.getElem?_set_self hlt).symm.trans hr)
    cases result <;> cases hpc
  | takes | misses | takesPinned | tableFull | acquires | unregisters | expires | pins | pinFails
  | givesUp =>
    obtain rfl : _ = r' := Option.some.inj ((List.getElem?_set_self hlt).symm.trans hr)
    cases hpc

theorem signalled_reader (h : Signalled s) (hsound : Sound s) (hk : s.readers[k]? = some r)
    (hstep : ReaderStep s k r a t) : Signalled t := by
  intro r' hr p hpc hsat
  obtain ⟨j, hj⟩ := List.mem_iff_getElem?.mp hr
  by_cases hjk : j = k
  · subst hjk
    rw [hstep.not_satisfied hk hj hpc] at hsat
    cases hsat
  · obtain ⟨pc, hreaders, hwriters⟩ := hstep.readers_eq
    rw [hreaders, List.getElem?_set_ne (Ne.symm hjk)] at hj
    have hsem := hstep.semaphores_eq hsound hk hj hjk (q := p) (by rw [hpc]; rfl)
    rw [hwriters, State.HasPermit, hsem]
    exact h r' (List.mem_of_getElem? hj) p hpc (hstep.satisfied_of hsat)

/-- The critical section of a write call copies the entry of every reader it satisfies. -/
theorem pending_stepSet (hsound : Sound s) {w : Writer} (hk : s.writers[k]? = some w) (mask : UInt32)
    {j : Nat} (hj : s.readers[j]? = some r) {p : Nat} (hpc : r.pc = .waiting p)
    (hsat : r.satisfied (s.group.bits ||| mask) = true) : Pending (s.stepSet k mask).writers p := by
  have hp : r.pc.semaphore? = some p := by rw [hpc]; rfl
  have hentry := hsound.entered j r p hj hp (by rw [hpc]; rfl)
  have hzero := (hsound.alone.owned j r p hj hp).1
  have hlt : k < s.writers.length := (List.getElem?_eq_some_iff.mp hk).1
  have hcopied : p ∈ Group.satisfied { s.group with bits := s.group.bits ||| mask } := by
    refine List.mem_map.mpr ⟨_, List.mem_filter.mpr ⟨hentry, ?_⟩, rfl⟩
    exact Bool.and_eq_true_iff.mpr ⟨by simpa using hzero, hsat⟩
  exact ⟨_, List.mem_of_getElem? (List.getElem?_set_self hlt), _,
    List.mem_map.mpr ⟨p, hcopied, rfl⟩, rfl⟩

/-- A pointer that another write call has stays with it. -/
theorem Pending.set {writers : List Writer} {p : Nat} {w : Writer} (hk : writers[k]? = some w)
    (h : Pending writers p) (hw : ∀ c ∈ w.pointers, c.pointer ≠ p) (w' : Writer) :
    Pending (writers.set k w') p := by
  obtain ⟨v, hv, c, hc, hp⟩ := h
  refine ⟨v, Ledger.mem_set_of_ne hk hv ?_, c, hc, hp⟩
  rintro rfl
  exact hw c hc hp

theorem signalled_writer (h : Signalled s) (hsound : Sound s) {w : Writer}
    (hk : s.writers[k]? = some w) (hs : s.stepWriter k w = some t) : Signalled t := by
  have hlt : k < s.writers.length := (List.getElem?_eq_some_iff.mp hk).1
  cases w with
  | entered mask =>
    cases hs
    intro r hr p hpc hsat
    obtain ⟨j, hj⟩ := List.mem_iff_getElem?.mp hr
    exact .inr (pending_stepSet hsound hk mask hj hpc hsat)
  | waking pointers =>
    cases pointers with
    | nil =>
      cases hs
      intro r hr p hpc hsat
      exact (h r hr p hpc hsat).imp_right fun hpending => hpending.set hk (by rintro _ ⟨⟩) _
    | cons c rest =>
      cases hs
      intro r hr p hpc hsat
      by_cases hp : c.pointer = p
      · -- the reader gets its permit
        obtain ⟨j, hj⟩ := List.mem_iff_getElem?.mp hr
        obtain ⟨-, serial, hid⟩ := hsound.alone.owned j r p hj (by rw [hpc]; rfl)
        obtain ⟨sem, hsem, -⟩ := Option.map_eq_some_iff.mp hid
        change s.semaphores p = some sem at hsem
        left
        refine ⟨{ sem with permits := sem.permits + 1 }, ?_, Nat.succ_pos _⟩
        subst hp
        change Function.update _ _ _ _ = _
        rw [Function.update_self, hsem]
        rfl
      · refine (h r hr p hpc hsat).imp ?_ ?_
        · rintro ⟨sem, hsem, hpermit⟩
          refine ⟨sem, ?_, hpermit⟩
          change Function.update _ _ _ _ = _
          rw [Function.update_of_ne (Ne.symm hp)]
          exact hsem
        · rintro ⟨v, hv, c', hc', hp'⟩
          by_cases hsame : v = .waking (c :: rest)
          · subst hsame
            refine ⟨_, List.mem_of_getElem? (List.getElem?_set_self hlt), c', ?_, hp'⟩
            rcases List.mem_cons.mp hc' with rfl | hrest
            · exact absurd hp' hp
            · exact hrest
          · exact ⟨v, Ledger.mem_set_of_ne hk hv hsame, c', hc', hp'⟩
  | returned result => cases hs

theorem signalled_upFails (h : Signalled s) {w : Writer} (hk : s.writers[k]? = some w)
    (hok : DropsNone s (.upFails k)) (hs : s.stepUpFails k w = some t) : Signalled t := by
  unfold State.stepUpFails at hs
  split at hs
  · rename_i c rest
    cases hs
    intro r hr p hpc hsat
    rcases h r hr p hpc hsat with hpermit | hpending
    · exact .inl hpermit
    · by_cases hdropped : ∃ c' ∈ Writer.pointers (.waking (c :: rest)), c'.pointer = p
      · obtain ⟨c', hc', rfl⟩ := hdropped
        refine (hok _ hk c' hc' r hr hpc hsat).imp_right ?_
        rintro ⟨v, hv, hpointer⟩
        obtain ⟨i, hik, hi⟩ := List.mem_eraseIdx_iff_getElem?.mp hv
        exact ⟨v, List.mem_of_getElem? ((List.getElem?_set_ne (Ne.symm hik)).trans hi), hpointer⟩
      · right
        exact hpending.set hk (fun c' hc' hp => hdropped ⟨c', hc', hp⟩) _
  all_goals cases hs

theorem signalled_step (h : Signalled s) (hsound : Sound s) (hok : DropsNone s a)
    (hs : step s a = some t) : Signalled t := by
  cases ha : a.reader? with
  | some k =>
    obtain ⟨r, hk, hstep⟩ := readerStep_of_step hs ha
    exact signalled_reader h hsound hk hstep
  | none =>
    cases a with
    | read mask timeoutMs mode now =>
      cases hs
      intro r hr p hpc hsat
      rcases List.mem_append.mp hr with hr | hr
      · exact h r hr p hpc hsat
      · obtain rfl := List.mem_singleton.mp hr
        cases hpc
    | write mask =>
      cases hs
      intro r hr p hpc hsat
      refine (h r hr p hpc hsat).imp_right ?_
      rintro ⟨w, hw, hrest⟩
      exact ⟨w, List.mem_append_left _ hw, hrest⟩
    | clear mask =>
      cases hs
      intro r hr p hpc hsat
      exact h r hr p hpc (Reader.satisfied_of_and hsat)
    | writer k =>
      obtain ⟨w, hk, hs⟩ := Option.bind_eq_some_iff.mp hs
      exact signalled_writer h hsound hk hs
    | upFails k =>
      obtain ⟨w, hk, hs⟩ := Option.bind_eq_some_iff.mp hs
      exact signalled_upFails h hk hok hs
    | reader | pin | giveUp => cases ha

end Invariant

/-! ## §4 Main results -/

/-- No call has anything left to do but to wait. -/
structure Quiescent (s : State) : Prop where
  writers : ∀ w ∈ s.writers, ∃ result, w = .returned result
  readers : ∀ r ∈ s.readers, (∃ v, r.pc = .returned v) ∨ ∃ p, r.pc = .waiting p ∧ ¬ s.HasPermit p

/-- The condition has held since the critical section of a write call that has returned. -/
def HeldSince (as : List Action) (s : State) (r : Reader) : Prop :=
  ∃ (before after : List Action) (k : Nat) (u : State), as = before ++ .writer k :: after ∧
    run step init before = some u ∧ (∃ mask, u.writers[k]? = some (.entered mask)) ∧
      (∃ result, s.writers[k]? = some (.returned result)) ∧
        ∀ bs cs, after = bs ++ cs → ∀ v, run step init (before ++ .writer k :: bs) = some v →
          r.satisfied v.group.bits = true

/-- A reader waits without a permit although a write call should have woken it. -/
def Forgotten (as : List Action) (s : State) (r : Reader) : Prop :=
  (∃ p, r.pc = .waiting p ∧ ¬ s.HasPermit p) ∧ HeldSince as s r

section Main

variable {as : List Action} {s : State}

theorem signalled_run (h : Steps step DropsNone init as s) : Sound s ∧ Signalled s :=
  h.invariant (I := fun s => Sound s ∧ Signalled s) ⟨sound_init, fun _ hr => by cases hr⟩
    fun _ _ _ hinv hok hs => ⟨sound_step hinv.1 hs, signalled_step hinv.2 hinv.1 hok hs⟩

theorem HeldSince.holds {ok : State → Action → Prop} (hrun : Steps step ok init as s) {r : Reader}
    (h : HeldSince as s r) : r.satisfied s.group.bits = true := by
  obtain ⟨before, after, k, u, rfl, -, -, -, hheld⟩ := h
  exact hheld after [] (List.append_nil _).symm s hrun.run_eq

/-- **Every satisfied reader is woken.** In a run where no failing `up` drops a signal that a reader
depends on, the condition of a reader that is left waiting does not hold, so that no write
call has forgotten it. -/
theorem event_write_wakes_all (h : Steps step DropsNone init as s) (hq : Quiescent s) :
    ∀ r ∈ s.readers, ∀ p, r.pc = .waiting p →
      eventMatches s.group.bits r.mask r.mode = none ∧ ¬ Forgotten as s r := by
  intro r hr p hpc
  have hunsatisfied : r.satisfied s.group.bits = false := by
    by_contra hsat
    rcases (signalled_run h).2 r hr p hpc (Bool.eq_true_of_not_eq_false hsat) with
      hpermit | ⟨w, hw, c, hc, -⟩
    · rcases hq.readers r hr with ⟨v, hreturned⟩ | ⟨q, hwaiting, hnone⟩
      · rw [hpc] at hreturned
        cases hreturned
      · obtain rfl := ReadPc.waiting.inj (hpc.symm.trans hwaiting)
        exact hnone hpermit
    · obtain ⟨result, rfl⟩ := hq.writers w hw
      cases hc
  refine ⟨Option.isNone_iff_eq_none.mp (Option.isSome_eq_false_iff.mp hunsatisfied), ?_⟩
  rintro ⟨-, hheld⟩
  rw [hheld.holds h] at hunsatisfied
  cases hunsatisfied

/-- Two write calls have the pointer of the same reader, and the `up` of the first fails; another
reader waits for bit 1. -/
def otherWriterRun : List Action :=
  [.read 1 10 0 0, .reader 0, .pin 0 5 64 true, .reader 0, .read 2 10 0 0, .reader 1,
    .pin 1 5 128 true, .reader 1, .write 1, .writer 0, .write 1, .writer 1, .upFails 0, .writer 1,
    .writer 1, .reader 0, .reader 0, .reader 0, .reader 0]

/-- What the samples observe. -/
def State.observed (s : State) : List Reader × List Writer × UInt32 × Option Semaphore × Option Semaphore :=
  (s.readers, s.writers, s.group.bits, s.semaphores 64, s.semaphores 128)

theorem event_write_wakes_all_sample : ∃ s : State,
    s.readers = [⟨1, 0, false, 10, .returned 1⟩, ⟨2, 0, false, 10, .waiting 128⟩] ∧
      s.writers = [.returned 1, .returned 0] ∧ eventMatches s.group.bits 2 0 = none := by
  have hrun : (run (guarded step DropsNone) init otherWriterRun).map State.observed =
      some ([⟨1, 0, false, 10, .returned 1⟩, ⟨2, 0, false, 10, .waiting 128⟩],
        [.returned 1, .returned 0], 1, none, some ⟨0, 1, 1⟩) := by
    decide +kernel
  obtain ⟨s, hs, hlast⟩ := Option.map_eq_some_iff.mp hrun
  simp only [State.observed, Prod.mk.injEq] at hlast
  obtain ⟨hreaders, hwriters, hbits, -, hsem⟩ := hlast
  have hq : Quiescent s := by
    constructor
    · rw [hwriters]
      intro w hw
      rcases List.mem_cons.mp hw with rfl | hw
      · exact ⟨1, rfl⟩
      · exact ⟨0, List.mem_singleton.mp hw⟩
    · rw [hreaders]
      intro r hr
      rcases List.mem_cons.mp hr with rfl | hr
      · exact .inl ⟨1, rfl⟩
      · obtain rfl := List.mem_singleton.mp hr
        refine .inr ⟨128, rfl, ?_⟩
        rintro ⟨sem, hmem, hpermit⟩
        rw [hsem] at hmem
        cases hmem
        exact Nat.lt_irrefl 0 hpermit
  exact ⟨s, hreaders, hwriters, (event_write_wakes_all (Steps.of_run_guarded hs) hq _
    (by rw [hreaders]; exact List.mem_cons_of_mem _ (List.mem_singleton_self _)) 128 rfl).1⟩

/-- Two readers wait for bit 0, and the first `up` of the write call that sets it fails. -/
def upFailsRun : List Action :=
  [.read 1 10 0 0, .reader 0, .pin 0 5 64 true, .reader 0, .read 1 10 0 0, .reader 1,
    .pin 1 5 128 true, .reader 1, .write 1]

/-- Both are left waiting. -/
theorem event_write_forgets :
    ¬ ∀ (as : List Action) (s : State), Steps step Always init as s → Quiescent s →
      ∀ r ∈ s.readers, ¬ Forgotten as s r := by
  intro h
  have hset : (run step init upFailsRun).map State.writers = some [.entered 1] := by decide +kernel
  have hbits : (run step init (upFailsRun ++ [.writer 0])).map (fun s => s.group.bits) = some 1 := by
    decide +kernel
  have hrun : (run step init (upFailsRun ++ [.writer 0, .upFails 0])).map State.observed =
      some ([⟨1, 0, false, 10, .waiting 64⟩, ⟨1, 0, false, 10, .waiting 128⟩], [.returned 1], 1,
        some ⟨0, 0, 0⟩, some ⟨0, 1, 1⟩) := by decide +kernel
  obtain ⟨u, hu, hentered⟩ := Option.map_eq_some_iff.mp hset
  obtain ⟨s, hs, hlast⟩ := Option.map_eq_some_iff.mp hrun
  simp only [State.observed, Prod.mk.injEq] at hlast
  obtain ⟨hreaders, hwriters, hone, hfirst, hsecond⟩ := hlast
  have hnone (p : Nat) (hp : p = 64 ∨ p = 128) : ¬ s.HasPermit p := by
    rintro ⟨sem, hsem, hpermit⟩
    rcases hp with rfl | rfl
    · rw [hfirst] at hsem
      cases hsem
      exact Nat.lt_irrefl 0 hpermit
    · rw [hsecond] at hsem
      cases hsem
      exact Nat.lt_irrefl 0 hpermit
  have hq : Quiescent s := by
    constructor
    · rw [hwriters]
      intro w hw
      exact ⟨1, List.mem_singleton.mp hw⟩
    · rw [hreaders]
      intro r hr
      rcases List.mem_pair.mp hr with rfl | rfl
      · exact .inr ⟨64, rfl, hnone 64 (.inl rfl)⟩
      · exact .inr ⟨128, rfl, hnone 128 (.inr rfl)⟩
  refine h _ s (Steps.of_run hs) hq ⟨1, 0, false, 10, .waiting 64⟩
    (by rw [hreaders]; exact List.mem_cons_self) ⟨⟨64, rfl, hnone 64 (.inl rfl)⟩,
      upFailsRun, [.upFails 0], 0, u, rfl, hu, ⟨1, by rw [hentered]; rfl⟩,
      ⟨1, by rw [hwriters]; rfl⟩, ?_⟩
  intro bs cs hsplit v hv
  rcases List.cons_eq_append_iff.mp hsplit with ⟨rfl, -⟩ | ⟨rest, rfl, hrest⟩
  · rw [hv] at hbits
    have hone' : v.group.bits = 1 := Option.some.inj hbits
    rw [hone']
    decide
  · obtain ⟨rfl, -⟩ := List.nil_eq_append_iff.mp hrest
    obtain rfl := Option.some.inj (hs.symm.trans hv)
    rw [hone]
    decide

end Main

end HisiRiscv.Osal.EventGroup
