/-
HisiRiscv.Osal.EventTable — the table of waiters in every run.

What `EventGroup.Inv` says about the readers and the table does not need the condition that it
needs for the pointers of the writers: no write call reads or writes the table, so a run is one
of the readers alone as far as they are concerned. The converse of its `table` is added here: a reader
that waits has its entry.

  §1 What a step leaves.
  §2 The readers alone.
  §3 Who waits is entered.
-/
import HisiRiscv.Osal.EventGroupTheorems

namespace HisiRiscv.Osal.EventGroup

open HisiRiscv.Machine

/-! ## §1 What a step leaves -/

section Steps

variable {s t : State} {k : Nat} {a : Action}

/-- Every other step leaves the table and the read calls there are; a new one begins with a poll. -/
theorem step_other (hs : step s a = some t) (ha : a.reader? = none) :
    t.group.waiters = s.group.waiters ∧
      (t.readers = s.readers ∨ ∃ r : Reader, r.pc = .polling ∧ t.readers = s.readers ++ [r]) := by
  cases a with
  | read mask timeoutMs mode now =>
    cases hs
    exact ⟨rfl, .inr ⟨_, rfl, rfl⟩⟩
  | write | clear =>
    cases hs
    exact ⟨rfl, .inl rfl⟩
  | writer j =>
    obtain ⟨w, -, hs⟩ := Option.bind_eq_some_iff.mp hs
    unfold State.stepWriter at hs
    split at hs
    all_goals cases hs
    all_goals exact ⟨rfl, .inl rfl⟩
  | upFails j =>
    obtain ⟨w, -, hs⟩ := Option.bind_eq_some_iff.mp hs
    unfold State.stepUpFails at hs
    split at hs
    all_goals cases hs
    exact ⟨rfl, .inl rfl⟩
  | reader | pin | giveUp => cases ha

/-- A call that does not take the step is as it was, or begins. -/
theorem getElem?_of_step (hs : step s a = some t) (ha : a.reader? ≠ some k) {r : Reader}
    (hr : t.readers[k]? = some r) : s.readers[k]? = some r ∨ s.readers.length = k ∧ r.pc = .polling := by
  cases hj : a.reader? with
  | none =>
    rcases (step_other hs hj).2 with heq | ⟨r₀, hpc, heq⟩
    · exact .inl (heq ▸ hr)
    · rw [heq] at hr
      rcases Ledger.getElem?_append_cases hr with hold | ⟨rfl, rfl⟩
      · exact .inl hold
      · exact .inr ⟨rfl, hpc⟩
  | some j =>
    obtain ⟨r₀, -, hstep⟩ := readerStep_of_step hs hj
    obtain ⟨pc, hreaders, -⟩ := hstep.readers_eq
    have hjk : j ≠ k := fun heq => ha (hj.trans (congrArg some heq))
    rw [hreaders, List.getElem?_set_ne hjk] at hr
    exact .inl hr

/-- A call keeps its mask and its mode. -/
theorem mask_mode_of_step (hs : step s a = some t) {r : Reader} (hr : s.readers[k]? = some r) :
    ∃ r', t.readers[k]? = some r' ∧ r'.mask = r.mask ∧ r'.mode = r.mode := by
  cases hj : a.reader? with
  | none =>
    rcases (step_other hs hj).2 with heq | ⟨r₀, -, heq⟩
    · exact ⟨r, heq ▸ hr, rfl, rfl⟩
    · refine ⟨r, ?_, rfl, rfl⟩
      rw [heq, List.getElem?_append_left (List.getElem?_eq_some_iff.mp hr).1, hr]
  | some j =>
    obtain ⟨r₀, hj₀, hstep⟩ := readerStep_of_step hs hj
    obtain ⟨pc, hreaders, -⟩ := hstep.readers_eq
    obtain ⟨r₁, hr₁, hmask, hmode, -⟩ := lookup_set hj₀ pc hr
    exact ⟨r₁, hreaders ▸ hr₁, hmask, hmode⟩

theorem length_readers_le (hs : step s a = some t) : s.readers.length ≤ t.readers.length := by
  cases hj : a.reader? with
  | none =>
    rcases (step_other hs hj).2 with heq | ⟨r₀, -, heq⟩
    · rw [heq]
    · rw [heq, List.length_append]
      exact Nat.le_add_right ..
  | some j =>
    obtain ⟨r₀, -, hstep⟩ := readerStep_of_step hs hj
    obtain ⟨pc, hreaders, -⟩ := hstep.readers_eq
    rw [hreaders, List.length_set]

end Steps

/-! ## §2 The readers alone -/

/-- The state without its write calls. -/
def State.alone (s : State) : State := { s with writers := [] }

section Alone

variable {s t : State} {k : Nat} {r : Reader} {a : Action}

/-- A read call does not notice. -/
theorem ReaderStep.alone (h : ReaderStep s k r a t) : ReaderStep s.alone k r a t.alone := by
  cases h with
  | takes hpc hpoll => exact .takes hpc hpoll
  | misses hpc hpoll => exact .misses hpc hpoll
  | takesPinned hpc hpoll => exact .takesPinned hpc hpoll
  | tableFull hpc hpoll hfull => exact .tableFull hpc hpoll hfull
  | registers hpc hpoll hregister => exact .registers hpc hpoll hregister
  | acquires hpc hsem hpermit => exact .acquires hpc hsem hpermit
  | unregisters hpc => exact .unregisters hpc
  | destroys hpc => exact .destroys hpc
  | expires hpc hlate => exact .expires hpc hlate
  | pins hpc hearly hfree => exact .pins hpc hearly hfree
  | pinFails hpc hearly hfree => exact .pinFails hpc hearly hfree
  | givesUp hpc => exact .givesUp hpc

theorem destroysUnclaimed_alone (s : State) (a : Action) : DestroysUnclaimed s.alone a := by
  cases a with
  | reader j =>
    intro r _ p _ w hw
    cases hw
  | read | write | clear | pin | giveUp | writer | upFails => trivial

/-- Of every other step the readers and the table take no notice. -/
theorem inv_alone_other (h : Inv s.alone) (hs : step s a = some t) (ha : a.reader? = none) :
    Inv t.alone := by
  cases a with
  | read mask timeoutMs mode now =>
    cases hs
    exact inv_step h (destroysUnclaimed_alone s (.read mask timeoutMs mode now)) rfl
  | clear mask =>
    cases hs
    exact inv_step h (destroysUnclaimed_alone s (.clear mask)) rfl
  | write mask =>
    cases hs
    exact h
  | writer j =>
    obtain ⟨w, -, hs⟩ := Option.bind_eq_some_iff.mp hs
    cases w with
    | entered mask =>
      cases hs
      exact h.writer (k := 0) (w := .returned 0) rfl rfl rfl rfl (by rintro _ ⟨⟩)
    | waking pointers =>
      cases pointers with
      | nil =>
        cases hs
        exact h
      | cons c rest =>
        cases hs
        exact h.writer (k := 0) (w := .returned 0) rfl rfl (identity_up s c.pointer) rfl
          (by rintro _ ⟨⟩)
    | returned result => cases hs
  | upFails j =>
    obtain ⟨w, -, hs⟩ := Option.bind_eq_some_iff.mp hs
    unfold State.stepUpFails at hs
    split at hs
    all_goals cases hs
    exact h
  | reader | pin | giveUp => cases ha

theorem inv_alone_step (h : Inv s.alone) (hs : step s a = some t) : Inv t.alone := by
  cases ha : a.reader? with
  | none => exact inv_alone_other h hs ha
  | some k =>
    obtain ⟨r, hk, hstep⟩ := readerStep_of_step hs ha
    exact hstep.alone.inv h hk (destroysUnclaimed_alone s a)

end Alone

/-! ## §3 Who waits is entered -/

/-- The readers and the table agree. -/
structure Sound (s : State) : Prop where
  alone : Inv s.alone
  entered : ∀ (k : Nat) (r : Reader) (p : Nat), s.readers[k]? = some r →
    r.pc.semaphore? = some p → r.pc.registered = true → ⟨p, r.mask, r.mode⟩ ∈ s.group.waiters

section Sound

variable {s t : State} {k : Nat} {r : Reader} {a : Action}

theorem sound_init : Sound init where
  alone := inv_init
  entered _ _ _ hk := by cases hk

/-- Another reader's semaphore is another one, and not null. -/
theorem Sound.ne_of_other (h : Sound s) (hk : s.readers[k]? = some r) {p : Nat}
    (hp : r.pc.semaphore? = some p) {j : Nat} {r' : Reader} (hj : s.readers[j]? = some r')
    (hjk : j ≠ k) {q : Nat} (hq : r'.pc.semaphore? = some q) : q ≠ p ∧ q ≠ 0 := by
  refine ⟨?_, (h.alone.owned j r' q hj hq).1⟩
  rintro rfl
  exact hjk (h.alone.owner_unique hj hk hq hp)

/-- The entry of another reader, before and after a step of read call `k`. -/
theorem ReaderStep.entry_iff (h : ReaderStep s k r a t) (hsound : Sound s) (hk : s.readers[k]? = some r)
    {j : Nat} {r' : Reader} (hj : s.readers[j]? = some r') (hjk : j ≠ k) {q : Nat}
    (hq : r'.pc.semaphore? = some q) (mask mode : UInt32) (i : Nat) :
    t.group.waiters[i]? = some ⟨q, mask, mode⟩ ↔ s.group.waiters[i]? = some ⟨q, mask, mode⟩ := by
  cases h with
  | takes hpc hpoll | takesPinned hpc hpoll =>
    dsimp only [State.goto]
    rw [pollEvent_waiters hpoll]
  | @registers p group hpc hpoll hregister =>
    have hne := hsound.ne_of_other hk (p := p) (by rw [hpc]; rfl) hj hjk hq
    obtain ⟨i₀, hi₀, rfl⟩ := Option.map_eq_some_iff.mp hregister
    obtain ⟨waiter, hget, hfree⟩ := Ledger.getElem?_of_findIdx? hi₀
    refine Ledger.getElem?_set_iff hget ?_ ?_ i
    · rintro rfl
      exact hne.2 (by simpa using hfree)
    · intro heq
      exact hne.1 (congrArg EventWaiter.semaphore heq).symm
  | @unregisters p acquired hpc =>
    have hne := hsound.ne_of_other hk (p := p) (by rw [hpc]; rfl) hj hjk hq
    change (s.group.unregister p).waiters[i]? = _ ↔ _
    unfold Group.unregister
    split
    · exact Iff.rfl
    · rename_i i₀ hi₀
      obtain ⟨waiter, hget, hfound⟩ := Ledger.getElem?_of_findIdx? hi₀
      refine Ledger.getElem?_set_iff hget ?_ ?_ i
      · rintro rfl
        exact hne.1 (by simpa using hfound)
      · intro heq
        exact hne.2 (congrArg EventWaiter.semaphore heq).symm
  | misses | tableFull | acquires | destroys | expires | pins | pinFails | givesUp => exact Iff.rfl

/-- After its own step a read call that is registered has its entry. -/
theorem ReaderStep.entered (h : ReaderStep s k r a t) (hsound : Sound s) (hk : s.readers[k]? = some r)
    {r' : Reader} (hr : t.readers[k]? = some r') {p : Nat} (hp : r'.pc.semaphore? = some p)
    (hreg : r'.pc.registered = true) : ⟨p, r'.mask, r'.mode⟩ ∈ t.group.waiters := by
  have hlt : k < s.readers.length := (List.getElem?_eq_some_iff.mp hk).1
  have hold := hsound.entered k r
  cases h with
  | @registers p group hpc hpoll hregister =>
    obtain ⟨i, hi, rfl⟩ := Option.map_eq_some_iff.mp hregister
    obtain ⟨waiter, hget, -⟩ := Ledger.getElem?_of_findIdx? hi
    obtain rfl : _ = r' := Option.some.inj ((List.getElem?_set_self hlt).symm.trans hr)
    cases hp
    exact List.mem_of_getElem? (List.getElem?_set_self (List.getElem?_eq_some_iff.mp hget).1)
  | acquires hpc | givesUp hpc =>
    obtain rfl : _ = r' := Option.some.inj ((List.getElem?_set_self hlt).symm.trans hr)
    cases hp
    exact hold _ hk (by rw [hpc]; rfl) (by rw [hpc]; rfl)
  | @destroys p result hpc =>
    obtain rfl : _ = r' := Option.some.inj ((List.getElem?_set_self hlt).symm.trans hr)
    cases result <;> cases hp
  | takes | misses | takesPinned | tableFull | unregisters | expires | pins | pinFails =>
    obtain rfl : _ = r' := Option.some.inj ((List.getElem?_set_self hlt).symm.trans hr)
    cases hreg

theorem sound_step (h : Sound s) (hs : step s a = some t) : Sound t := by
  refine ⟨inv_alone_step h.alone hs, fun j r' p hj hp hreg => ?_⟩
  by_cases ha : a.reader? = some j
  · obtain ⟨r, hk, hstep⟩ := readerStep_of_step hs ha
    exact hstep.entered h hk hj hp hreg
  rcases getElem?_of_step hs ha hj with hj | ⟨-, hpc⟩
  · have hentry := h.entered j r' p hj hp hreg
    cases hk : a.reader? with
    | none => rwa [(step_other hs hk).1]
    | some k =>
      obtain ⟨r, hr, hstep⟩ := readerStep_of_step hs hk
      have hjk : j ≠ k := fun heq => ha (hk.trans (congrArg some heq.symm))
      obtain ⟨i, hi⟩ := List.mem_iff_getElem?.mp hentry
      exact List.mem_of_getElem? ((hstep.entry_iff h hr hj hjk hp r'.mask r'.mode i).mpr hi)
  · rw [hpc] at hp
    cases hp

theorem sound_run {ok : State → Action → Prop} {as : List Action} (h : Steps step ok init as s) :
    Sound s :=
  h.invariant sound_init fun _ _ _ hsound _ hs => sound_step hsound hs

end Sound

end HisiRiscv.Osal.EventGroup
