/-
HisiRiscv.Osal.EventGroupTheorems — whom `osal_event_write` wakes.

The pointers a writer copies in its critical section designate semaphores
of waiting readers. After the critical section nothing holds these readers
back: one that times out, or is woken by another writer, unregisters,
destroys its semaphore and leaves its frame while the writer still has the
address. In a run where no semaphore is destroyed in that window, every
`up` finds the semaphore it was meant for.

  §1 The condition.
  §2 Identities of semaphores.
  §3 The invariant.
  §4 Readers.
  §5 Writers.
  §6 Main results.
-/
import HisiRiscv.Lib.Ledger
import HisiRiscv.Osal.EventSteps

namespace HisiRiscv.Osal.EventGroup

open HisiRiscv.Machine

/-! ## §1 The condition -/

/-- The semaphore the next step of a read call destroys. -/
def ReadPc.destroys? : ReadPc → Option Nat
  | leaving p _ => some p
  | polling | unmatched | pinned _ | waiting _ | woken _ _ | returned _ => none

/-- A read call destroys its semaphore only if no write call still has to call
`up` on it. -/
def DestroysUnclaimed (s : State) : Action → Prop
  | .reader k =>
      ∀ r ∈ s.readers[k]?, ∀ p ∈ r.pc.destroys?, ∀ w ∈ s.writers, ∀ c ∈ w.pointers, c.pointer ≠ p
  | .read _ _ _ _ | .write _ | .clear _ | .pin _ _ _ _ | .giveUp _ | .writer _ | .upFails _ => True

instance decidableDestroysUnclaimed (s : State) : (a : Action) → Decidable (DestroysUnclaimed s a)
  | .reader k =>
      inferInstanceAs (Decidable (∀ r ∈ s.readers[k]?, ∀ p ∈ r.pc.destroys?,
        ∀ w ∈ s.writers, ∀ c ∈ w.pointers, c.pointer ≠ p))
  | .read _ _ _ _ | .write _ | .clear _ | .pin _ _ _ _ | .giveUp _ | .writer _ | .upFails _ =>
      inferInstanceAs (Decidable True)

/-! ## §2 Identities of semaphores -/

/-- The serial number and the owner of the semaphore at an address. -/
def State.identity (s : State) (p : Nat) : Option (Nat × Nat) :=
  (s.semaphores p).map fun sem => (sem.serial, sem.owner)

theorem identity_update_none (semaphores : Nat → Option Semaphore) {p q : Nat} (h : q ≠ p) :
    (Function.update semaphores p none q).map (fun sem => (sem.serial, sem.owner)) =
      (semaphores q).map fun sem => (sem.serial, sem.owner) := by
  rw [Function.update_of_ne h]

/-- Only the permits change. -/
theorem identity_up (s : State) (p : Nat) : (s.up p).identity = s.identity := by
  funext q
  simp only [State.identity, State.up, Function.update_apply]
  split
  · rename_i heq
    subst heq
    rw [Option.map_map]
    rfl
  · rfl

/-- A permit is taken. -/
theorem identity_down {s : State} {p : Nat} {sem : Semaphore} (h : s.semaphores p = some sem)
    {k : Nat} {r : Reader} {pc : ReadPc} :
    ({ s with
      semaphores :=
        Function.update s.semaphores p (some { sem with permits := sem.permits - 1 }) }.goto
      k r pc).identity = s.identity := by
  funext q
  simp only [State.identity, State.goto, Function.update_apply]
  split
  · rename_i heq
    subst heq
    rw [h]
    rfl
  · rfl

/-! ## §3 The invariant -/

/-- The pointer designates the semaphore that the writer has copied, and the
condition of its reader held for the bits the writer compared. -/
def State.Signals (s : State) (c : Copied) : Prop :=
  ∃ (serial k : Nat) (r : Reader), s.identity c.pointer = some (serial, k) ∧
    c.serial = some serial ∧ s.readers[k]? = some r ∧
      (eventMatches c.bits r.mask r.mode).isSome = true

structure Inv (s : State) : Prop where
  /-- a semaphore in a frame is live and belongs to its call -/
  owned : ∀ k r p, s.readers[k]? = some r → r.pc.semaphore? = some p →
    p ≠ 0 ∧ ∃ serial, s.identity p = some (serial, k)
  /-- an entry of the table belongs to a waiting reader -/
  table : ∀ w ∈ s.group.waiters, w.semaphore ≠ 0 → ∃ (k : Nat) (r : Reader),
    s.readers[k]? = some r ∧ r.mask = w.mask ∧ r.mode = w.mode ∧
      r.pc.semaphore? = some w.semaphore ∧ r.pc.registered = true
  distinct : (s.group.waiters.filterMap fun w =>
    if w.semaphore = 0 then none else some w.semaphore).Nodup
  copied : ∀ w ∈ s.writers, ∀ c ∈ w.pointers, s.Signals c

section Inv

variable {s t : State}

theorem inv_init : Inv init where
  owned := nofun
  table w hw hne := by
    rw [(List.mem_replicate.mp hw).2] at hne
    exact absurd rfl hne
  distinct := by decide
  copied := nofun

/-- Two frames do not share a semaphore. -/
theorem Inv.owner_unique (h : Inv s) {k k' : Nat} {r r' : Reader} {p : Nat}
    (hk : s.readers[k]? = some r) (hk' : s.readers[k']? = some r')
    (hp : r.pc.semaphore? = some p) (hp' : r'.pc.semaphore? = some p) : k = k' := by
  obtain ⟨-, serial, hid⟩ := h.owned k r p hk hp
  obtain ⟨-, serial', hid'⟩ := h.owned k' r' p hk' hp'
  rw [hid] at hid'
  exact (Prod.mk.inj (Option.some.inj hid')).2

/-- A semaphore whose call has not registered it is not in the table. -/
theorem Inv.not_in_table (h : Inv s) {k : Nat} {r : Reader} {p : Nat} (hk : s.readers[k]? = some r)
    (hp : r.pc.semaphore? = some p) (hreg : r.pc.registered = false) :
    ∀ w ∈ s.group.waiters, w.semaphore ≠ p := by
  rintro w hw rfl
  have hne := (h.owned k r _ hk hp).1
  obtain ⟨k', r', hk', -, -, hp', hreg'⟩ := h.table w hw hne
  obtain rfl := h.owner_unique hk hk' hp hp'
  rw [hk] at hk'
  cases hk'
  rw [hreg] at hreg'
  cases hreg'

/-! ## §4 Readers -/

/-- The other calls, and what this one asked for, are as before. -/
theorem lookup_set {readers : List Reader} {k : Nat} {r : Reader} (hk : readers[k]? = some r)
    (pc : ReadPc) {j : Nat} {r₀ : Reader} (hj : readers[j]? = some r₀) :
    ∃ r₁, (readers.set k { r with pc })[j]? = some r₁ ∧ r₁.mask = r₀.mask ∧ r₁.mode = r₀.mode ∧
      r₁.pc = if j = k then pc else r₀.pc := by
  by_cases hjk : j = k
  · subst hjk
    rw [hk] at hj
    cases hj
    have hlt : j < readers.length := (List.getElem?_eq_some_iff.mp hk).1
    exact ⟨_, List.getElem?_set_self hlt, rfl, rfl, (if_pos rfl).symm⟩
  · exact ⟨r₀, by rw [List.getElem?_set_ne (Ne.symm hjk), hj], rfl, rfl, (if_neg hjk).symm⟩

/-- A pointer stays good while its semaphore lives. -/
theorem State.Signals.goto {c : Copied} (h : s.Signals c) {k : Nat} {r : Reader}
    (hk : s.readers[k]? = some r) {pc : ReadPc} (hreaders : t.readers = s.readers.set k { r with pc })
    (hid : t.identity c.pointer = s.identity c.pointer) : t.Signals c := by
  obtain ⟨serial, j, r₀, hc, hserial, hj, hmatch⟩ := h
  obtain ⟨r₁, hr₁, hmask, hmode, -⟩ := lookup_set hk pc hj
  refine ⟨serial, j, r₁, hid.trans hc, hserial, ?_, ?_⟩
  · rw [hreaders]
    exact hr₁
  · rw [hmask, hmode]
    exact hmatch

/-- A read call moves on: what has to be said about its own semaphore, about
those of the others, and about the table. -/
theorem Inv.move (h : Inv s) {k : Nat} {r : Reader} (hk : s.readers[k]? = some r) {pc : ReadPc}
    (hreaders : t.readers = s.readers.set k { r with pc }) (hwriters : t.writers = s.writers)
    (hown : ∀ p, pc.semaphore? = some p → p ≠ 0 ∧ ∃ serial, t.identity p = some (serial, k))
    (hid : ∀ q serial j, s.identity q = some (serial, j) → r.pc.semaphore? ≠ some q →
      t.identity q = s.identity q)
    (hcopied : ∀ w ∈ s.writers, ∀ c ∈ w.pointers, t.identity c.pointer = s.identity c.pointer)
    (htable : ∀ w ∈ t.group.waiters, w.semaphore ≠ 0 →
      w ∈ s.group.waiters ∧ r.pc.semaphore? ≠ some w.semaphore ∨
        w.mask = r.mask ∧ w.mode = r.mode ∧ pc.semaphore? = some w.semaphore ∧ pc.registered = true)
    (hdistinct : (t.group.waiters.filterMap fun w =>
      if w.semaphore = 0 then none else some w.semaphore).Nodup) : Inv t := by
  refine ⟨fun j r' p hj hp => ?_, fun w hw hne => ?_, hdistinct, fun w hw c hc => ?_⟩
  · rw [hreaders] at hj
    rcases Ledger.getElem?_set_cases hj with ⟨rfl, rfl⟩ | ⟨hjk, hj⟩
    · exact hown p hp
    · obtain ⟨hne, serial, hp'⟩ := h.owned j r' p hj hp
      refine ⟨hne, serial, ?_⟩
      rw [hid p serial j hp' fun hsame => hjk (h.owner_unique hj hk hp hsame)]
      exact hp'
  · rcases htable w hw hne with ⟨hold, hother⟩ | ⟨hmask, hmode, hp, hreg⟩
    · obtain ⟨j, r₀, hj, hmask, hmode, hp, hreg⟩ := h.table w hold hne
      have hjk : j ≠ k := by
        rintro rfl
        rw [hk] at hj
        cases hj
        exact hother hp
      refine ⟨j, r₀, ?_, hmask, hmode, hp, hreg⟩
      rw [hreaders, List.getElem?_set_ne (Ne.symm hjk)]
      exact hj
    · have hlt : k < s.readers.length := (List.getElem?_eq_some_iff.mp hk).1
      refine ⟨k, { r with pc }, ?_, hmask.symm, hmode.symm, hp, hreg⟩
      rw [hreaders]
      exact List.getElem?_set_self hlt
  · rw [hwriters] at hw
    exact (h.copied w hw c hc).goto hk hreaders (hcopied w hw c hc)

/-- A read call moves on with its semaphore as before. -/
theorem Inv.goto (h : Inv s) {k : Nat} {r : Reader} (hk : s.readers[k]? = some r) {pc : ReadPc}
    (hreaders : t.readers = s.readers.set k { r with pc })
    (hwaiters : t.group.waiters = s.group.waiters) (hwriters : t.writers = s.writers)
    (hid : t.identity = s.identity) (hpc : pc.semaphore? = r.pc.semaphore?)
    (hreg : pc.registered = r.pc.registered) : Inv t := by
  refine h.move hk hreaders hwriters ?_ ?_ ?_ ?_ ?_
  · intro p hp
    rw [hid]
    exact h.owned k r p hk (hpc ▸ hp)
  · intro q _ _ _ _
    rw [hid]
  · intro w _ c _
    rw [hid]
  · intro w hw hne
    rw [hwaiters] at hw
    by_cases hsame : r.pc.semaphore? = some w.semaphore
    · obtain ⟨j, r₀, hj, hmask, hmode, hp, hregistered⟩ := h.table w hw hne
      obtain rfl := h.owner_unique hj hk hp hsame
      rw [hk] at hj
      cases hj
      exact .inr ⟨hmask.symm, hmode.symm, hpc.trans hp, hreg.trans hregistered⟩
    · exact .inl ⟨hw, hsame⟩
  · rw [hwaiters]
    exact h.distinct

theorem pollEvent_waiters {g g' : Group} {mask mode matched : UInt32}
    (h : g.pollEvent mask mode = some (matched, g')) : g'.waiters = g.waiters := by
  obtain ⟨m, -, heq⟩ := Option.map_eq_some_iff.mp h
  obtain ⟨-, rfl⟩ := Prod.mk.inj heq
  split <;> rfl

/-- A new semaphore is none of those in use. -/
theorem Inv.pin (h : Inv s) {k : Nat} {r : Reader} (hk : s.readers[k]? = some r)
    (hpc : r.pc = .unmatched) {p : Nat} (hp : ¬(p = 0 ∨ (s.semaphores p).isSome = true))
    (hreaders : t.readers = s.readers.set k { r with pc := .pinned p })
    (hgroup : t.group = s.group) (hwriters : t.writers = s.writers)
    (hsem : t.semaphores = Function.update s.semaphores p (some ⟨0, s.serial, k⟩)) : Inv t := by
  obtain ⟨hzero, hdead⟩ := not_or.mp hp
  have hfresh : ∀ q, s.identity q ≠ none → t.identity q = s.identity q := by
    intro q hq
    have hqp : q ≠ p := by
      rintro rfl
      refine hq ?_
      rw [State.identity, Option.not_isSome_iff_eq_none.mp hdead]
      rfl
    unfold State.identity
    rw [hsem, Function.update_of_ne hqp]
  refine h.move hk hreaders hwriters ?_ ?_ ?_ ?_ ?_
  · rintro q hq
    cases hq
    refine ⟨hzero, s.serial, ?_⟩
    unfold State.identity
    rw [hsem, Function.update_self]
    rfl
  · intro q serial j hq _
    exact hfresh q (by rw [hq]; nofun)
  · intro w hw c hc
    obtain ⟨serial, j, -, hid, -⟩ := h.copied w hw c hc
    exact hfresh _ (by rw [hid]; nofun)
  · intro w hw _
    rw [hgroup] at hw
    refine .inl ⟨hw, ?_⟩
    rw [hpc]
    nofun
  · rw [hgroup]
    exact h.distinct

/-- `register` enters the semaphore of the call. -/
theorem Inv.register (h : Inv s) {k : Nat} {r : Reader} (hk : s.readers[k]? = some r) {p : Nat}
    (hpc : r.pc = .pinned p) {group : Group}
    (hregister : s.group.register ⟨p, r.mask, r.mode⟩ = some group) :
    Inv ({ s with group }.goto k r (.waiting p)) := by
  have hp : r.pc.semaphore? = some p := by rw [hpc]; rfl
  have hnot := h.not_in_table hk hp (by rw [hpc]; rfl)
  obtain ⟨hzero, serial, hid⟩ := h.owned k r p hk hp
  obtain ⟨i, hi, rfl⟩ := Option.map_eq_some_iff.mp hregister
  obtain ⟨waiter, hget, hfree⟩ := Ledger.getElem?_of_findIdx? hi
  refine h.move hk rfl rfl ?_ (fun _ _ _ _ _ => rfl) (fun _ _ _ _ => rfl) ?_ ?_
  · rintro q hq
    cases hq
    exact ⟨hzero, serial, hid⟩
  · intro w hw _
    rcases Ledger.mem_set_cases hw with rfl | hw
    · exact .inr ⟨rfl, rfl, rfl, rfl⟩
    · refine .inl ⟨hw, ?_⟩
      rw [hp]
      intro heq
      exact hnot w hw (Option.some.inj heq).symm
  · have hperm := Ledger.filterMap_set_insert
      (fun w : EventWaiter => if w.semaphore = 0 then none else some w.semaphore)
      (y := ⟨p, r.mask, r.mode⟩) hget (if_pos (by simpa using hfree)) (if_neg hzero)
    refine hperm.nodup_iff.mpr (List.nodup_cons.mpr ⟨?_, h.distinct⟩)
    intro hmem
    obtain ⟨w, hw, hsome⟩ := List.mem_filterMap.mp hmem
    obtain ⟨-, heq⟩ := Option.ite_none_left_eq_some.mp hsome
    exact hnot w hw (Option.some.inj heq)

/-- After `unregister_waiter` the semaphore is not in the table. -/
theorem Inv.unregister (h : Inv s) {k : Nat} {r : Reader} (hk : s.readers[k]? = some r) {p : Nat}
    {acquired : Bool} (hpc : r.pc = .woken p acquired) (result : Option Int32) :
    Inv ({ s with group := s.group.unregister p }.goto k r (.leaving p result)) := by
  have hp : r.pc.semaphore? = some p := by rw [hpc]; rfl
  obtain ⟨hzero, serial, hid⟩ := h.owned k r p hk hp
  have hgone : (∀ w ∈ (s.group.unregister p).waiters, w.semaphore ≠ 0 →
      w ∈ s.group.waiters ∧ w.semaphore ≠ p) ∧
      ((s.group.unregister p).waiters.filterMap fun w =>
        if w.semaphore = 0 then none else some w.semaphore).Nodup := by
    unfold Group.unregister
    split
    · rename_i hnone
      refine ⟨fun w hw _ => ⟨hw, ?_⟩, h.distinct⟩
      simpa using List.findIdx?_eq_none_iff.mp hnone w hw
    · rename_i i hi
      obtain ⟨waiter, hget, hfound⟩ := Ledger.getElem?_of_findIdx? hi
      have hsame : waiter.semaphore = p := by simpa using hfound
      have hperm := Ledger.filterMap_set_erase
        (fun w : EventWaiter => if w.semaphore = 0 then none else some w.semaphore)
        (y := .empty) (b := p) hget (by rw [hsame, if_neg hzero]) rfl
      obtain ⟨hfirst, hrest⟩ := List.nodup_cons.mp (hperm.nodup_iff.mp h.distinct)
      refine ⟨fun w hw hne => ⟨?_, ?_⟩, hrest⟩
      · rcases Ledger.mem_set_cases hw with rfl | hw
        · exact absurd rfl hne
        · exact hw
      · rintro rfl
        exact hfirst (List.mem_filterMap.mpr ⟨w, hw, if_neg hne⟩)
  refine h.move hk rfl rfl ?_ (fun _ _ _ _ _ => rfl) (fun _ _ _ _ => rfl) ?_ hgone.2
  · rintro q hq
    cases hq
    exact ⟨hzero, serial, hid⟩
  · intro w hw hne
    obtain ⟨hold, hother⟩ := hgone.1 w hw hne
    refine .inl ⟨hold, ?_⟩
    rw [hp]
    intro heq
    exact hother (Option.some.inj heq).symm

/-- `destroy`, when no writer needs the semaphore any more. -/
theorem Inv.destroy (h : Inv s) {k : Nat} {r : Reader} (hk : s.readers[k]? = some r) {p : Nat}
    {result : Option Int32} (hpc : r.pc = .leaving p result) {pc : ReadPc}
    (hnone : pc.semaphore? = none) (hok : ∀ w ∈ s.writers, ∀ c ∈ w.pointers, c.pointer ≠ p) :
    Inv ({ s with semaphores := Function.update s.semaphores p none }.goto k r pc) := by
  have hp : r.pc.semaphore? = some p := by rw [hpc]; rfl
  have hnot := h.not_in_table hk hp (by rw [hpc]; rfl)
  refine h.move hk rfl rfl ?_ ?_ ?_ ?_ h.distinct
  · intro q hq
    rw [hnone] at hq
    cases hq
  · intro q _ _ _ hother
    refine identity_update_none s.semaphores ?_
    rintro rfl
    exact hother hp
  · intro w hw c hc
    exact identity_update_none s.semaphores (hok w hw c hc)
  · intro w hw _
    refine .inl ⟨hw, ?_⟩
    rw [hp]
    intro heq
    exact hnot w hw (Option.some.inj heq).symm

/-- A step of a read call that destroys no semaphore a writer still needs. -/
theorem ReaderStep.inv {k : Nat} {r : Reader} {a : Action} (hstep : ReaderStep s k r a t) (h : Inv s)
    (hk : s.readers[k]? = some r) (hok : DestroysUnclaimed s a) : Inv t := by
  cases hstep with
  | takes hpc hpoll | takesPinned hpc hpoll =>
    exact h.goto hk rfl (pollEvent_waiters hpoll) rfl rfl (by rw [hpc]; rfl) (by rw [hpc]; rfl)
  | misses hpc | tableFull hpc | givesUp hpc =>
    exact h.goto hk rfl rfl rfl rfl (by rw [hpc]; rfl) (by rw [hpc]; rfl)
  | registers hpc _ hregister => exact h.register hk hpc hregister
  | acquires hpc hsem =>
    exact h.goto hk rfl rfl rfl (identity_down hsem) (by rw [hpc]; rfl) (by rw [hpc]; rfl)
  | unregisters hpc => exact h.unregister hk hpc _
  | @destroys p result hpc =>
    refine h.destroy hk hpc ?_ (hok r hk p (by rw [hpc]; rfl))
    cases result <;> rfl
  | expires hpc | pinFails hpc =>
    exact h.goto hk rfl rfl rfl rfl (by rw [hpc]; rfl) (by rw [hpc]; rfl)
  | pins hpc _ hfree => exact h.pin hk hpc hfree rfl rfl rfl rfl

/-! ## §5 Writers -/

/-- A write call moves on. -/
theorem Inv.writer (h : Inv s) {k : Nat} {w : Writer} (hreaders : t.readers = s.readers)
    (hwaiters : t.group.waiters = s.group.waiters) (hid : t.identity = s.identity)
    (hwriters : t.writers = s.writers.set k w) (hpointers : ∀ c ∈ w.pointers, s.Signals c) :
    Inv t := by
  have hkeep : ∀ {c}, s.Signals c → t.Signals c := by
    rintro c ⟨serial, j, r, hc, hserial, hj, hmatch⟩
    refine ⟨serial, j, r, ?_, hserial, ?_, hmatch⟩
    · rw [hid]
      exact hc
    · rw [hreaders]
      exact hj
  refine ⟨?_, ?_, ?_, fun w' hw c hc => hkeep ?_⟩
  · rw [hreaders, hid]
    exact h.owned
  · rw [hreaders, hwaiters]
    exact h.table
  · rw [hwaiters]
    exact h.distinct
  · rw [hwriters] at hw
    rcases Ledger.mem_set_cases hw with rfl | hw
    · exact hpointers c hc
    · exact h.copied w' hw c hc

/-- What the critical section copies are the semaphores of readers whose
condition holds. -/
theorem Inv.signals_satisfied (h : Inv s) (bits : UInt32) {p : Nat}
    (hp : p ∈ Group.satisfied { s.group with bits }) :
    s.Signals ⟨p, (s.semaphores p).map Semaphore.serial, bits⟩ := by
  obtain ⟨w, hw, rfl⟩ := List.mem_map.mp hp
  obtain ⟨hw, hcond⟩ := List.mem_filter.mp hw
  obtain ⟨hne, hmatch⟩ := Bool.and_eq_true_iff.mp hcond
  obtain ⟨k, r, hk, hmask, hmode, hp', -⟩ := h.table w hw (by simpa using hne)
  obtain ⟨-, serial, hid⟩ := h.owned k r _ hk hp'
  obtain ⟨sem, hsem, hpair⟩ := Option.map_eq_some_iff.mp hid
  refine ⟨serial, k, r, hid, ?_, hk, ?_⟩
  · dsimp only
    rw [hsem, ← (Prod.mk.inj hpair).1]
    rfl
  · rw [hmask, hmode]
    exact hmatch

theorem inv_stepWriter (h : Inv s) {k : Nat} {w : Writer} (hk : s.writers[k]? = some w)
    (hs : s.stepWriter k w = some t) : Inv t := by
  cases w with
  | entered mask =>
    simp only [State.stepWriter] at hs
    cases hs
    refine h.writer (k := k) rfl rfl rfl rfl fun c hc => ?_
    obtain ⟨p, hp, rfl⟩ := List.mem_map.mp hc
    exact h.signals_satisfied _ hp
  | waking pointers =>
    cases pointers with
    | nil =>
      simp only [State.stepWriter] at hs
      cases hs
      exact h.writer (k := k) rfl rfl rfl rfl nofun
    | cons c rest =>
      simp only [State.stepWriter] at hs
      cases hs
      refine h.writer (k := k) rfl rfl (identity_up s c.pointer) rfl fun c' hc' => ?_
      exact h.copied _ (List.mem_of_getElem? hk) c' (List.mem_cons_of_mem _ hc')
  | returned result => cases hs

theorem inv_step (h : Inv s) {act : Action} (hok : DestroysUnclaimed s act)
    (hs : step s act = some t) : Inv t := by
  cases act with
  | read mask timeoutMs mode now =>
    cases hs
    have hlookup : ∀ {j : Nat} {r : Reader}, s.readers[j]? = some r →
        ∀ r', (s.readers ++ [r'])[j]? = some r := by
      intro j r hj r'
      rw [List.getElem?_append_left (List.getElem?_eq_some_iff.mp hj).1, hj]
    refine ⟨fun k r p hk hp => ?_, fun w hw hne => ?_, h.distinct, fun w hw c hc => ?_⟩
    · rcases Ledger.getElem?_append_cases hk with hk | ⟨-, rfl⟩
      · exact h.owned k r p hk hp
      · cases hp
    · obtain ⟨k, r, hk, hrest⟩ := h.table w hw hne
      exact ⟨k, r, hlookup hk _, hrest⟩
    · obtain ⟨serial, k, r, hid, hserial, hk, hmatch⟩ := h.copied w hw c hc
      exact ⟨serial, k, r, hid, hserial, hlookup hk _, hmatch⟩
  | write mask =>
    cases hs
    refine ⟨h.owned, h.table, h.distinct, fun w hw c hc => ?_⟩
    rcases List.mem_append.mp hw with hw | hw
    · exact h.copied w hw c hc
    · obtain rfl := List.mem_singleton.mp hw
      cases hc
  | clear mask =>
    cases hs
    exact ⟨h.owned, h.table, h.distinct, h.copied⟩
  | reader k | pin k now p ok | giveUp k =>
    obtain ⟨r, hk, hstep⟩ := readerStep_of_step hs rfl
    exact hstep.inv h hk hok
  | writer k =>
    obtain ⟨w, hk, hs⟩ := Option.bind_eq_some_iff.mp hs
    exact inv_stepWriter h hk hs
  | upFails k =>
    obtain ⟨w, hk, hs⟩ := Option.bind_eq_some_iff.mp hs
    unfold State.stepUpFails at hs
    split at hs
    · cases hs
      exact h.writer (k := k) rfl rfl rfl rfl nofun
    all_goals cases hs

end Inv

/-! ## §6 Main results -/

/-- **Writers wake live readers.** In a run where no semaphore is destroyed that
a writer still has to signal, each pointer on which a write call will call `up`
designates the semaphore it has copied, which belongs to a reader whose
condition held for the bits the writer compared. -/
theorem event_write_wakes_live {as : List Action} {s : State}
    (h : Steps step DestroysUnclaimed init as s) :
    ∀ w ∈ s.writers, ∀ c ∈ w.pointers, ∃ (sem : Semaphore) (r : Reader),
      s.semaphores c.pointer = some sem ∧ c.serial = some sem.serial ∧
        s.readers[sem.owner]? = some r ∧ (eventMatches c.bits r.mask r.mode).isSome = true := by
  intro w hw c hc
  have hinv := h.invariant inv_init fun t a u ht hok hs => inv_step ht hok hs
  obtain ⟨serial, k, r, hid, hserial, hk, hmatch⟩ := hinv.copied w hw c hc
  obtain ⟨sem, hsem, hpair⟩ := Option.map_eq_some_iff.mp hid
  obtain ⟨rfl, rfl⟩ := Prod.mk.inj hpair
  exact ⟨sem, r, hsem, hserial, hk, hmatch⟩

/-- The first reader is woken and destroys its semaphore while a second write call has the
pointer of the other reader. -/
def destroyedRun : List Action :=
  [.read 1 10 0 0, .reader 0, .pin 0 5 64 true, .reader 0, .read 2 10 0 0, .reader 1,
    .pin 1 5 128 true, .reader 1, .write 1, .writer 0, .writer 0, .reader 0, .reader 0, .write 2,
    .writer 1, .reader 0]

theorem event_write_wakes_live_sample : ∃ s : State,
    s.writers = [.waking [], .waking [⟨128, some 1, 3⟩]] ∧ s.semaphores 64 = none ∧
      ∃ (sem : Semaphore) (r : Reader), s.semaphores 128 = some sem ∧ sem.serial = 1 ∧
        s.readers[sem.owner]? = some r := by
  have hrun : (run (guarded step DestroysUnclaimed) init destroyedRun).map
      (fun s => (s.writers, s.semaphores 64)) =
      some ([.waking [], .waking [⟨128, some 1, 3⟩]], none) := by decide +kernel
  obtain ⟨s, hs, hlast⟩ := Option.map_eq_some_iff.mp hrun
  obtain ⟨hwriters, hdestroyed⟩ := Prod.mk.inj hlast
  obtain ⟨sem, r, hsem, hserial, hk, -⟩ := event_write_wakes_live (Steps.of_run_guarded hs)
    (.waking [⟨128, some 1, 3⟩])
    (by rw [hwriters]; exact List.mem_cons_of_mem _ (List.mem_singleton_self _))
    ⟨128, some 1, 3⟩ (List.mem_singleton_self _)
  exact ⟨s, hwriters, hdestroyed, sem, r, hsem, (Option.some.inj hserial).symm, hk⟩

/-- A reader waits for bit 0 and a writer has copied its semaphore. -/
def copiedRun : List Action :=
  [.read 1 10 0 0, .reader 0, .pin 0 5 64 true, .reader 0, .write 1, .writer 0]

/-- The reader times out, and its semaphore is gone before the writer calls `up`. -/
theorem event_write_wakes_dead :
    ¬ ∀ s : State, Reachable step init s → ∀ w ∈ s.writers, ∀ c ∈ w.pointers,
      (s.semaphores c.pointer).isSome = true := by
  intro h
  have hrun : (run step init (copiedRun ++ [.giveUp 0, .reader 0, .reader 0])).map
      (fun s => (s.writers, s.semaphores 64)) = some ([.waking [⟨64, some 0, 1⟩]], none) := by
    decide +kernel
  obtain ⟨s, hs, hlast⟩ := Option.map_eq_some_iff.mp hrun
  obtain ⟨hwriters, hdead⟩ := Prod.mk.inj hlast
  have hlive := h s ⟨_, Steps.of_run hs⟩ (.waking [⟨64, some 0, 1⟩])
    (by rw [hwriters]; exact List.mem_singleton_self _) ⟨64, some 0, 1⟩ (List.mem_singleton_self _)
  rw [hdead] at hlive
  cases hlive

end HisiRiscv.Osal.EventGroup
