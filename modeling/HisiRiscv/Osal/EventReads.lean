/-
HisiRiscv.Osal.EventReads — what the result of `osal_event_read` means.

A call returns the bits that its last poll has matched, 0 when the deadline has passed before it
waits, and `OSAL_NOK`, which is 1, when its semaphore cannot be initialised, the table is full or
the wait ends without a permit. So the result means what the comment of the function says
if and only if none of these three has happened (`event_read_meaningful_iff`).

  §1 Moments of a run.
  §2 What a result should mean.
  §3 What a step takes.
  §4 The invariant.
  §5 Main results.
-/
import HisiRiscv.Osal.EventTable

namespace HisiRiscv.Osal.EventGroup

open HisiRiscv.Machine

/-! ## §1 Moments of a run -/

/-- In the run along `as` there is a step `a` from `s` to `t`. -/
def Moment (as : List Action) (s : State) (a : Action) (t : State) : Prop :=
  ∃ before after, as = before ++ a :: after ∧ run step init before = some s ∧ step s a = some t

/-- The bits that read call number `k` takes by this step. -/
def State.taken (s : State) (k : Nat) : Action → Option UInt32
  | .reader j =>
      if j = k then
        s.readers[k]?.bind fun r =>
          match r.pc with
          | .polling | .pinned _ => eventMatches s.group.bits r.mask r.mode
          | .unmatched | .waiting _ | .woken _ _ | .leaving _ _ | .returned _ => none
      else none
  | .read _ _ _ _ | .write _ | .clear _ | .pin _ _ _ _ | .giveUp _ | .writer _ | .upFails _ => none

/-- By this step read call number `k` fails: there is no semaphore, or no entry of the table, or its
wait ends without a permit. -/
def Fails (s : State) (k : Nat) : Action → Prop
  | .reader j =>
      j = k ∧ ∃ r ∈ s.readers[k]?, ∃ p, r.pc = .pinned p ∧
        eventMatches s.group.bits r.mask r.mode = none ∧ s.group.register ⟨p, r.mask, r.mode⟩ = none
  | .pin j now _ ok => j = k ∧ ok = false ∧ ∃ r ∈ s.readers[k]?, ¬ r.expired now
  | .giveUp j => j = k
  | .read _ _ _ _ | .write _ | .clear _ | .writer _ | .upFails _ => False

def Took (as : List Action) (k : Nat) (m : UInt32) : Prop :=
  ∃ s a t, Moment as s a t ∧ s.taken k a = some m

def Failed (as : List Action) (k : Nat) : Prop := ∃ s a t, Moment as s a t ∧ Fails s k a

/-! ## §2 What a result should mean -/

/-- The entry `i` of the table is the registration of read call number `j`. -/
def State.Registered (s : State) (j i : Nat) : Prop :=
  ∃ (r : Reader) (q : Nat), s.readers[j]? = some r ∧ r.pc.semaphore? = some q ∧
    r.pc.registered = true ∧ s.group.waiters[i]? = some ⟨q, r.mask, r.mode⟩

/-- By the step from `s` to `t` the bits `m` are taken as a call with this mask and mode asks: the
condition holds, and the bits are removed if it says so. -/
structure Takes (s t : State) (mask mode m : UInt32) : Prop where
  within_mask : m &&& ~~~mask = 0
  matched : m = s.group.bits &&& mask
  all_of_and : mode &&& waitmodeAnd ≠ 0 → m = mask
  bits_eq : t.group.bits = if mode &&& waitmodeClr ≠ 0 then s.group.bits &&& ~~~m else s.group.bits

/-- What read call number `k`, which is `r`, tells its caller by the result `v`. -/
structure Meaningful (as : List Action) (k : Nat) (r : Reader) (v : Int32) : Prop where
  matched : v ≠ 0 → ∃ s a t, Moment as s a t ∧ s.taken k a = some v.toUInt32 ∧
    Takes s t r.mask r.mode v.toUInt32
  /-- a call that has taken nothing has given up -/
  gave_up : (∀ m, ¬ Took as k m) → v = 0
  unchanged : (∀ m, ¬ Took as k m) → ∀ s a t, Moment as s a t → a.reader? = some k →
    t.group.bits = s.group.bits ∧ ∀ j, j ≠ k → ∀ i, t.Registered j i ↔ s.Registered j i

/-! ## §3 What a step takes -/

section Step

variable {as : List Action} {s t : State} {k : Nat} {r : Reader} {a : Action}

/-- The bits of a poll. -/
theorem eventMatches_of_poll {g g' : Group} {mask mode m : UInt32}
    (h : g.pollEvent mask mode = some (m, g')) : eventMatches g.bits mask mode = some m ∧
      g'.bits = if mode &&& waitmodeClr ≠ 0 then g.bits &&& ~~~m else g.bits := by
  obtain ⟨m', hm, heq⟩ := Option.map_eq_some_iff.mp h
  obtain ⟨rfl, rfl⟩ := Prod.mk.inj heq
  refine ⟨hm, ?_⟩
  split <;> rfl

theorem eventMatches_eq_some {bits mask mode m : UInt32} (h : eventMatches bits mask mode = some m) :
    m = bits &&& mask ∧ m ≠ 0 ∧ (mode &&& waitmodeAnd ≠ 0 → m = mask) := by
  unfold eventMatches at h
  obtain ⟨hsat, heq⟩ := Option.ite_none_right_eq_some.mp h
  cases heq
  by_cases hmode : mode &&& waitmodeAnd ≠ 0
  · rw [if_pos hmode, Bool.and_eq_true, beq_iff_eq, bne_iff_ne] at hsat
    exact ⟨rfl, by rw [hsat.1]; exact hsat.2, fun _ => hsat.1⟩
  · rw [if_neg hmode, bne_iff_ne] at hsat
    exact ⟨rfl, hsat, fun h => absurd h hmode⟩

/-- A step that takes bits takes them as it should. -/
theorem ReaderStep.takes_of_taken (h : ReaderStep s k r a t) (hk : s.readers[k]? = some r) {m : UInt32}
    (hm : s.taken k a = some m) : Takes s t r.mask r.mode m := by
  have hpolled {group : Group} {m' : UInt32} (hpoll : s.group.pollEvent r.mask r.mode = some (m', group))
      (heq : m' = m) (ht : t.group = group) : Takes s t r.mask r.mode m := by
    subst heq
    obtain ⟨hmatch, hbits⟩ := eventMatches_of_poll hpoll
    obtain ⟨hand, -, hall⟩ := eventMatches_eq_some hmatch
    refine ⟨?_, hand, hall, by rw [ht, hbits]⟩
    rw [hand, UInt32.and_assoc, UInt32.and_not_self, UInt32.and_zero]
  cases h with
  | takes hpc hpoll | takesPinned hpc hpoll =>
    simp only [State.taken, hk, hpc, if_true, Option.bind_some, (eventMatches_of_poll hpoll).1,
      Option.some.injEq] at hm
    exact hpolled hpoll hm rfl
  | misses hpc hpoll | tableFull hpc hpoll | registers hpc hpoll =>
    simp only [State.taken, hk, hpc, if_true, Option.bind_some, Option.map_eq_none_iff.mp hpoll] at hm
    cases hm
  | acquires hpc | unregisters hpc | destroys hpc =>
    simp only [State.taken, hk, hpc, if_true, Option.bind_some] at hm
    cases hm
  | expires | pins | pinFails | givesUp => cases hm

/-- A step of a call that takes nothing leaves the bits. -/
theorem ReaderStep.bits_eq (h : ReaderStep s k r a t) (hk : s.readers[k]? = some r)
    (hnone : s.taken k a = none) : t.group.bits = s.group.bits := by
  cases h with
  | takes hpc hpoll | takesPinned hpc hpoll =>
    simp only [State.taken, hk, hpc, if_true, Option.bind_some, (eventMatches_of_poll hpoll).1] at hnone
    cases hnone
  | @registers p group hpc hpoll hregister =>
    obtain ⟨i, -, rfl⟩ := Option.map_eq_some_iff.mp hregister
    rfl
  | @unregisters p acquired hpc =>
    change (s.group.unregister p).bits = _
    unfold Group.unregister
    split <;> rfl
  | misses | tableFull | acquires | destroys | expires | pins | pinFails | givesUp => rfl

/-- No step of a call touches the entry of another. -/
theorem ReaderStep.registered_iff (h : ReaderStep s k r a t) (hsound : Sound s)
    (hk : s.readers[k]? = some r) {j : Nat} (hjk : j ≠ k) (i : Nat) :
    t.Registered j i ↔ s.Registered j i := by
  obtain ⟨pc, hreaders, -⟩ := h.readers_eq
  unfold State.Registered
  rw [hreaders, List.getElem?_set_ne (Ne.symm hjk)]
  refine exists₂_congr fun r' q => and_congr_right fun hj => and_congr_right fun hq =>
    and_congr_right fun _ => h.entry_iff hsound hk hj hjk hq r'.mask r'.mode i

end Step

/-! ## §4 The invariant -/

/-- Nothing has been taken, and nothing has failed. -/
def Undecided (took : UInt32 → Prop) (failed : Prop) : Prop := (∀ m, ¬ took m) ∧ ¬ failed

/-- What has happened to a call that returns `v`. -/
def Decided (took : UInt32 → Prop) (failed : Prop) (v : Int32) : Prop :=
  (∃ m, took m ∧ m.toInt32 = v) ∧ ¬ failed ∨ (∀ m, ¬ took m) ∧ (failed ∧ v = osalNok ∨ ¬ failed ∧ v = 0)

/-- What has happened to a call, by its program counter. -/
def Told (took : UInt32 → Prop) (failed : Prop) : ReadPc → Prop
  | .leaving _ (some v) | .returned v => Decided took failed v
  | .woken _ false => (∀ m, ¬ took m) ∧ failed
  | .polling | .unmatched | .pinned _ | .waiting _ | .woken _ true | .leaving _ none =>
      Undecided took failed

section Invariant

variable {as : List Action} {s t : State} {k : Nat} {r : Reader} {a : Action}

/-- By such a step nothing happens that the result depends on. -/
theorem Told.of_quiet {took : UInt32 → Prop} {failed : Prop} {pc pc' : ReadPc} (h : Told took failed pc)
    (htaken : s.taken k a = none) (hfails : ¬ Fails s k a)
    (hsame : Told took failed pc → Told took failed pc') :
    Told (fun m => took m ∨ s.taken k a = some m) (failed ∨ Fails s k a) pc' := by
  simp only [htaken, hfails, reduceCtorEq, or_false]
  exact hsame h

/-- The bits are taken, and the call is going to return them. -/
theorem decided_of_taken {took : UInt32 → Prop} {failed : Prop} (h : Undecided took failed) {m : UInt32}
    (htaken : s.taken k a = some m) (hfails : ¬ Fails s k a) :
    Decided (fun m => took m ∨ s.taken k a = some m) (failed ∨ Fails s k a) m.toInt32 :=
  .inl ⟨⟨m, .inr htaken, rfl⟩, not_or.mpr ⟨h.2, hfails⟩⟩

/-- The call fails, and is going to say so. -/
theorem failed_of_fails {took : UInt32 → Prop} {failed : Prop} (h : Undecided took failed)
    (htaken : s.taken k a = none) (hfails : Fails s k a) :
    (∀ m, ¬ (took m ∨ s.taken k a = some m)) ∧ (failed ∨ Fails s k a) := by
  refine ⟨fun m => not_or.mpr ⟨h.1 m, ?_⟩, .inr hfails⟩
  rw [htaken]
  exact Option.some_ne_none m ∘ Eq.symm

/-- One step of a call. -/
theorem ReaderStep.told (h : ReaderStep s k r a t) (hk : s.readers[k]? = some r)
    {took : UInt32 → Prop} {failed : Prop} (hold : Told took failed r.pc) {r' : Reader}
    (hr : t.readers[k]? = some r') :
    Told (fun m => took m ∨ s.taken k a = some m) (failed ∨ Fails s k a) r'.pc := by
  have hlt : k < s.readers.length := (List.getElem?_eq_some_iff.mp hk).1
  cases h
  all_goals obtain rfl : _ = r' := Option.some.inj ((List.getElem?_set_self hlt).symm.trans hr)
  case takes hpc hpoll =>
    rw [hpc] at hold
    exact decided_of_taken hold
      (by simp [State.taken, hk, hpc, (eventMatches_of_poll hpoll).1]) (by simp [Fails, hk, hpc])
  case takesPinned hpc hpoll =>
    rw [hpc] at hold
    exact decided_of_taken hold (by simp [State.taken, hk, hpc, (eventMatches_of_poll hpoll).1])
      (by simp [Fails, hk, hpc, (eventMatches_of_poll hpoll).1])
  case misses hpc hpoll =>
    rw [hpc] at hold
    exact hold.of_quiet (by simp [State.taken, hk, hpc, Option.map_eq_none_iff.mp hpoll])
      (by simp [Fails, hk, hpc]) id
  case registers hpc hpoll hregister =>
    rw [hpc] at hold
    exact hold.of_quiet (by simp [State.taken, hk, hpc, Option.map_eq_none_iff.mp hpoll])
      (by simp [Fails, hk, hpc, hregister]) id
  case tableFull hpc hpoll hfull =>
    rw [hpc] at hold
    have hnone := Option.map_eq_none_iff.mp hpoll
    obtain ⟨htook, hfailed⟩ := failed_of_fails (s := s) (k := k) (a := .reader k) hold
      (by simp [State.taken, hk, hpc, hnone]) (by simp [Fails, hk, hpc, hnone, hfull])
    exact .inr ⟨htook, .inl ⟨hfailed, rfl⟩⟩
  case acquires hpc hsem hpermit =>
    rw [hpc] at hold
    exact hold.of_quiet (by simp [State.taken, hk, hpc]) (by simp [Fails, hk, hpc]) id
  case unregisters p acquired hpc =>
    rw [hpc] at hold
    refine hold.of_quiet (by simp [State.taken, hk, hpc]) (by simp [Fails, hk, hpc]) fun htold => ?_
    cases acquired with
    | true => exact htold
    | false => exact .inr ⟨htold.1, .inl ⟨htold.2, rfl⟩⟩
  case destroys p result hpc =>
    rw [hpc] at hold
    refine hold.of_quiet (by simp [State.taken, hk, hpc]) (by simp [Fails, hk, hpc]) fun htold => ?_
    cases result <;> exact htold
  case expires hpc hlate =>
    rw [hpc] at hold
    refine hold.of_quiet rfl (by simp [Fails, hk, hlate]) fun htold => ?_
    exact .inr ⟨htold.1, .inr ⟨htold.2, rfl⟩⟩
  case pins hpc hearly hfree =>
    rw [hpc] at hold
    exact hold.of_quiet rfl (by simp [Fails]) id
  case pinFails now p hpc hearly hfree =>
    rw [hpc] at hold
    obtain ⟨htook, hfailed⟩ := failed_of_fails (a := .pin k now p false) hold rfl
      ⟨rfl, rfl, r, hk, hearly⟩
    exact .inr ⟨htook, .inl ⟨hfailed, rfl⟩⟩
  case givesUp hpc =>
    rw [hpc] at hold
    exact failed_of_fails (a := .giveUp k) hold rfl rfl

/-- What a run does with a call that does not move. -/
theorem taken_of_ne (h : a.reader? ≠ some k) : s.taken k a = none ∧ ¬ Fails s k a := by
  cases a with
  | reader j =>
    have hjk : j ≠ k := fun heq => h (congrArg some heq)
    exact ⟨if_neg hjk, fun hfails => hjk hfails.1⟩
  | pin j now p ok => exact ⟨rfl, fun hfails => h (congrArg some hfails.1)⟩
  | giveUp j => exact ⟨rfl, fun hfails => h (congrArg some hfails)⟩
  | read | write | clear | writer | upFails => exact ⟨rfl, id⟩

/-- The moments of a run that is one step longer. -/
theorem moment_snoc (hrun : run step init as = some s) (hs : step s a = some t) {s₁ t₁ : State}
    {b : Action} : Moment (as ++ [a]) s₁ b t₁ ↔ Moment as s₁ b t₁ ∨ s₁ = s ∧ b = a ∧ t₁ = t := by
  constructor
  · rintro ⟨before, after, heq, hbefore, hstep⟩
    rcases List.eq_nil_or_concat after with rfl | ⟨front, c, rfl⟩
    · obtain ⟨rfl, hlast⟩ := List.append_inj' heq rfl
      obtain rfl := (List.cons.inj hlast).1
      obtain rfl := Option.some.inj (hrun.symm.trans hbefore)
      exact .inr ⟨rfl, rfl, Option.some.inj (hstep.symm.trans hs)⟩
    · rw [List.concat_eq_append, ← List.cons_append, ← List.append_assoc] at heq
      exact .inl ⟨before, front, (List.append_inj' heq rfl).1, hbefore, hstep⟩
  · rintro (⟨before, after, rfl, hbefore, hstep⟩ | ⟨rfl, rfl, rfl⟩)
    · exact ⟨before, after ++ [a], by simp, hbefore, hstep⟩
    · exact ⟨as, [], rfl, hrun, hs⟩

theorem took_snoc (hrun : run step init as = some s) (hs : step s a = some t) (k : Nat) :
    Took (as ++ [a]) k = fun m => Took as k m ∨ s.taken k a = some m := by
  funext m
  unfold Took
  simp only [moment_snoc hrun hs]
  refine propext ⟨?_, ?_⟩
  · rintro ⟨s₁, b, t₁, hmoment | ⟨rfl, rfl, rfl⟩, hm⟩
    · exact .inl ⟨s₁, b, t₁, hmoment, hm⟩
    · exact .inr hm
  · rintro (⟨s₁, b, t₁, hmoment, hm⟩ | hm)
    · exact ⟨s₁, b, t₁, .inl hmoment, hm⟩
    · exact ⟨s, a, t, .inr ⟨rfl, rfl, rfl⟩, hm⟩

theorem failed_snoc (hrun : run step init as = some s) (hs : step s a = some t) (k : Nat) :
    Failed (as ++ [a]) k = (Failed as k ∨ Fails s k a) := by
  unfold Failed
  simp only [moment_snoc hrun hs]
  refine propext ⟨?_, ?_⟩
  · rintro ⟨s₁, b, t₁, hmoment | ⟨rfl, rfl, rfl⟩, hm⟩
    · exact .inl ⟨s₁, b, t₁, hmoment, hm⟩
    · exact .inr hm
  · rintro (⟨s₁, b, t₁, hmoment, hm⟩ | hm)
    · exact ⟨s₁, b, t₁, .inl hmoment, hm⟩
    · exact ⟨s, a, t, .inr ⟨rfl, rfl, rfl⟩, hm⟩

/-- What a run says about its calls. -/
structure Story (as : List Action) (s : State) : Prop where
  told : ∀ (k : Nat) (r : Reader), s.readers[k]? = some r → Told (Took as k) (Failed as k) r.pc
  unheard : ∀ k, s.readers.length ≤ k → Undecided (Took as k) (Failed as k)

theorem story_init : Story [] init := by
  have hnone {s a t} : ¬ Moment [] s a t := by
    rintro ⟨before, after, heq, -⟩
    simp at heq
  constructor
  · intro k r hk
    cases hk
  · intro k _
    constructor
    · rintro m ⟨s, a, t, hmoment, -⟩
      exact hnone hmoment
    · rintro ⟨s, a, t, hmoment, -⟩
      exact hnone hmoment

theorem story_run (h : Steps step Always init as s) : Story as s := by
  induction h with
  | nil => exact story_init
  | @snoc as s t a hrun _ hs ih =>
    -- a call is undecided before it begins
    have hquiet (k : Nat) (ha : a.reader? ≠ some k) :
        (Took (as ++ [a]) k = Took as k) ∧ (Failed (as ++ [a]) k = Failed as k) := by
      obtain ⟨htaken, hfails⟩ := taken_of_ne (s := s) ha
      rw [took_snoc hrun.run_eq hs, failed_snoc hrun.run_eq hs]
      simp only [htaken, hfails, reduceCtorEq, or_false, and_self]
    constructor
    · intro k r' hr
      by_cases ha : a.reader? = some k
      · obtain ⟨r, hk, hstep⟩ := readerStep_of_step hs ha
        rw [took_snoc hrun.run_eq hs, failed_snoc hrun.run_eq hs]
        exact hstep.told hk (ih.told k r hk) hr
      · rw [(hquiet k ha).1, (hquiet k ha).2]
        rcases getElem?_of_step hs ha hr with hk | ⟨hlen, hpc⟩
        · exact ih.told k r' hk
        · rw [hpc]
          exact ih.unheard k (Nat.le_of_eq hlen)
    · intro k hlen
      have hle := Nat.le_trans (length_readers_le hs) hlen
      have ha : a.reader? ≠ some k := by
        intro ha
        obtain ⟨r, hk, -⟩ := readerStep_of_step hs ha
        exact absurd (List.getElem?_eq_some_iff.mp hk).1 (Nat.not_lt_of_le hle)
      rw [(hquiet k ha).1, (hquiet k ha).2]
      exact ih.unheard k hle

end Invariant

/-! ## §5 Main results -/

section Main

variable {as : List Action} {s : State} {k : Nat} {r : Reader}

/-- A moment lies between two runs. -/
theorem Moment.runs (h : Steps step Always init as s) {s₁ t₁ : State} {a : Action}
    (hmoment : Moment as s₁ a t₁) :
    Sound s₁ ∧ step s₁ a = some t₁ ∧ ∃ after, Steps step Always s₁ (a :: after) s := by
  obtain ⟨before, after, rfl, hbefore, hstep⟩ := hmoment
  refine ⟨sound_run (Steps.of_run hbefore), hstep, after, Steps.of_run ?_⟩
  have hrun := h.run_eq
  rwa [run_append, hbefore] at hrun

/-- The call is the one that will return. -/
theorem Moment.reader (h : Steps step Always init as s) {s₁ t₁ : State} {a : Action}
    (hmoment : Moment as s₁ a t₁) (hk : s.readers[k]? = some r) (ha : a.reader? = some k) :
    ∃ r₁, s₁.readers[k]? = some r₁ ∧ ReaderStep s₁ k r₁ a t₁ ∧ r₁.mask = r.mask ∧ r₁.mode = r.mode := by
  obtain ⟨-, hstep, after, hafter⟩ := hmoment.runs h
  obtain ⟨r₁, hr₁, hmove⟩ := readerStep_of_step hstep ha
  obtain ⟨r', hr', hmask, hmode⟩ := hafter.invariant
    (I := fun u => ∃ r', u.readers[k]? = some r' ∧ r'.mask = r₁.mask ∧ r'.mode = r₁.mode)
    ⟨r₁, hr₁, rfl, rfl⟩ (by
      rintro u b w ⟨r', hr', hmask, hmode⟩ - hs
      obtain ⟨r'', hr'', hmask', hmode'⟩ := mask_mode_of_step hs hr'
      exact ⟨r'', hr'', hmask'.trans hmask, hmode'.trans hmode⟩)
  obtain rfl := Option.some.inj (hk.symm.trans hr')
  exact ⟨r₁, hr₁, hmove, hmask.symm, hmode.symm⟩

theorem reader?_of_taken {s : State} {a : Action} {m : UInt32} (h : s.taken k a = some m) :
    a.reader? = some k := by
  by_contra hne
  rw [(taken_of_ne hne).1] at h
  cases h

/-- **What a result of `osal_event_read` means.** In every run, a call that has returned has
told its caller what it should if and only if it did not fail to get a semaphore or an entry, and
its wait did not end without a permit. -/
theorem event_read_meaningful_iff (h : Steps step Always init as s) (hk : s.readers[k]? = some r)
    {v : Int32} (hret : r.pc = .returned v) :
    Meaningful as k r v ↔ ∀ s₁ a t₁, Moment as s₁ a t₁ → ¬ Fails s₁ k a := by
  have htold := (story_run h).told k r hk
  rw [hret] at htold
  constructor
  · -- a call that fails has taken nothing, and does not return 0
    intro hmeaningful s₁ a t₁ hmoment hfails
    have hfailed : Failed as k := ⟨s₁, a, t₁, hmoment, hfails⟩
    rcases htold with ⟨-, hnot⟩ | ⟨hnone, ⟨-, hnok⟩ | ⟨hnot, -⟩⟩
    · exact hnot hfailed
    · have hzero := hmeaningful.gave_up hnone
      rw [hnok] at hzero
      exact absurd hzero (by decide)
    · exact hnot hfailed
  · intro hnever
    have hnot : ¬ Failed as k := by
      rintro ⟨s₁, a, t₁, hmoment, hfails⟩
      exact hnever s₁ a t₁ hmoment hfails
    refine ⟨fun hne => ?_, fun hnone => ?_, fun hnone s₁ a t₁ hmoment ha => ?_⟩
    · rcases htold with ⟨⟨m, ⟨s₁, a, t₁, hmoment, hm⟩, rfl⟩, -⟩ | ⟨-, ⟨hfailed, -⟩ | ⟨-, hzero⟩⟩
      · obtain ⟨r₁, hr₁, hmove, hmask, hmode⟩ := hmoment.reader h hk (reader?_of_taken hm)
        have htakes := hmove.takes_of_taken hr₁ hm
        rw [hmask, hmode] at htakes
        exact ⟨s₁, a, t₁, hmoment, hm, htakes⟩
      · exact absurd hfailed hnot
      · exact absurd hzero hne
    · rcases htold with ⟨⟨m, hm, -⟩, -⟩ | ⟨-, ⟨hfailed, -⟩ | ⟨-, hzero⟩⟩
      · exact absurd hm (hnone m)
      · exact absurd hfailed hnot
      · exact hzero
    · obtain ⟨hsound, -, -⟩ := hmoment.runs h
      obtain ⟨r₁, hr₁, hmove, -, -⟩ := hmoment.reader h hk ha
      refine ⟨hmove.bits_eq hr₁ ?_, fun j hjk i => hmove.registered_iff hsound hr₁ hjk i⟩
      cases htaken : s₁.taken k a with
      | none => rfl
      | some m => exact absurd ⟨s₁, a, t₁, hmoment, htaken⟩ (hnone m)

/-- A reader waits for bit 1, and its wait times out. -/
def timedOutRun : List Action :=
  [.read 2 10 0 0, .reader 0, .pin 0 5 64 true, .reader 0, .giveUp 0, .reader 0, .reader 0]

theorem event_read_meaningful_iff_timed_out :
    ¬ Meaningful timedOutRun 0 ⟨2, 0, false, 10, .returned osalNok⟩ osalNok := by
  have hbefore : ((run step init (timedOutRun.take 4)).bind fun s =>
      (step s (.giveUp 0)).map State.readers) = some [⟨2, 0, false, 10, .woken 64 false⟩] := by
    decide +kernel
  have hrun : (run step init timedOutRun).map State.readers =
      some [⟨2, 0, false, 10, .returned osalNok⟩] := by decide +kernel
  obtain ⟨s₁, hs₁, hgive⟩ := Option.bind_eq_some_iff.mp hbefore
  obtain ⟨t₁, ht₁, -⟩ := Option.map_eq_some_iff.mp hgive
  obtain ⟨s, hs, hreaders⟩ := Option.map_eq_some_iff.mp hrun
  intro hmeaningful
  exact (event_read_meaningful_iff (Steps.of_run hs) (by rw [hreaders]; rfl) rfl).mp hmeaningful
    s₁ (.giveUp 0) t₁ ⟨timedOutRun.take 4, timedOutRun.drop 5, rfl, hs₁, ht₁⟩ rfl

/-- The caller is told that bit 0 was set, which it did not ask for. -/
theorem event_read_not_meaningful :
    ¬ ∀ (as : List Action) (s : State), Steps step Always init as s →
      ∀ (k : Nat) (r : Reader) (v : Int32), s.readers[k]? = some r → r.pc = .returned v →
        Meaningful as k r v := by
  intro h
  have hrun : (run step init timedOutRun).map State.readers =
      some [⟨2, 0, false, 10, .returned osalNok⟩] := by decide +kernel
  obtain ⟨s, hs, hreaders⟩ := Option.map_eq_some_iff.mp hrun
  obtain ⟨s₁, a, t₁, -, -, htakes⟩ :=
    (h _ s (Steps.of_run hs) 0 _ osalNok (by rw [hreaders]; rfl) rfl).matched (by decide)
  exact absurd htakes.within_mask (by decide)

end Main

end HisiRiscv.Osal.EventGroup
