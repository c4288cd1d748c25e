/-
HisiRiscv.Osal.TimerCancel — what is left of a timer after it is stopped.

`osal_timer_stop` and `osal_timer_destroy` clear the slot of a timer, and
know nothing of the due lists. A driver copies the expired timers in its
critical section and fires them later, so a timer that another driver, or
an earlier handler of the same batch, stops in between is read and fired
all the same. In a run where no timer is stopped or destroyed while it is
on a due list, a cancelled timer is on none.

  §1 The condition.
  §2 The invariant.
  §3 Main results.
-/
import HisiRiscv.Osal.TimerSlots

namespace HisiRiscv.Osal.Timer

open HisiRiscv.Machine

/-! ## §1 The condition -/

/-- The timer that the next step stops or destroys. -/
def Call.clears? : Call → Option Nat
  | stopping t _ | destroying t _ => some t
  | init _ | allocating _ | publishing _ _ | binding _ _ | mod _ _ | arming _ _ _ | storing _ _ _ _
  | stop _ | destroy _ | forgetting _ | returned _ _ => none

/-- A timer is stopped or destroyed only while it is on no due list, and no init
or destroy call overlaps another call on the same timer. -/
def CancelsUncollected (s : State) (act : Action) : Prop :=
  Exclusive s act ∧
    match act with
    | .call k => ∀ c ∈ s.calls[k]?, ∀ t ∈ c.clears?, s.Uncollected t
    | .initCall _ | .modCall _ _ | .stopCall _ | .destroyCall _ | .workerFails _ | .drive | .driver _
    | .tick _ => True

instance decidableCancelsUncollected (s : State) :
    (a : Action) → Decidable (CancelsUncollected s a)
  | .call k =>
      inferInstanceAs (Decidable (True ∧ ∀ c ∈ s.calls[k]?, ∀ t ∈ c.clears?, s.Uncollected t))
  | .initCall t => inferInstanceAs (Decidable (Exclusive s (.initCall t) ∧ True))
  | .modCall t i => inferInstanceAs (Decidable (Exclusive s (.modCall t i) ∧ True))
  | .stopCall t => inferInstanceAs (Decidable (Exclusive s (.stopCall t) ∧ True))
  | .destroyCall t => inferInstanceAs (Decidable (Exclusive s (.destroyCall t) ∧ True))
  | .workerFails _ | .drive | .driver _ | .tick _ => inferInstanceAs (Decidable (True ∧ True))

/-! ## §2 The invariant -/

/-- The timers that have a slot. -/
def State.owned (s : State) : List Nat := s.slots.filterMap Slot.owner

/-- A cancelled timer is neither active nor on a due list. -/
structure Cancel (s : State) : Prop where
  active : ∀ slot ∈ s.slots, slot.active = true → s.cancelled slot.timer = false
  due : ∀ d ∈ s.drivers, ∀ e ∈ d.due, s.cancelled e.timer = false ∧ e.timer ∈ s.owned

section Cancel

variable {s t : State}

theorem cancel_init (objects : Nat → OsalTimer) (clock : UInt64) : Cancel (init objects clock) :=
  ⟨fun _ _ _ => rfl, nofun⟩

/-- Nothing that matters here changes. -/
theorem Cancel.congr (h : Cancel s) (hslots : t.slots = s.slots) (hdrivers : t.drivers = s.drivers)
    (hcancelled : t.cancelled = s.cancelled) : Cancel t := by
  refine ⟨?_, ?_⟩
  · rw [hslots, hcancelled]
    exact h.active
  · unfold State.owned
    rw [hslots, hdrivers, hcancelled]
    exact h.due

theorem Base.owned_ne_zero (hb : Base s) {timer : Nat} (h : timer ∈ s.owned) : timer ≠ 0 := by
  obtain ⟨slot, hslot, howner⟩ := List.mem_filterMap.mp h
  rintro rfl
  exact (hb.slots slot hslot).owner_ne howner

theorem mem_owned_set {i timer : Nat} {slot' : Slot} (hslots : t.slots = s.slots.set i slot')
    (h : timer ∈ (s.slots.set i slot').filterMap Slot.owner) : timer ∈ t.owned := by
  unfold State.owned
  rw [hslots]
  exact h

theorem mem_owned_keep {i timer : Nat} {slot slot' : Slot} (hget : s.slots[i]? = some slot)
    (hslots : t.slots = s.slots.set i slot') (howner : slot'.owner = slot.owner)
    (h : timer ∈ s.owned) : timer ∈ t.owned := by
  refine mem_owned_set hslots ?_
  rw [Ledger.filterMap_set_eq Slot.owner hget howner]
  exact h

/-- Cancelling a timer that has no slot. -/
theorem Cancel.cancel_unowned (h : Cancel s) (hb : Base s) {timer : Nat}
    (hu : timer = 0 ∨ s.Unowned timer) (hslots : t.slots = s.slots) (hdrivers : t.drivers = s.drivers)
    (hcancelled : t.cancelled = Function.update s.cancelled timer true) : Cancel t := by
  have hnot : ∀ timer' ∈ s.owned, timer' ≠ timer := by
    rintro timer' hmem rfl
    rcases hu with rfl | hu
    · exact hb.owned_ne_zero hmem rfl
    · exact hu.not_mem hmem
  refine ⟨fun slot hslot hactive => ?_, fun d hd e he => ?_⟩
  · rw [hslots] at hslot
    obtain ⟨howner, -⟩ := (hb.slots slot hslot).owner_of_active hactive
    have hmem : slot.timer ∈ s.owned := List.mem_filterMap.mpr ⟨slot, hslot, howner⟩
    rw [hcancelled, Function.update_of_ne (hnot _ hmem)]
    exact h.active slot hslot hactive
  · rw [hdrivers] at hd
    obtain ⟨hlive, hmem⟩ := h.due d hd e he
    unfold State.owned
    rw [hcancelled, Function.update_of_ne (hnot _ hmem), hslots]
    exact ⟨hlive, hmem⟩

/-- A slot is replaced by one that is not active. -/
theorem Cancel.replace (h : Cancel s) {i : Nat} {slot' : Slot} (hslots : t.slots = s.slots.set i slot')
    (hinactive : slot'.active = false) (hdrivers : t.drivers = s.drivers)
    (hcancelled : t.cancelled = s.cancelled)
    (howned : ∀ d ∈ s.drivers, ∀ e ∈ d.due, e.timer ∈ s.owned → e.timer ∈ t.owned) : Cancel t := by
  refine ⟨fun slot hslot hactive => ?_, fun d hd e he => ?_⟩
  · rw [hslots] at hslot
    rw [hcancelled]
    rcases Ledger.mem_set_cases hslot with rfl | hslot
    · rw [hinactive] at hactive
      cases hactive
    · exact h.active slot hslot hactive
  · rw [hdrivers] at hd
    obtain ⟨hlive, hmem⟩ := h.due d hd e he
    rw [hcancelled]
    exact ⟨hlive, howned d hd e he hmem⟩

/-- The slot of a timer is armed. -/
theorem Cancel.arm (h : Cancel s) {timer i : Nat} {interval : UInt32} {now : UInt64} {slot : Slot}
    (hget : s.slots[i]? = some slot) (htimer : slot.timer = timer) (k : Nat) (c : Call) :
    Cancel ((s.arm timer interval i now).goto k c) := by
  have hslots := modifySlot_slots hget fun slot =>
    { slot with
      interval := interval.toUInt64
      deadline := now + interval.toUInt64
      active := true
      periodic := false
      arm := s.arms.length }
  have hlive : ∀ timer', s.cancelled timer' = false →
      Function.update s.cancelled timer false timer' = false := by
    intro timer' hlive
    rw [Function.update_apply]
    split
    · rfl
    · exact hlive
  refine ⟨fun slot' hslot' hactive => ?_, fun d hd e he => ?_⟩
  · rcases Ledger.mem_set_cases (hslots ▸ hslot') with rfl | hslot'
    · refine (congrArg _ htimer).trans ?_
      exact Function.update_self ..
    · exact hlive _ (h.active slot' hslot' hactive)
  · obtain ⟨hdue, hmem⟩ := h.due d hd e he
    exact ⟨hlive _ hdue, mem_owned_keep hget hslots rfl hmem⟩

/-- The slot of a timer is disarmed, and its stop call returns. -/
theorem Cancel.stop (h : Cancel s) (hb : Base s) {timer i : Nat} {slot : Slot}
    (hget : s.slots[i]? = some slot) (howner : slot.owner = some slot.timer)
    (htimer : slot.timer = timer) (hun : s.Uncollected timer)
    (hslots : t.slots = s.slots.set i { slot with active := false })
    (hdrivers : t.drivers = s.drivers)
    (hcancelled : t.cancelled = Function.update s.cancelled timer true) : Cancel t := by
  refine ⟨fun slot' hslot' hactive => ?_, fun d hd e he => ?_⟩
  · rw [hcancelled]
    obtain ⟨j, hj⟩ := List.mem_iff_getElem?.mp (hslots ▸ hslot')
    rcases Ledger.getElem?_set_cases hj with ⟨-, rfl⟩ | ⟨hji, hj⟩
    · cases hactive
    · -- the timer has no other slot
      obtain ⟨howner', -⟩ := (hb.slots slot' (List.mem_of_getElem? hj)).owner_of_active hactive
      have hne : slot'.timer ≠ timer := by
        intro heq
        exact hji (hb.owner_unique hj hget (heq ▸ howner') (htimer ▸ howner))
      rw [Function.update_of_ne hne]
      exact h.active slot' (List.mem_of_getElem? hj) hactive
  · rw [hdrivers] at hd
    obtain ⟨hdue, hmem⟩ := h.due d hd e he
    rw [hcancelled, Function.update_of_ne (hun d hd e he)]
    exact ⟨hdue, mem_owned_keep hget hslots rfl hmem⟩

theorem cancel_stepCall (h : Cancel s) (hb : Base s) {k : Nat} {c : Call}
    (hk : s.calls[k]? = some c) (hok : ∀ t ∈ c.clears?, s.Uncollected t)
    (hs : s.stepCall k c = some t) : Cancel t := by
  have hcall := hb.calls c (List.mem_of_getElem? hk)
  cases c with
  | init timer =>
    simp only [State.stepCall] at hs
    split at hs <;> cases hs <;> exact h.congr rfl rfl rfl
  | allocating timer =>
    simp only [State.stepCall] at hs
    split at hs
    · cases hs
      exact h.congr rfl rfl rfl
    · rename_i i hi
      cases hs
      obtain ⟨slot, hget, hfree⟩ := hb.free_slot hi
      have hslots := modifySlot_slots hget fun _ =>
        { Slot.empty with used := true, owner := some timer }
      refine h.replace hslots rfl rfl rfl fun _ _ e _ hmem => ?_
      obtain ⟨slot', hslot', howner⟩ := List.mem_filterMap.mp hmem
      refine List.mem_filterMap.mpr ⟨slot', hslots ▸ Ledger.mem_set_of_ne hget hslot' ?_, howner⟩
      rintro rfl
      rw [hfree] at howner
      cases howner
  | publishing timer i =>
    cases hs
    exact h.congr rfl rfl rfl
  | binding timer i =>
    cases hs
    obtain ⟨slot, hget, hinactive⟩ := hb.slot_of_fresh hcall.2.2
    have hslots := modifySlot_slots hget fun slot =>
      { slot with timer, interval := (s.objects timer).interval.toUInt64 }
    refine h.replace hslots hinactive rfl rfl fun _ _ e _ hmem => ?_
    exact mem_owned_keep hget hslots rfl hmem
  | mod timer interval =>
    simp only [State.stepCall] at hs
    split at hs
    · cases hs
      exact h.congr rfl rfl rfl
    · split at hs <;> cases hs <;> exact h.congr rfl rfl rfl
  | arming timer interval i =>
    cases hs
    exact h.congr rfl rfl rfl
  | storing timer interval i now =>
    obtain ⟨slot, hget, -, -, htimer, -⟩ := hb.slot_of_bound hcall.2
    simp only [State.stepCall, hget] at hs
    split at hs
    · cases hs
      exact h.arm hget htimer k _
    · cases hs
      exact h.congr rfl rfl rfl
  | stop timer =>
    have hidle := hb.idle_of_call hk rfl rfl
    simp only [State.stepCall] at hs
    split at hs
    · rename_i hslot
      cases hs
      exact h.cancel_unowned hb (hb.unowned_of_slotOf hslot hidle) rfl rfl rfl
    · cases hs
      exact h.congr rfl rfl rfl
  | stopping timer i =>
    obtain ⟨slot, hget, -, howner, htimer, -⟩ := hb.slot_of_bound hcall.2
    simp only [State.stepCall, hget] at hs
    cases hs
    exact h.stop hb hget howner htimer (hok timer rfl) (modifySlot_slots hget _) rfl rfl
  | destroy timer =>
    have hidle := hb.idle_of_call hk rfl rfl
    simp only [State.stepCall] at hs
    split at hs
    · rename_i hslot
      cases hs
      exact h.cancel_unowned hb (hb.unowned_of_slotOf hslot hidle) rfl rfl rfl
    · cases hs
      exact h.congr rfl rfl rfl
  | destroying timer i =>
    cases hs
    obtain ⟨slot, hget, howner, -⟩ := shape_eq_some hcall.2
    have hslots := modifySlot_slots hget fun _ => Slot.empty
    refine h.replace hslots rfl rfl rfl fun d hd e he hmem => ?_
    have hperm := Ledger.filterMap_set_erase Slot.owner (y := .empty) hget howner rfl
    refine mem_owned_set hslots ?_
    exact List.mem_of_ne_of_mem (hok timer rfl d hd e he) (hperm.mem_iff.mp hmem)
  | forgetting timer =>
    cases hs
    exact h.cancel_unowned hb (.inr hcall) rfl rfl rfl
  | returned timer result => cases hs

/-- A driver moves on along its due list. -/
theorem Cancel.advance (h : Cancel s) {k : Nat} {d d' : Driver} (hk : s.drivers[k]? = some d)
    (hdrivers : t.drivers = s.drivers.set k d') (hsub : d'.due ⊆ d.due) (hslots : t.slots = s.slots)
    (hcancelled : t.cancelled = s.cancelled) : Cancel t := by
  refine ⟨?_, fun x hx e he => ?_⟩
  · rw [hslots, hcancelled]
    exact h.active
  · unfold State.owned
    rw [hslots, hcancelled]
    rw [hdrivers] at hx
    rcases Ledger.mem_set_cases hx with rfl | hx
    · exact h.due d (List.mem_of_getElem? hk) e (hsub he)
    · exact h.due x hx e he

/-- The critical section of the driver. -/
theorem Cancel.collect (h : Cancel s) (hb : Base s) (k : Nat) (now : UInt64) :
    Cancel ({ s with slots := s.slots.map (Slot.expire now) }.driverGoto k
      (.firing (s.slots.filterMap (Slot.due? now)))) := by
  have howned : (s.slots.map (Slot.expire now)).filterMap Slot.owner = s.owned := by
    rw [List.filterMap_map]
    exact congrArg (List.filterMap · s.slots) (funext (Slot.expire_owner now))
  refine ⟨fun slot hslot hactive => ?_, fun d hd e he => ?_⟩
  · obtain ⟨slot', hslot', rfl⟩ := List.mem_map.mp hslot
    have hlive := h.active slot' hslot' (Slot.active_of_expire hactive)
    rw [Slot.expire_timer]
    exact hlive
  · have hgoal : s.cancelled e.timer = false ∧ e.timer ∈ s.owned := by
      rcases Ledger.mem_set_cases hd with rfl | hd
      · obtain ⟨slot, hslot, hdue⟩ := List.mem_filterMap.mp he
        obtain ⟨hactive, -, rfl⟩ := Slot.due?_eq_some hdue
        obtain ⟨howner, -⟩ := (hb.slots slot hslot).owner_of_active hactive
        exact ⟨h.active slot hslot hactive, List.mem_filterMap.mpr ⟨slot, hslot, howner⟩⟩
      · exact h.due d hd e he
    refine ⟨hgoal.1, ?_⟩
    unfold State.owned State.driverGoto
    rw [howned]
    exact hgoal.2

theorem cancel_stepDriver (h : Cancel s) (hb : Base s) {k : Nat} {d : Driver}
    (hk : s.drivers[k]? = some d) (hs : s.stepDriver k d = some t) : Cancel t := by
  cases d with
  | entered =>
    cases hs
    exact h.advance hk rfl (List.nil_subset _) rfl rfl
  | collecting now =>
    cases hs
    exact h.collect hb k now
  | firing due =>
    cases due with
    | nil =>
      cases hs
      exact h.advance hk rfl (List.nil_subset _) rfl rfl
    | cons e rest =>
      simp only [State.stepDriver] at hs
      split at hs
      · cases hs
        exact h.advance hk rfl (List.subset_cons_self e rest) rfl rfl
      · cases hs
        exact h.advance hk rfl (List.Subset.refl _) rfl rfl
  | calling e handler data rest =>
    cases hs
    exact h.advance hk rfl (List.subset_cons_self e rest) rfl rfl
  | running rest =>
    cases hs
    exact h.advance hk rfl (List.Subset.refl _) rfl rfl
  | returned => cases hs

theorem cancel_step (h : Cancel s) (hb : Base s) {act : Action} (hok : CancelsUncollected s act)
    (hs : step s act = some t) : Cancel t := by
  cases act with
  | initCall | modCall | stopCall | destroyCall =>
    cases hs
    exact h.congr rfl rfl rfl
  | call k =>
    obtain ⟨c, hk, hs⟩ := Option.bind_eq_some_iff.mp hs
    exact cancel_stepCall h hb hk (hok.2 c hk) hs
  | workerFails k =>
    obtain ⟨c, hk, hs⟩ := Option.bind_eq_some_iff.mp hs
    cases c with
    | allocating timer =>
      cases hs
      exact h.congr rfl rfl rfl
    | init | publishing | binding | mod | arming | storing | stop | stopping | destroy | destroying
    | forgetting | returned => cases hs
  | drive =>
    cases hs
    refine ⟨h.active, fun d hd e he => ?_⟩
    rcases List.mem_append.mp hd with hd | hd
    · exact h.due d hd e he
    · rw [List.mem_singleton.mp hd] at he
      cases he
  | driver k =>
    obtain ⟨d, hk, hs⟩ := Option.bind_eq_some_iff.mp hs
    exact cancel_stepDriver h hb hk hs
  | tick clock =>
    obtain ⟨-, hs⟩ := Option.ite_none_right_eq_some.mp hs
    cases hs
    exact h.congr rfl rfl rfl

end Cancel

/-! ## §3 Main results -/

theorem Driver.mem_due_of_touches? {d : Driver} {timer : Nat} (h : timer ∈ d.touches?) :
    ∃ e ∈ d.due, e.timer = timer := by
  cases d with
  | firing due =>
    cases due with
    | nil => cases h
    | cons e rest =>
      obtain ⟨-, h⟩ := Option.ite_none_left_eq_some.mp h
      exact ⟨e, List.mem_cons_self, Option.some.inj h⟩
  | calling e handler data rest => exact ⟨e, List.mem_cons_self, Option.some.inj h⟩
  | entered | collecting | running | returned => cases h

/-- **Cancellation is effective.** In a run where timers are stopped and
destroyed only while they are on no due list, no driver is about to read a
timer, or to invoke its handler, after a stop or destroy call for it has
returned, until it is armed again. -/
theorem cancelled_timer_untouched {objects : Nat → OsalTimer} {clock : UInt64} {as : List Action}
    {s : State} (h : Steps step CancelsUncollected (init objects clock) as s) :
    ∀ d ∈ s.drivers, ∀ t ∈ d.touches?, s.cancelled t = false := by
  have hinv : Base s ∧ Cancel s := by
    refine h.invariant (I := fun s => Base s ∧ Cancel s)
      ⟨base_init objects clock, cancel_init objects clock⟩ ?_
    rintro t act u ⟨hb, hc⟩ hok hs
    exact ⟨base_step hb hok.1 hs, cancel_step hc hb hok hs⟩
  intro d hd timer htimer
  obtain ⟨e, he, rfl⟩ := Driver.mem_due_of_touches? htimer
  exact (hinv.2.due d hd e he).1

/-- Timers with a handler each. -/
def sampleObjects (timer : Nat) : OsalTimer := ⟨0, some (100 + timer), 0, 5⟩

/-- Timers 8 and 16 are registered and armed for 5 ms, and a driver comes after
both deadlines. -/
def twoArmed : List Action :=
  [.initCall 8, .call 0, .call 0, .call 0, .call 0, .modCall 8 5, .call 1, .call 1, .call 1,
    .initCall 16, .call 2, .call 2, .call 2, .call 2, .modCall 16 5, .call 3, .call 3, .call 3,
    .tick 9, .drive, .driver 0, .driver 0, .driver 0]

/-- The handler of timer 8 has returned, then timer 8 is stopped, and timer 16 is
read. -/
def stopsFired : List Action :=
  twoArmed ++ [.driver 0, .driver 0, .stopCall 8, .call 4, .call 4, .driver 0]

theorem cancelled_timer_untouched_sample : ∃ s : State,
    (s.fired.map Fired.timer, s.cancelled 8) = ([8], true) ∧
      ∀ d ∈ s.drivers, d.touches? = some 16 ∧ ∀ t ∈ d.touches?, s.cancelled t = false := by
  have hrun : (run (guarded step CancelsUncollected) (init sampleObjects 0) stopsFired).map
      (fun s => ((s.fired.map Fired.timer, s.cancelled 8), s.drivers.map Driver.touches?)) =
      some (([8], true), [some 16]) := by decide +kernel
  obtain ⟨s, hs, hlast⟩ := Option.map_eq_some_iff.mp hrun
  obtain ⟨hfired, htouches⟩ := Prod.mk.inj hlast
  refine ⟨s, hfired, fun d hd => ⟨?_, ?_⟩⟩
  · have hmem : d.touches? ∈ s.drivers.map Driver.touches? := List.mem_map_of_mem hd
    rw [htouches] at hmem
    exact List.mem_singleton.mp hmem
  · exact cancelled_timer_untouched (Steps.of_run_guarded hs) d hd

/-- The handler of timer 8 stops timer 16, which expired with it and is fired next. -/
theorem cancelled_timer_fired :
    ¬ ∀ s : State, Reachable step (init sampleObjects 0) s →
      ∀ d ∈ s.drivers, ∀ t ∈ d.touches?, s.cancelled t = false := by
  intro h
  have hrun : (run step (init sampleObjects 0)
      (twoArmed ++ [.driver 0, .stopCall 16, .call 4, .call 4, .driver 0])).map
      (fun s => (s.drivers, s.cancelled 16)) = some ([.firing [⟨16, 1⟩]], true) := by
    decide +kernel
  obtain ⟨s, hs, hlast⟩ := Option.map_eq_some_iff.mp hrun
  obtain ⟨hdrivers, hcancelled⟩ := Prod.mk.inj hlast
  have hlive := h s ⟨_, Steps.of_run hs⟩ (.firing [⟨16, 1⟩])
    (by rw [hdrivers]; exact List.mem_singleton_self _) 16 rfl
  rw [hcancelled] at hlive
  cases hlive

end HisiRiscv.Osal.Timer
