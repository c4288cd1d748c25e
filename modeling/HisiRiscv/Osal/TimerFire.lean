/-
HisiRiscv.Osal.TimerFire — when and how often a timer fires.

Every successful `osal_timer_mod` has a number, which the slot keeps until
it is armed again, stopped or freed, and which goes from the slot to a due
list and from there to an invocation. No number is in two of these places.
The deadline in the slot is that of the last `osal_timer_mod` of its timer,
but a due entry only knows the timer: when the timer is armed again between
collection and invocation, its handler is invoked before the new deadline.
The same happens when clock reading and interval add up to 2^64.

  §1 The condition.
  §2 The invariant.
  §3 Steps of calls.
  §4 Steps of drivers.
  §5 Main results.
-/
import HisiRiscv.Osal.TimerSlots
import Mathlib.Algebra.Group.Nat.Defs

namespace HisiRiscv.Osal.Timer

open HisiRiscv.Machine

/-! ## §1 The condition -/

/-- The timer that the next step arms, and its deadline. -/
def Call.arms? : Call → Option (Nat × Nat)
  | storing t interval _ now => some (t, now.toNat + interval.toNat)
  | init _ | allocating _ | publishing _ _ | binding _ _ | mod _ _ | arming _ _ _ | stop _
  | stopping _ _ | destroy _ | destroying _ _ | forgetting _ | returned _ _ => none

/-- A timer is armed only while it is on no due list, for a deadline that can be
represented, and no init or destroy call overlaps another call on the same
timer. -/
def ArmsUncollected (s : State) (act : Action) : Prop :=
  Exclusive s act ∧
    match act with
    | .call k => ∀ c ∈ s.calls[k]?, ∀ p ∈ c.arms?, s.Uncollected p.1 ∧ p.2 < 2 ^ 64
    | .initCall _ | .modCall _ _ | .stopCall _ | .destroyCall _ | .workerFails _ | .drive | .driver _
    | .tick _ => True

instance decidableArmsUncollected (s : State) : (a : Action) → Decidable (ArmsUncollected s a)
  | .call k =>
      inferInstanceAs
        (Decidable (True ∧ ∀ c ∈ s.calls[k]?, ∀ p ∈ c.arms?, s.Uncollected p.1 ∧ p.2 < 2 ^ 64))
  | .initCall t => inferInstanceAs (Decidable (Exclusive s (.initCall t) ∧ True))
  | .modCall t i => inferInstanceAs (Decidable (Exclusive s (.modCall t i) ∧ True))
  | .stopCall t => inferInstanceAs (Decidable (Exclusive s (.stopCall t) ∧ True))
  | .destroyCall t => inferInstanceAs (Decidable (Exclusive s (.destroyCall t) ∧ True))
  | .workerFails _ | .drive | .driver _ | .tick _ => inferInstanceAs (Decidable (True ∧ True))

/-! ## §2 The invariant -/

/-- The number of the arming that an active slot keeps. -/
def Slot.armings (slot : Slot) : List Nat := if slot.active then [slot.arm] else []

def Driver.armings (d : Driver) : List Nat := d.due.map Due.arm

/-- The armings that are kept, collected, or have fired. -/
def State.armings (s : State) : List Nat :=
  s.slots.flatMap Slot.armings ++ (s.drivers.flatMap Driver.armings ++ s.fired.map Fired.arm)

structure Fire (s : State) : Prop where
  active : ∀ slot ∈ s.slots, slot.active = true →
    s.arms[slot.arm]? = some slot.timer ∧ s.deadlineOf slot.timer = some slot.deadline.toNat
  due : ∀ d ∈ s.drivers, ∀ e ∈ d.due,
    s.arms[e.arm]? = some e.timer ∧ ∃ deadline ∈ s.deadlineOf e.timer, deadline ≤ s.clock.toNat
  clock : ∀ now, .collecting now ∈ s.drivers → now ≤ s.clock
  fired : ∀ f ∈ s.fired,
    s.arms[f.arm]? = some f.timer ∧ ∃ deadline ∈ f.deadline, deadline ≤ f.clock.toNat
  once : s.armings.Nodup

section Fire

variable {s t : State}

theorem fire_init (objects : Nat → OsalTimer) (clock : UInt64) : Fire (init objects clock) where
  active slot hslot hactive := by
    rw [(List.mem_replicate.mp hslot).2] at hactive
    cases hactive
  due := nofun
  clock := nofun
  fired := nofun
  once := by
    simp only [State.armings, init]
    decide

/-- Every number in use has been given out. -/
theorem Fire.lt (h : Fire s) {n : Nat} (hn : n ∈ s.armings) : n < s.arms.length := by
  rcases List.mem_append.mp hn with hn | hn
  · obtain ⟨slot, hslot, hn⟩ := List.mem_flatMap.mp hn
    unfold Slot.armings at hn
    split at hn
    · rename_i hactive
      rw [List.mem_singleton.mp hn]
      exact (List.getElem?_eq_some_iff.mp (h.active slot hslot hactive).1).1
    · cases hn
  · rcases List.mem_append.mp hn with hn | hn
    · obtain ⟨d, hd, hn⟩ := List.mem_flatMap.mp hn
      obtain ⟨e, he, rfl⟩ := List.mem_map.mp hn
      exact (List.getElem?_eq_some_iff.mp (h.due d hd e he).1).1
    · obtain ⟨f, hf, rfl⟩ := List.mem_map.mp hn
      exact (List.getElem?_eq_some_iff.mp (h.fired f hf).1).1

/-! ## §3 Steps of calls -/

/-- Nothing that matters here changes. -/
theorem Fire.congr (h : Fire s) (hslots : t.slots = s.slots) (hdrivers : t.drivers = s.drivers)
    (hclock : t.clock = s.clock) (harms : t.arms = s.arms) (hdeadline : t.deadlineOf = s.deadlineOf)
    (hfired : t.fired = s.fired) : Fire t := by
  refine ⟨?_, ?_, ?_, ?_, ?_⟩
  · rw [hslots, harms, hdeadline]
    exact h.active
  · rw [hdrivers, harms, hdeadline, hclock]
    exact h.due
  · rw [hdrivers, hclock]
    exact h.clock
  · rw [hfired, harms]
    exact h.fired
  · unfold State.armings
    rw [hslots, hdrivers, hfired]
    exact h.once

/-- A slot is replaced by one that is not active. -/
theorem Fire.replace (h : Fire s) {i : Nat} {slot slot' : Slot} (hget : s.slots[i]? = some slot)
    (hslots : t.slots = s.slots.set i slot') (hinactive : slot'.active = false)
    (hdrivers : t.drivers = s.drivers) (hclock : t.clock = s.clock) (harms : t.arms = s.arms)
    (hdeadline : t.deadlineOf = s.deadlineOf) (hfired : t.fired = s.fired) : Fire t := by
  refine ⟨fun x hx hactive => ?_, ?_, ?_, ?_, ?_⟩
  · rw [hslots] at hx
    rw [harms, hdeadline]
    rcases Ledger.mem_set_cases hx with rfl | hx
    · rw [hinactive] at hactive
      cases hactive
    · exact h.active x hx hactive
  · rw [hdrivers, harms, hdeadline, hclock]
    exact h.due
  · rw [hdrivers, hclock]
    exact h.clock
  · rw [hfired, harms]
    exact h.fired
  · have hnone : slot'.armings = [] := if_neg (by rw [hinactive]; nofun)
    have hfewer := Ledger.flatMap_set_subperm Slot.armings (y := slot') hget
      (hnone ▸ List.nil_subperm)
    unfold State.armings
    rw [hslots, hdrivers, hfired]
    exact Ledger.nodup_of_subperm ((List.subperm_append_right _).mpr hfewer) h.once

theorem armings_set {i : Nat} {slot slot' : Slot} (hget : s.slots[i]? = some slot)
    (hslots : t.slots = s.slots.set i slot') : ∃ rest,
    (s.slots.flatMap Slot.armings).Perm (slot.armings ++ rest) ∧
      (t.slots.flatMap Slot.armings).Perm (slot'.armings ++ rest) := by
  obtain ⟨rest, hold, hnew⟩ := Ledger.flatMap_set_split Slot.armings hget
  rw [hslots]
  exact ⟨rest, hold, hnew slot'⟩

/-- The slot of a timer is armed. -/
theorem Fire.arm (h : Fire s) (hb : Base s) {timer i : Nat} {interval : UInt32} {now : UInt64}
    {slot : Slot} (hget : s.slots[i]? = some slot) (howner : slot.owner = some slot.timer)
    (htimer : slot.timer = timer) (hun : s.Uncollected timer)
    (hdeadline : now.toNat + interval.toNat < 2 ^ 64) (k : Nat) (c : Call) :
    Fire ((s.arm timer interval i now).goto k c) := by
  have hslots := modifySlot_slots hget fun slot =>
    { slot with
      interval := interval.toUInt64
      deadline := now + interval.toUInt64
      active := true
      periodic := false
      arm := s.arms.length }
  have hsum : (now + interval.toUInt64).toNat = now.toNat + interval.toNat := by
    rw [UInt64.toNat_add, UInt32.toNat_toUInt64, Nat.mod_eq_of_lt hdeadline]
  have harms : ∀ {n timer' : Nat}, s.arms[n]? = some timer' → (s.arms ++ [timer])[n]? = some timer' := by
    intro n timer' hn
    exact (List.getElem?_append_left (List.getElem?_eq_some_iff.mp hn).1).trans hn
  refine ⟨fun x hx hactive => ?_, fun d hd e he => ?_, h.clock, fun f hf => ?_, ?_⟩
  · obtain ⟨j, hj⟩ := List.mem_iff_getElem?.mp (hslots ▸ hx)
    rcases Ledger.getElem?_set_cases hj with ⟨-, rfl⟩ | ⟨hji, hj⟩
    · refine ⟨?_, ?_⟩
      · refine (List.getElem?_append_right (Nat.le_refl _)).trans ?_
        rw [Nat.sub_self, htimer]
        rfl
      · refine (congrArg _ htimer).trans ((Function.update_self ..).trans ?_)
        rw [hsum]
    · -- the timer has no other slot
      have hmem := List.mem_of_getElem? hj
      obtain ⟨howner', -⟩ := (hb.slots x hmem).owner_of_active hactive
      have hne : x.timer ≠ timer := by
        intro heq
        exact hji (hb.owner_unique hj hget howner' (by rw [howner, htimer, heq]))
      obtain ⟨hnumber, hlast⟩ := h.active x hmem hactive
      exact ⟨harms hnumber, (Function.update_of_ne hne ..).trans hlast⟩
  · obtain ⟨hnumber, deadline, hlast, hle⟩ := h.due d hd e he
    exact ⟨harms hnumber, deadline, (Function.update_of_ne (hun d hd e he) ..).trans hlast, hle⟩
  · obtain ⟨hnumber, hlast⟩ := h.fired f hf
    exact ⟨harms hnumber, hlast⟩
  · obtain ⟨rest, hold, hnew⟩ := armings_set hget hslots
    have hkept : (s.arms.length :: (rest ++ (s.drivers.flatMap Driver.armings ++
        s.fired.map Fired.arm))).Nodup := by
      have hsub : (rest ++ (s.drivers.flatMap Driver.armings ++ s.fired.map Fired.arm)).Subperm
          s.armings :=
        (List.subperm_append_right _).mpr
          ((List.sublist_append_right _ rest).subperm.trans hold.symm.subperm)
      refine List.nodup_cons.mpr ⟨fun hmem => ?_, Ledger.nodup_of_subperm hsub h.once⟩
      exact Nat.lt_irrefl _ (h.lt (hsub.subset hmem))
    exact Ledger.nodup_of_subperm (hnew.append_right _).subperm hkept

theorem fire_stepCall (h : Fire s) (hb : Base s) {k : Nat} {c : Call} (hk : s.calls[k]? = some c)
    (hok : ∀ p ∈ c.arms?, s.Uncollected p.1 ∧ p.2 < 2 ^ 64) (hs : s.stepCall k c = some t) :
    Fire t := by
  have hcall := hb.calls c (List.mem_of_getElem? hk)
  cases c with
  | init timer =>
    simp only [State.stepCall] at hs
    split at hs <;> cases hs <;> exact h.congr rfl rfl rfl rfl rfl rfl
  | allocating timer =>
    simp only [State.stepCall] at hs
    split at hs
    · cases hs
      exact h.congr rfl rfl rfl rfl rfl rfl
    · rename_i i hi
      cases hs
      obtain ⟨slot, hget, -⟩ := hb.free_slot hi
      exact h.replace hget (modifySlot_slots hget _) rfl rfl rfl rfl rfl rfl
  | publishing timer i =>
    cases hs
    exact h.congr rfl rfl rfl rfl rfl rfl
  | binding timer i =>
    cases hs
    obtain ⟨slot, hget, hinactive⟩ := hb.slot_of_fresh hcall.2.2
    exact h.replace hget (modifySlot_slots hget _) hinactive rfl rfl rfl rfl rfl
  | mod timer interval =>
    simp only [State.stepCall] at hs
    split at hs
    · cases hs
      exact h.congr rfl rfl rfl rfl rfl rfl
    · split at hs <;> cases hs <;> exact h.congr rfl rfl rfl rfl rfl rfl
  | arming timer interval i =>
    cases hs
    exact h.congr rfl rfl rfl rfl rfl rfl
  | storing timer interval i now =>
    obtain ⟨slot, hget, -, howner, htimer, -⟩ := hb.slot_of_bound hcall.2
    obtain ⟨hun, hdeadline⟩ := hok (timer, now.toNat + interval.toNat) rfl
    simp only [State.stepCall, hget] at hs
    split at hs
    · cases hs
      exact h.arm hb hget howner htimer hun hdeadline k _
    · cases hs
      exact h.congr rfl rfl rfl rfl rfl rfl
  | stop timer =>
    simp only [State.stepCall] at hs
    split at hs <;> cases hs <;> exact h.congr rfl rfl rfl rfl rfl rfl
  | stopping timer i =>
    obtain ⟨slot, hget, -⟩ := hb.slot_of_bound hcall.2
    simp only [State.stepCall, hget] at hs
    cases hs
    exact h.replace hget (modifySlot_slots hget _) rfl rfl rfl rfl rfl rfl
  | destroy timer =>
    simp only [State.stepCall] at hs
    split at hs <;> cases hs <;> exact h.congr rfl rfl rfl rfl rfl rfl
  | destroying timer i =>
    cases hs
    obtain ⟨slot, hget, -⟩ := shape_eq_some hcall.2
    exact h.replace hget (modifySlot_slots hget _) rfl rfl rfl rfl rfl rfl
  | forgetting timer =>
    cases hs
    exact h.congr rfl rfl rfl rfl rfl rfl
  | returned timer result => cases hs

/-! ## §4 Steps of drivers -/

/-- A driver moves on along its due list. -/
theorem Fire.advance (h : Fire s) {k : Nat} {d d' : Driver} (hk : s.drivers[k]? = some d)
    (hdrivers : t.drivers = s.drivers.set k d') (hsub : d'.due.Sublist d.due)
    (hnow : ∀ now, d' = .collecting now → now ≤ s.clock) (hslots : t.slots = s.slots)
    (hclock : t.clock = s.clock) (harms : t.arms = s.arms) (hdeadline : t.deadlineOf = s.deadlineOf)
    (hfired : t.fired = s.fired) : Fire t := by
  refine ⟨?_, fun x hx e he => ?_, fun now hx => ?_, ?_, ?_⟩
  · rw [hslots, harms, hdeadline]
    exact h.active
  · rw [hdrivers] at hx
    rw [harms, hdeadline, hclock]
    rcases Ledger.mem_set_cases hx with rfl | hx
    · exact h.due d (List.mem_of_getElem? hk) e (hsub.subset he)
    · exact h.due x hx e he
  · rw [hdrivers] at hx
    rw [hclock]
    rcases Ledger.mem_set_cases hx with hx | hx
    · exact hnow now hx.symm
    · exact h.clock now hx
  · rw [hfired, harms]
    exact h.fired
  · have hfewer := Ledger.flatMap_set_subperm Driver.armings (y := d') hk
      (hsub.map Due.arm).subperm
    unfold State.armings
    rw [hslots, hdrivers, hfired]
    exact Ledger.nodup_of_subperm
      ((List.subperm_append_left _).mpr ((List.subperm_append_right _).mpr hfewer)) h.once

/-- Collecting takes the number out of the slot. -/
theorem Slot.armings_split {slot : Slot} (h : slot.Ok) (now : UInt64) :
    slot.armings = (slot.expire now).armings ++ (slot.due? now).toList.map Due.arm := by
  unfold Slot.due? Slot.expire
  by_cases hexpired : slot.expired now = true
  · have hactive : slot.active = true :=
      ((Bool.and_eq_true ..).mp ((Bool.and_eq_true ..).mp hexpired).1).2
    rw [if_pos hexpired, if_pos hexpired, h.periodic]
    unfold Slot.armings
    rw [if_pos hactive]
    rfl
  · rw [if_neg hexpired, if_neg hexpired]
    exact (List.append_nil _).symm

theorem armings_collect {slots : List Slot} (h : ∀ slot ∈ slots, slot.Ok) (now : UInt64) :
    (slots.flatMap Slot.armings).Perm ((slots.map (Slot.expire now)).flatMap Slot.armings ++
      (slots.filterMap (Slot.due? now)).map Due.arm) := by
  induction slots with
  | nil => exact .refl _
  | cons slot slots ih =>
    have ih := ih fun x hx => h x (List.mem_cons_of_mem _ hx)
    have hhead := Slot.armings_split (h slot List.mem_cons_self) now
    have hdue : (slot :: slots).filterMap (Slot.due? now) =
        (slot.due? now).toList ++ slots.filterMap (Slot.due? now) := by
      rw [List.filterMap_cons]
      cases slot.due? now <;> rfl
    rw [hdue, List.map_append, List.map_cons, List.flatMap_cons, List.flatMap_cons, hhead,
      List.append_assoc, List.append_assoc]
    refine List.Perm.append_left _ ((ih.append_left _).trans ?_)
    rw [← List.append_assoc, ← List.append_assoc]
    exact List.perm_append_comm.append_right _

/-- The critical section of the driver. -/
theorem Fire.collect (h : Fire s) (hb : Base s) {k : Nat} {now : UInt64}
    (hk : s.drivers[k]? = some (.collecting now)) :
    Fire ({ s with slots := s.slots.map (Slot.expire now) }.driverGoto k
      (.firing (s.slots.filterMap (Slot.due? now)))) := by
  have hnow := h.clock now (List.mem_of_getElem? hk)
  refine ⟨fun slot hslot hactive => ?_, fun d hd e he => ?_, fun now' hd => ?_, h.fired, ?_⟩
  · obtain ⟨slot', hslot', rfl⟩ := List.mem_map.mp hslot
    have hold := h.active slot' hslot' (Slot.active_of_expire hactive)
    unfold Slot.expire at hactive ⊢
    split at hactive
    · rw [(hb.slots slot' hslot').periodic] at hactive
      cases hactive
    · rename_i hnot
      rw [if_neg hnot]
      exact hold
  · rcases Ledger.mem_set_cases hd with rfl | hd
    · obtain ⟨slot, hslot, hdue⟩ := List.mem_filterMap.mp he
      obtain ⟨hactive, hdeadline, rfl⟩ := Slot.due?_eq_some hdue
      obtain ⟨hnumber, hlast⟩ := h.active slot hslot hactive
      refine ⟨hnumber, slot.deadline.toNat, hlast, ?_⟩
      exact UInt64.le_iff_toNat_le.mp (UInt64.le_trans hdeadline hnow)
    · exact h.due d hd e he
  · rcases Ledger.mem_set_cases hd with hd | hd
    · cases hd
    · exact h.clock now' hd
  · obtain ⟨rest, hold, hset⟩ := Ledger.flatMap_set_split Driver.armings hk
    have hnew := hset (.firing (s.slots.filterMap (Slot.due? now)))
    have hslots := armings_collect hb.slots now
    refine Ledger.nodup_of_subperm (List.Perm.subperm ?_) h.once
    -- what leaves the slots comes into the due list
    unfold State.armings
    refine ((hnew.append_right _).append_left _).trans (List.Perm.symm ?_)
    refine (hslots.append_right _).trans ?_
    rw [List.append_assoc, List.append_assoc]
    exact ((hold.append_right _).append_left _).append_left _

/-- A handler is invoked. -/
theorem Fire.call (h : Fire s) {k handler : Nat} {e : Due} {data : UInt32} {rest : List Due}
    (hk : s.drivers[k]? = some (.calling e handler data rest)) :
    Fire ({ s with
      fired := s.fired ++
        [(⟨e.timer, handler, data, e.arm, s.clock, s.deadlineOf e.timer⟩ : Fired)] }.driverGoto k
      (.running rest)) := by
  have hdue := h.due _ (List.mem_of_getElem? hk)
  refine ⟨h.active, fun d hd x hx => ?_, fun now hd => ?_, fun f hf => ?_, ?_⟩
  · rcases Ledger.mem_set_cases hd with rfl | hd
    · exact hdue x (List.mem_cons_of_mem _ hx)
    · exact h.due d hd x hx
  · rcases Ledger.mem_set_cases hd with hd | hd
    · cases hd
    · exact h.clock now hd
  · rcases List.mem_append.mp hf with hf | hf
    · exact h.fired f hf
    · rw [List.mem_singleton.mp hf]
      exact hdue e List.mem_cons_self
  · obtain ⟨others, hold, hset⟩ := Ledger.flatMap_set_split Driver.armings hk
    have hnew := hset (.running rest)
    refine Ledger.nodup_of_subperm (List.Perm.subperm ?_) h.once
    -- the number goes from the head of the due list to the invocations
    refine List.Perm.append_left _ ?_
    refine List.Perm.trans ?_ (hold.append_right _).symm
    refine (hnew.append_right _).trans ?_
    change (_ ++ (s.fired ++ [_]).map Fired.arm).Perm
      (e.arm :: (rest.map Due.arm ++ others ++ s.fired.map Fired.arm))
    rw [List.map_append, ← List.append_assoc]
    exact List.perm_append_singleton ..

theorem fire_stepDriver (h : Fire s) (hb : Base s) {k : Nat} {d : Driver}
    (hk : s.drivers[k]? = some d) (hs : s.stepDriver k d = some t) : Fire t := by
  cases d with
  | entered =>
    cases hs
    refine h.advance hk rfl (List.nil_sublist _) (fun now heq => ?_) rfl rfl rfl rfl rfl
    cases heq
    exact UInt64.le_refl _
  | collecting now =>
    cases hs
    exact h.collect hb hk
  | firing due =>
    cases due with
    | nil =>
      cases hs
      exact h.advance hk rfl (List.nil_sublist _) (fun _ heq => by cases heq) rfl rfl rfl rfl rfl
    | cons e rest =>
      simp only [State.stepDriver] at hs
      split at hs
      · cases hs
        exact h.advance hk rfl (List.sublist_cons_self e rest) (fun _ heq => by cases heq) rfl rfl rfl rfl rfl
      · cases hs
        exact h.advance hk rfl (List.Sublist.refl _) (fun _ heq => by cases heq) rfl rfl rfl rfl rfl
  | calling e handler data rest =>
    cases hs
    exact h.call hk
  | running rest =>
    cases hs
    exact h.advance hk rfl (List.Sublist.refl _) (fun _ heq => by cases heq) rfl rfl rfl rfl rfl
  | returned => cases hs

theorem fire_step (h : Fire s) (hb : Base s) {act : Action} (hok : ArmsUncollected s act)
    (hs : step s act = some t) : Fire t := by
  cases act with
  | initCall | modCall | stopCall | destroyCall =>
    cases hs
    exact h.congr rfl rfl rfl rfl rfl rfl
  | call k =>
    obtain ⟨c, hk, hs⟩ := Option.bind_eq_some_iff.mp hs
    exact fire_stepCall h hb hk (hok.2 c hk) hs
  | workerFails k =>
    obtain ⟨c, hk, hs⟩ := Option.bind_eq_some_iff.mp hs
    cases c with
    | allocating timer =>
      cases hs
      exact h.congr rfl rfl rfl rfl rfl rfl
    | init | publishing | binding | mod | arming | storing | stop | stopping | destroy | destroying
    | forgetting | returned => cases hs
  | drive =>
    cases hs
    refine ⟨h.active, fun d hd e he => ?_, fun now hd => ?_, h.fired, ?_⟩
    · rcases List.mem_append.mp hd with hd | hd
      · exact h.due d hd e he
      · rw [List.mem_singleton.mp hd] at he
        cases he
    · rcases List.mem_append.mp hd with hd | hd
      · exact h.clock now hd
      · cases List.mem_singleton.mp hd
    · have hsame : (s.drivers ++ [Driver.entered]).flatMap Driver.armings =
          s.drivers.flatMap Driver.armings := by
        rw [List.flatMap_append]
        exact List.append_nil _
      unfold State.armings
      rw [hsame]
      exact h.once
  | driver k =>
    obtain ⟨d, hk, hs⟩ := Option.bind_eq_some_iff.mp hs
    exact fire_stepDriver h hb hk hs
  | tick clock =>
    obtain ⟨hle, hs⟩ := Option.ite_none_right_eq_some.mp hs
    cases hs
    have hle' : s.clock.toNat ≤ clock.toNat := UInt64.le_iff_toNat_le.mp hle
    refine ⟨h.active, fun d hd e he => ?_, fun now hd => ?_, h.fired, h.once⟩
    · obtain ⟨hnumber, deadline, hlast, hdeadline⟩ := h.due d hd e he
      exact ⟨hnumber, deadline, hlast, Nat.le_trans hdeadline hle'⟩
    · exact UInt64.le_trans (h.clock now hd) hle

/-! ## §5 Main results -/

/-- The timer has a handle, and no destroy call has freed its slot. -/
def State.Live (s : State) (timer : Nat) : Prop :=
  s.handle timer ≠ 0 ∧ .forgetting timer ∉ s.calls

/-- The slot that its handle designates belongs to a live timer. -/
theorem Base.owner_of_live (h : Base s) {timer : Nat} (hlive : s.Live timer) :
    ∃ i x, s.handle timer = i + 1 ∧ s.shape i = some (some timer, x) := by
  by_cases hmid : ∃ c ∈ s.calls, c.timer = timer ∧ c.midway = true
  · obtain ⟨c, hc, rfl, hmid⟩ := hmid
    have hcall := h.calls c hc
    cases c with
    | publishing timer i => exact absurd hcall.2.1 hlive.1
    | binding timer i => exact ⟨i, 0, hcall.2.1, hcall.2.2⟩
    | forgetting timer => exact absurd hc hlive.2
    | init | allocating | mod | arming | storing | stop | stopping | destroy | destroying
    | returned => cases hmid
  · obtain ⟨hzero, -⟩ | ⟨i, hi, hb⟩ := h.idle timer fun c hc htimer =>
      Bool.eq_false_iff.mpr fun hmidway => hmid ⟨c, hc, htimer, hmidway⟩
    · exact absurd hzero hlive.1
    · exact ⟨i, timer, hi, hb⟩

theorem Base.live_unique (h : Base s) {timer timer' : Nat} (hlive : s.Live timer)
    (hlive' : s.Live timer') (heq : s.handle timer = s.handle timer') : timer = timer' := by
  obtain ⟨i, x, hi, hshape⟩ := h.owner_of_live hlive
  obtain ⟨j, y, hj, hshape'⟩ := h.owner_of_live hlive'
  obtain rfl : i = j := by omega
  rw [hshape] at hshape'
  exact Option.some.inj (Prod.mk.inj (Option.some.inj hshape')).1

/-- **Timers fire once per arming and never early.** In a run where a timer is
armed only while it is on no due list, no two invocations are due to one
`osal_timer_mod`, each is due to one of its own timer, and comes when the
deadline of the last has passed; and no two live timers have one slot. -/
theorem timers_fire_once {objects : Nat → OsalTimer} {clock : UInt64} {as : List Action} {s : State}
    (h : Steps step ArmsUncollected (init objects clock) as s) :
    (s.fired.map Fired.arm).Nodup ∧
      (∀ f ∈ s.fired, s.arms[f.arm]? = some f.timer ∧
        ∃ deadline ∈ f.deadline, deadline ≤ f.clock.toNat) ∧
      ∀ timer timer', s.Live timer → s.Live timer' → s.handle timer = s.handle timer' →
        timer = timer' := by
  have hinv : Base s ∧ Fire s := by
    refine h.invariant (I := fun s => Base s ∧ Fire s)
      ⟨base_init objects clock, fire_init objects clock⟩ ?_
    rintro t act u ⟨hb, hf⟩ hok hs
    exact ⟨base_step hb hok.1 hs, fire_step hf hb hok hs⟩
  obtain ⟨hb, hf⟩ := hinv
  have honce := (List.nodup_append.mp (List.nodup_append.mp hf.once).2.1).2.1
  exact ⟨honce, hf.fired, fun _ _ => hb.live_unique⟩

end Fire

/-- Timer 8 is registered, armed for 5 ms, and collected after 9 ms. -/
def collected : List Action :=
  [.initCall 8, .call 0, .call 0, .call 0, .call 0, .modCall 8 5, .call 1, .call 1, .call 1, .tick 9,
    .drive, .driver 0, .driver 0]

/-- Its handler has been invoked, it is armed for another 21 ms, and fires again. -/
def firesTwice : List Action :=
  collected ++ [.driver 0, .driver 0, .modCall 8 21, .call 2, .call 2, .call 2, .tick 40, .drive,
    .driver 1, .driver 1, .driver 1, .driver 1]

theorem timers_fire_once_sample : ∃ s : State,
    s.fired = [⟨8, 1, 0, 0, 9, some 5⟩, ⟨8, 1, 0, 1, 40, some 30⟩] ∧ (s.fired.map Fired.arm).Nodup ∧
      ∀ f ∈ s.fired, ∃ deadline ∈ f.deadline, deadline ≤ f.clock.toNat := by
  have hrun : (run (guarded step ArmsUncollected) (init (fun _ => ⟨0, some 1, 0, 5⟩) 0)
      firesTwice).map State.fired =
      some [⟨8, 1, 0, 0, 9, some 5⟩, ⟨8, 1, 0, 1, 40, some 30⟩] := by decide +kernel
  obtain ⟨s, hs, hfired⟩ := Option.map_eq_some_iff.mp hrun
  obtain ⟨honce, hdeadline, -⟩ := timers_fire_once (Steps.of_run_guarded hs)
  exact ⟨s, hfired, honce, fun f hf => (hdeadline f hf).2⟩

/-- Timer 8 is armed for another 100 ms when it is on the due list already, and
fires at once. -/
theorem timers_fire_early :
    ¬ ∀ s : State, Reachable step (init (fun _ => ⟨0, some 1, 0, 5⟩) 0) s →
      ∀ f ∈ s.fired, ∃ deadline ∈ f.deadline, deadline ≤ f.clock.toNat := by
  intro h
  have hrun : (run step (init (fun _ => ⟨0, some 1, 0, 5⟩) 0)
      (collected ++ [.modCall 8 100, .call 2, .call 2, .call 2, .driver 0, .driver 0])).map
      State.fired = some [⟨8, 1, 0, 0, 9, some 109⟩] := by decide +kernel
  obtain ⟨s, hs, hfired⟩ := Option.map_eq_some_iff.mp hrun
  obtain ⟨deadline, hdeadline, hle⟩ := h s ⟨_, Steps.of_run hs⟩ ⟨8, 1, 0, 0, 9, some 109⟩
    (by rw [hfired]; exact List.mem_singleton_self _)
  obtain rfl : 109 = deadline := Option.some.inj hdeadline
  exact absurd hle (by decide)

end HisiRiscv.Osal.Timer
