/-
HisiRiscv.Osal.TimerSlots — whose slot is whose.

`osal_timer_init` and `osal_timer_destroy` change the slot of a timer and
its handle in separate steps, and `osal_timer_mod` and `osal_timer_stop`
use the index they have read from the handle a step later. All this fits
together as long as no init or destroy call overlaps another call on the
same timer: a timer between calls has no handle and no slot, or a handle
to the slot that belongs to it, and the calls in progress know how far the
change has got.

  §1 Conditions.
  §2 Slots and handles.
  §3 The invariant.
  §4 Steps.
-/
import HisiRiscv.Lib.Ledger
import HisiRiscv.Osal.Timer

namespace HisiRiscv.Osal.Timer

open HisiRiscv.Machine

/-! ## §1 Conditions -/

/-- No call on the timer is in progress. -/
def State.Untouched (s : State) (timer : Nat) : Prop :=
  ∀ c ∈ s.calls, c.timer = timer → c.unfinished = false

/-- No init or destroy call on the timer is in progress. -/
def State.Shared (s : State) (timer : Nat) : Prop :=
  ∀ c ∈ s.calls, c.timer = timer → c.sole = false

/-- An init or destroy call does not overlap another call on the same timer. -/
def Exclusive (s : State) : Action → Prop
  | .initCall t | .destroyCall t => s.Untouched t
  | .modCall t _ | .stopCall t => s.Shared t
  | .call _ | .workerFails _ | .drive | .driver _ | .tick _ => True

instance decidableExclusive (s : State) : (a : Action) → Decidable (Exclusive s a)
  | .initCall t | .destroyCall t =>
      inferInstanceAs (Decidable (∀ c ∈ s.calls, c.timer = t → c.unfinished = false))
  | .modCall t _ | .stopCall t =>
      inferInstanceAs (Decidable (∀ c ∈ s.calls, c.timer = t → c.sole = false))
  | .call _ | .workerFails _ | .drive | .driver _ | .tick _ => inferInstanceAs (Decidable True)

/-- No driver has the timer on its due list. -/
def State.Uncollected (s : State) (timer : Nat) : Prop :=
  ∀ d ∈ s.drivers, ∀ e ∈ d.due, e.timer ≠ timer

instance decidableUncollected (s : State) (timer : Nat) : Decidable (s.Uncollected timer) :=
  inferInstanceAs (Decidable (∀ d ∈ s.drivers, ∀ e ∈ d.due, e.timer ≠ timer))

/-! ## §2 Slots and handles -/

/-- A slot is free, allocated and not yet bound, or bound to its owner. -/
structure Slot.Ok (slot : Slot) : Prop where
  bound : slot.timer = 0 ∧ slot.active = false ∨ slot.owner = some slot.timer ∧ slot.timer ≠ 0
  periodic : slot.periodic = false
  used : slot.used = slot.owner.isSome
  owner_ne : slot.owner ≠ some 0

theorem Slot.Ok.owner_of_active {slot : Slot} (h : slot.Ok) (hactive : slot.active = true) :
    slot.owner = some slot.timer ∧ slot.timer ≠ 0 := by
  rcases h.bound with ⟨-, hinactive⟩ | hbound
  · rw [hactive] at hinactive
    cases hinactive
  · exact hbound

def State.handle (s : State) (timer : Nat) : Nat := (s.objects timer).timer

/-- Owner and timer of a slot. -/
def State.shape (s : State) (i : Nat) : Option (Option Nat × Nat) :=
  s.slots[i]?.map fun slot => (slot.owner, slot.timer)

def State.Unowned (s : State) (timer : Nat) : Prop := ∀ i t, s.shape i ≠ some (some timer, t)

/-- Slot `i` is allocated for the timer, and does not know it yet. -/
def State.Fresh (s : State) (timer i : Nat) : Prop := s.shape i = some (some timer, 0)

/-- Slot `i` is the timer's. -/
def State.Bound (s : State) (timer i : Nat) : Prop := s.shape i = some (some timer, timer)

/-- The timer has no slot, or a handle to its slot. -/
def State.Idle (s : State) (timer : Nat) : Prop :=
  s.handle timer = 0 ∧ s.Unowned timer ∨ ∃ i, s.handle timer = i + 1 ∧ s.Bound timer i

/-- Handle and slots of a timer are the same in both states. -/
def State.Agree (s t : State) (timer : Nat) : Prop :=
  t.handle timer = s.handle timer ∧
    ∀ i x, t.shape i = some (some timer, x) ↔ s.shape i = some (some timer, x)

/-- How far a call has got. -/
def State.CallOk (s : State) : Call → Prop
  | .allocating t => t ≠ 0 ∧ s.handle t = 0 ∧ s.Unowned t
  | .publishing t i => t ≠ 0 ∧ s.handle t = 0 ∧ s.Fresh t i
  | .binding t i => t ≠ 0 ∧ s.handle t = i + 1 ∧ s.Fresh t i
  | .arming t _ i | .storing t _ i _ | .stopping t i | .destroying t i =>
      s.handle t = i + 1 ∧ s.Bound t i
  | .forgetting t => s.Unowned t
  | .init _ | .mod _ _ | .stop _ | .destroy _ | .returned _ _ => True

/-- The timer is neither without a slot nor bound to it. -/
def Call.midway : Call → Bool
  | publishing _ _ | binding _ _ | forgetting _ => true
  | init _ | allocating _ | mod _ _ | arming _ _ _ | storing _ _ _ _ | stop _ | stopping _ _
  | destroy _ | destroying _ _ | returned _ _ => false

theorem Call.sole_of_midway {c : Call} (h : c.midway = true) : c.sole = true := by
  cases c <;> first | rfl | cases h

theorem Call.unfinished_of_sole {c : Call} (h : c.sole = true) : c.unfinished = true := by
  cases c <;> first | rfl | cases h

section Agree

variable {s t : State} {timer i : Nat}

theorem State.Agree.unowned (h : s.Agree t timer) (hu : s.Unowned timer) : t.Unowned timer :=
  fun i x hx => hu i x ((h.2 i x).mp hx)

theorem State.Agree.bound (h : s.Agree t timer) (hb : s.Bound timer i) : t.Bound timer i :=
  (h.2 i timer).mpr hb

theorem State.Agree.fresh (h : s.Agree t timer) (hf : s.Fresh timer i) : t.Fresh timer i :=
  (h.2 i 0).mpr hf

theorem State.Agree.idle (h : s.Agree t timer) (hidle : s.Idle timer) : t.Idle timer := by
  obtain ⟨hzero, hu⟩ | ⟨i, hi, hb⟩ := hidle
  · exact .inl ⟨h.1.trans hzero, h.unowned hu⟩
  · exact .inr ⟨i, h.1.trans hi, h.bound hb⟩

theorem State.Agree.callOk {c : Call} (h : s.Agree t c.timer) (hc : s.CallOk c) : t.CallOk c := by
  cases c with
  | allocating timer => exact ⟨hc.1, h.1.trans hc.2.1, h.unowned hc.2.2⟩
  | publishing timer i => exact ⟨hc.1, h.1.trans hc.2.1, h.fresh hc.2.2⟩
  | binding timer i => exact ⟨hc.1, h.1.trans hc.2.1, h.fresh hc.2.2⟩
  | arming | storing | stopping | destroying => exact ⟨h.1.trans hc.1, h.bound hc.2⟩
  | forgetting timer => exact h.unowned hc
  | init | mod | stop | destroy | returned => trivial

end Agree

/-! ## §3 The invariant -/

structure Base (s : State) : Prop where
  length : s.slots.length = maxTimers
  slots : ∀ slot ∈ s.slots, slot.Ok
  owners : (s.slots.filterMap Slot.owner).Nodup
  exclusive : ∀ (j k : Nat) (c c' : Call), s.calls[j]? = some c → s.calls[k]? = some c' → j ≠ k →
    c.timer = c'.timer → c.sole = true → c'.unfinished = false
  calls : ∀ c ∈ s.calls, s.CallOk c
  idle : ∀ t, (∀ c ∈ s.calls, c.timer = t → c.midway = false) → s.Idle t

section Base

variable {s t : State}

theorem base_init (objects : Nat → OsalTimer) (clock : UInt64) : Base (init objects clock) where
  length := List.length_replicate
  slots slot hslot := by
    rw [(List.mem_replicate.mp hslot).2]
    exact ⟨.inl ⟨rfl, rfl⟩, rfl, rfl, nofun⟩
  owners := by
    simp only [init]
    decide
  exclusive := nofun
  calls := nofun
  idle timer _ := by
    refine .inl ⟨rfl, fun i x hx => ?_⟩
    obtain ⟨slot, hslot, heq⟩ := Option.map_eq_some_iff.mp hx
    rw [(List.mem_replicate.mp (List.mem_of_getElem? hslot)).2] at heq
    cases heq

theorem shape_eq_some {i x : Nat} {o : Option Nat} (h : s.shape i = some (o, x)) :
    ∃ slot, s.slots[i]? = some slot ∧ slot.owner = o ∧ slot.timer = x := by
  obtain ⟨slot, hslot, heq⟩ := Option.map_eq_some_iff.mp h
  obtain ⟨ho, hx⟩ := Prod.mk.inj heq
  exact ⟨slot, hslot, ho, hx⟩

/-- A timer owns one slot. -/
theorem Base.owner_unique (h : Base s) {i j timer : Nat} {slot slot' : Slot}
    (hi : s.slots[i]? = some slot) (hj : s.slots[j]? = some slot')
    (ho : slot.owner = some timer) (ho' : slot'.owner = some timer) : i = j :=
  Ledger.index_unique Slot.owner h.owners hi hj ho ho'

/-- Slots and handles are as they were, and call number `k` is at `c`. -/
theorem Base.keep (h : Base s) {k : Nat} {c c' : Call} (hk : s.calls[k]? = some c)
    (hcalls : t.calls = s.calls.set k c') (htimer : c'.timer = c.timer) (hrun : c.unfinished = true)
    (hsole : c'.sole = true → c.sole = true) (hmid : c.midway = false)
    (hlength : t.slots.length = s.slots.length) (hslots : ∀ slot ∈ t.slots, slot.Ok)
    (howners : t.slots.filterMap Slot.owner = s.slots.filterMap Slot.owner)
    (hhandle : t.handle = s.handle) (hshape : t.shape = s.shape) (hok : s.CallOk c') : Base t := by
  have hagree : ∀ timer, s.Agree t timer := by
    intro timer
    refine ⟨by rw [hhandle], fun i x => ?_⟩
    rw [hshape]
  refine ⟨hlength.trans h.length, hslots, howners ▸ h.owners, ?_, fun x hx => ?_, fun timer hall => ?_⟩
  · intro i j x y hi hj hij hxy hx
    rw [hcalls] at hi hj
    rcases Ledger.getElem?_set_cases hi with ⟨rfl, rfl⟩ | ⟨-, hi'⟩
    · rcases Ledger.getElem?_set_cases hj with ⟨rfl, rfl⟩ | ⟨-, hj⟩
      · exact absurd rfl hij
      · exact h.exclusive i j c y hk hj hij (htimer.symm.trans hxy) (hsole hx)
    · rcases Ledger.getElem?_set_cases hj with ⟨rfl, rfl⟩ | ⟨-, hj⟩
      · have := h.exclusive i j x c hi' hk hij (hxy.trans htimer) hx
        rw [hrun] at this
        cases this
      · exact h.exclusive i j x y hi' hj hij hxy hx
  · rw [hcalls] at hx
    rcases Ledger.mem_set_cases hx with rfl | hx
    · exact (hagree _).callOk hok
    · exact (hagree _).callOk (h.calls x hx)
  · refine (hagree timer).idle (h.idle timer fun x hx hxt => ?_)
    by_cases hxc : x = c
    · rw [hxc]
      exact hmid
    · refine hall x ?_ hxt
      rw [hcalls]
      exact Ledger.mem_set_of_ne hk hx hxc

/-- A step of an init or destroy call: the other timers are as they were. -/
theorem Base.alone (h : Base s) {k : Nat} {c c' : Call} (hk : s.calls[k]? = some c)
    (hcalls : t.calls = s.calls.set k c') (htimer : c'.timer = c.timer) (hsole : c.sole = true)
    (hlength : t.slots.length = s.slots.length) (hslots : ∀ slot ∈ t.slots, slot.Ok)
    (howners : (t.slots.filterMap Slot.owner).Nodup)
    (hagree : ∀ timer, timer ≠ c.timer → s.Agree t timer) (hok : t.CallOk c')
    (hidle : c'.midway = false → t.Idle c.timer) : Base t := by
  have hlt : k < s.calls.length := (List.getElem?_eq_some_iff.mp hk).1
  have hmem : c' ∈ t.calls := by
    rw [hcalls]
    exact List.mem_of_getElem? (List.getElem?_set_self hlt)
  refine ⟨hlength.trans h.length, hslots, howners, ?_, fun x hx => ?_, fun timer hall => ?_⟩
  · intro i j x y hi hj hij hxy hx
    rw [hcalls] at hi hj
    rcases Ledger.getElem?_set_cases hi with ⟨rfl, rfl⟩ | ⟨-, hi'⟩
    · rcases Ledger.getElem?_set_cases hj with ⟨rfl, rfl⟩ | ⟨-, hj⟩
      · exact absurd rfl hij
      · exact h.exclusive i j c y hk hj hij (htimer.symm.trans hxy) hsole
    · rcases Ledger.getElem?_set_cases hj with ⟨rfl, rfl⟩ | ⟨-, hj⟩
      · have := h.exclusive i j x c hi' hk hij (hxy.trans htimer) hx
        rw [Call.unfinished_of_sole hsole] at this
        cases this
      · exact h.exclusive i j x y hi' hj hij hxy hx
  · rw [hcalls] at hx
    obtain ⟨j, hj⟩ := List.mem_iff_getElem?.mp hx
    rcases Ledger.getElem?_set_cases hj with ⟨rfl, rfl⟩ | ⟨hjk, hj⟩
    · exact hok
    · by_cases hxt : x.timer = c.timer
      · -- the only call on this timer that has not returned is number `k`
        have hdone := h.exclusive k j c x hk hj (Ne.symm hjk) hxt.symm hsole
        cases x with
        | returned => trivial
        | init | allocating | publishing | binding | mod | arming | storing | stop | stopping
        | destroy | destroying | forgetting => cases hdone
      · exact (hagree _ hxt).callOk (h.calls x (List.mem_of_getElem? hj))
  · by_cases htc : timer = c.timer
    · subst htc
      exact hidle (hall c' hmem htimer)
    · refine (hagree timer htc).idle (h.idle timer fun x hx hxt => ?_)
      have hxc : x ≠ c := by
        rintro rfl
        exact htc hxt.symm
      refine hall x ?_ hxt
      rw [hcalls]
      exact Ledger.mem_set_of_ne hk hx hxc

/-- Only the slots change, and these neither in owner nor in timer. -/
theorem Base.frame (h : Base s) (hcalls : t.calls = s.calls)
    (hlength : t.slots.length = s.slots.length) (hslots : ∀ slot ∈ t.slots, slot.Ok)
    (howners : t.slots.filterMap Slot.owner = s.slots.filterMap Slot.owner)
    (hhandle : t.handle = s.handle) (hshape : t.shape = s.shape) : Base t := by
  have hagree : ∀ timer, s.Agree t timer := by
    intro timer
    refine ⟨by rw [hhandle], fun i x => ?_⟩
    rw [hshape]
  refine ⟨hlength.trans h.length, hslots, howners ▸ h.owners, ?_, fun x hx => ?_, fun timer hall => ?_⟩
  · rw [hcalls]
    exact h.exclusive
  · exact (hagree _).callOk (h.calls x (hcalls ▸ hx))
  · exact (hagree timer).idle (h.idle timer fun x hx => hall x (hcalls ▸ hx))

/-! ## §4 Steps -/

/-- A call that is not halfway through sees its timer idle. -/
theorem Base.idle_of_call (h : Base s) {k : Nat} {c : Call} (hk : s.calls[k]? = some c)
    (hrun : c.unfinished = true) (hmid : c.midway = false) : s.Idle c.timer := by
  refine h.idle c.timer fun x hx hxt => ?_
  obtain ⟨j, hj⟩ := List.mem_iff_getElem?.mp hx
  by_cases hjk : j = k
  · subst hjk
    rw [hk] at hj
    cases hj
    exact hmid
  · refine Bool.eq_false_iff.mpr fun hxmid => ?_
    have hdone := h.exclusive j k x c hj hk hjk hxt (Call.sole_of_midway hxmid)
    rw [hrun] at hdone
    cases hdone

theorem handle_of_slotOf {timer i : Nat} (h : s.slotOf timer = some i) :
    timer ≠ 0 ∧ s.handle timer = i + 1 := by
  unfold State.slotOf at h
  obtain ⟨hnot, h⟩ := Option.ite_none_left_eq_some.mp h
  have hi : (s.objects timer).timer - 1 = i := Option.some.inj h
  simp only [not_or] at hnot
  refine ⟨hnot.1, ?_⟩
  unfold State.handle
  omega

theorem bound_of_slotOf {timer i : Nat} (hslot : s.slotOf timer = some i)
    (hidle : s.Idle timer) : s.handle timer = i + 1 ∧ s.Bound timer i := by
  have hhandle := (handle_of_slotOf hslot).2
  obtain ⟨hzero, -⟩ | ⟨j, hj, hb⟩ := hidle
  · rw [hzero] at hhandle
    cases hhandle
  · rw [hj] at hhandle
    obtain rfl : j = i := by omega
    exact ⟨hj, hb⟩

/-- A timer whose handle is refused is null or has no slot. -/
theorem Base.unowned_of_slotOf (h : Base s) {timer : Nat} (hslot : s.slotOf timer = none)
    (hidle : s.Idle timer) : timer = 0 ∨ s.Unowned timer := by
  by_cases htimer : timer = 0
  · exact .inl htimer
  obtain ⟨-, hu⟩ | ⟨i, hi, hb⟩ := hidle
  · exact .inr hu
  · obtain ⟨slot, hget, -, -⟩ := shape_eq_some hb
    have hlt := (List.getElem?_eq_some_iff.mp hget).1
    rw [h.length] at hlt
    unfold State.handle at hi
    have hcond : ¬(timer = 0 ∨ (s.objects timer).timer = 0 ∨ maxTimers < (s.objects timer).timer) := by
      omega
    unfold State.slotOf at hslot
    rw [if_neg hcond] at hslot
    cases hslot

/-- A call moves on, and slots and handles do not change. -/
theorem Base.goto (h : Base s) {k : Nat} {c c' : Call} (hk : s.calls[k]? = some c)
    (hcalls : t.calls = s.calls.set k c') (htimer : c'.timer = c.timer) (hrun : c.unfinished = true)
    (hsole : c'.sole = true → c.sole = true) (hmid : c.midway = false) (hslots : t.slots = s.slots)
    (hhandle : t.handle = s.handle) (hok : s.CallOk c') : Base t := by
  refine h.keep hk hcalls htimer hrun hsole hmid ?_ ?_ ?_ hhandle ?_ hok
  · rw [hslots]
  · rw [hslots]
    exact h.slots
  · rw [hslots]
  · funext i
    unfold State.shape
    rw [hslots]

theorem shape_set {i : Nat} {slot slot' : Slot} (hget : s.slots[i]? = some slot)
    (hslots : t.slots = s.slots.set i slot') (j : Nat) :
    t.shape j = if j = i then some (slot'.owner, slot'.timer) else s.shape j := by
  have hlt : i < s.slots.length := (List.getElem?_eq_some_iff.mp hget).1
  unfold State.shape
  rw [hslots]
  by_cases hji : j = i
  · subst hji
    rw [List.getElem?_set_self hlt, if_pos rfl]
    rfl
  · rw [List.getElem?_set_ne (Ne.symm hji), if_neg hji]

theorem modifySlot_slots {i : Nat} {slot : Slot} (hget : s.slots[i]? = some slot)
    (f : Slot → Slot) : (s.modifySlot i f).slots = s.slots.set i (f slot) := by
  unfold State.modifySlot
  dsimp only
  rw [List.modify_eq_set_getElem?, hget]
  rfl

/-- A call moves on, and a slot changes, but neither in owner nor in timer. -/
theorem Base.touch (h : Base s) {k i : Nat} {c c' : Call} {slot slot' : Slot}
    (hk : s.calls[k]? = some c) (hcalls : t.calls = s.calls.set k c') (htimer : c'.timer = c.timer)
    (hrun : c.unfinished = true) (hsole : c'.sole = true → c.sole = true) (hmid : c.midway = false)
    (hget : s.slots[i]? = some slot)
    (hslots : t.slots = s.slots.set i slot') (howner : slot'.owner = slot.owner)
    (hslot : slot'.timer = slot.timer) (hok' : slot'.Ok) (hhandle : t.handle = s.handle)
    (hok : s.CallOk c') : Base t := by
  refine h.keep hk hcalls htimer hrun hsole hmid ?_ ?_ ?_ hhandle ?_ hok
  · rw [hslots, List.length_set]
  · intro x hx
    rw [hslots] at hx
    rcases Ledger.mem_set_cases hx with rfl | hx
    · exact hok'
    · exact h.slots x hx
  · rw [hslots]
    exact Ledger.filterMap_set_eq _ hget howner
  · funext j
    rw [shape_set hget hslots]
    split
    · rename_i hji
      subst hji
      unfold State.shape
      rw [hget, howner, hslot]
      rfl
    · rfl

/-- The slots of other timers do not change with the slot of this one. -/
theorem agree_set {i timer : Nat} {slot slot' : Slot} (hget : s.slots[i]? = some slot)
    (hslots : t.slots = s.slots.set i slot') (hhandle : t.handle timer = s.handle timer)
    (howner : slot.owner ≠ some timer) (howner' : slot'.owner ≠ some timer) : s.Agree t timer := by
  refine ⟨hhandle, fun j x => ?_⟩
  rw [shape_set hget hslots]
  by_cases hji : j = i
  · subst hji
    rw [if_pos rfl]
    unfold State.shape
    rw [hget]
    constructor
    · intro heq
      exact absurd (Prod.mk.inj (Option.some.inj heq)).1 howner'
    · intro heq
      exact absurd (Prod.mk.inj (Option.some.inj heq)).1 howner
  · rw [if_neg hji]

theorem handle_modifyObject_self (s : State) (timer : Nat) (f : OsalTimer → OsalTimer) :
    (s.modifyObject timer f).handle timer = (f (s.objects timer)).timer := by
  unfold State.handle State.modifyObject
  dsimp only
  rw [Function.update_self]

theorem handle_modifyObject_ne (s : State) (timer : Nat) (f : OsalTimer → OsalTimer) {timer' : Nat}
    (h : timer' ≠ timer) : (s.modifyObject timer f).handle timer' = s.handle timer' := by
  unfold State.handle State.modifyObject
  dsimp only
  rw [Function.update_of_ne h]

/-- The slot `alloc_slot` finds is nobody's. -/
theorem Base.free_slot (h : Base s) {i : Nat}
    (hi : (s.slots.findIdx? fun slot => !slot.used) = some i) :
    ∃ slot, s.slots[i]? = some slot ∧ slot.owner = none := by
  obtain ⟨slot, hget, hunused⟩ := Ledger.getElem?_of_findIdx? hi
  refine ⟨slot, hget, ?_⟩
  have hused := (h.slots slot (List.mem_of_getElem? hget)).used
  rw [Bool.not_eq_true' _ |>.mp hunused] at hused
  exact Option.isNone_iff_eq_none.mp (Option.isSome_eq_false_iff.mp hused.symm)

theorem State.Unowned.not_mem {timer : Nat} (h : s.Unowned timer) :
    timer ∉ s.slots.filterMap Slot.owner := by
  intro hmem
  obtain ⟨slot, hslot, howner⟩ := List.mem_filterMap.mp hmem
  obtain ⟨i, hi⟩ := List.mem_iff_getElem?.mp hslot
  refine h i slot.timer ?_
  rw [State.shape, hi, Option.map_some, howner]

/-- `alloc_slot`. -/
theorem Base.allocate (h : Base s) {k i timer : Nat} (hk : s.calls[k]? = some (.allocating timer))
    (hi : (s.slots.findIdx? fun slot => !slot.used) = some i) :
    Base ((s.modifySlot i fun _ => { Slot.empty with used := true, owner := some timer }).goto k
      (.publishing timer i)) := by
  obtain ⟨hne, hzero, hu⟩ := h.calls _ (List.mem_of_getElem? hk)
  obtain ⟨slot, hget, hfree⟩ := h.free_slot hi
  have hslots := modifySlot_slots hget fun _ => { Slot.empty with used := true, owner := some timer }
  refine h.alone hk rfl rfl rfl ?_ ?_ ?_ ?_ ?_ nofun
  · exact (congrArg List.length hslots).trans (List.length_set ..)
  · intro slot' hslot'
    rcases Ledger.mem_set_cases (hslots ▸ hslot') with rfl | hslot'
    · exact ⟨.inl ⟨rfl, rfl⟩, rfl, rfl, fun heq => hne (Option.some.inj heq)⟩
    · exact h.slots slot' hslot'
  · have hperm := Ledger.filterMap_set_insert Slot.owner
      (y := { Slot.empty with used := true, owner := some timer }) hget hfree rfl
    exact (congrArg (List.filterMap Slot.owner) hslots) ▸ hperm.nodup_iff.mpr
      (List.nodup_cons.mpr ⟨hu.not_mem, h.owners⟩)
  · intro timer' hne'
    refine agree_set hget hslots rfl ?_ ?_
    · rw [hfree]
      nofun
    · intro heq
      exact hne' (Option.some.inj heq).symm
  · refine ⟨hne, hzero, ?_⟩
    exact (shape_set hget hslots i).trans (if_pos rfl)

/-- The handle is stored. -/
theorem Base.publish (h : Base s) {k i timer : Nat} (hk : s.calls[k]? = some (.publishing timer i)) :
    Base ((s.modifyObject timer fun object => { object with timer := i + 1 }).goto k
      (.binding timer i)) := by
  obtain ⟨hne, -, hfresh⟩ := h.calls _ (List.mem_of_getElem? hk)
  have hself := handle_modifyObject_self s timer fun object => { object with timer := i + 1 }
  refine h.alone hk rfl rfl rfl rfl h.slots h.owners ?_ ?_ nofun
  · intro timer' hne'
    exact ⟨handle_modifyObject_ne s timer (fun object => { object with timer := i + 1 }) hne',
      fun _ _ => Iff.rfl⟩
  · exact ⟨hne, hself, hfresh⟩

/-- The slot learns its timer. -/
theorem Base.bind (h : Base s) {k i timer : Nat} (hk : s.calls[k]? = some (.binding timer i)) :
    Base ((s.modifySlot i fun slot =>
      { slot with timer, interval := (s.objects timer).interval.toUInt64 }).goto k
      (.returned timer osalOk)) := by
  obtain ⟨hne, hhandle, hfresh⟩ := h.calls _ (List.mem_of_getElem? hk)
  obtain ⟨slot, hget, howner, htimer⟩ := shape_eq_some hfresh
  have hok := h.slots slot (List.mem_of_getElem? hget)
  have hslots := modifySlot_slots hget fun slot =>
    { slot with timer, interval := (s.objects timer).interval.toUInt64 }
  have hkeep := Ledger.filterMap_set_eq Slot.owner (y :=
    { slot with timer, interval := (s.objects timer).interval.toUInt64 }) hget rfl
  refine h.alone hk rfl rfl rfl ?_ ?_ ?_ ?_ trivial fun _ => .inr ⟨i, hhandle, ?_⟩
  · exact (congrArg List.length hslots).trans (List.length_set ..)
  · intro slot' hslot'
    rcases Ledger.mem_set_cases (hslots ▸ hslot') with rfl | hslot'
    · exact ⟨.inr ⟨howner, hne⟩, hok.periodic, hok.used, hok.owner_ne⟩
    · exact h.slots slot' hslot'
  · refine (congrArg (List.filterMap Slot.owner) hslots) ▸ ?_
    rw [hkeep]
    exact h.owners
  · intro timer' hne'
    have hnot : some timer ≠ some timer' := fun heq => hne' (Option.some.inj heq).symm
    exact agree_set hget hslots rfl (by rw [howner]; exact hnot) (by rw [howner]; exact hnot)
  · refine (shape_set hget hslots i).trans ((if_pos rfl).trans ?_)
    rw [howner]
    rfl

/-- The slot is freed. -/
theorem Base.release (h : Base s) {k i timer : Nat} (hk : s.calls[k]? = some (.destroying timer i)) :
    Base ((s.modifySlot i fun _ => .empty).goto k (.forgetting timer)) := by
  obtain ⟨-, hbound⟩ := h.calls _ (List.mem_of_getElem? hk)
  obtain ⟨slot, hget, howner, -⟩ := shape_eq_some hbound
  have hslots := modifySlot_slots hget fun _ => Slot.empty
  have hperm := Ledger.filterMap_set_erase Slot.owner (y := .empty) hget howner rfl
  refine h.alone hk rfl rfl rfl ?_ ?_ ?_ ?_ ?_ nofun
  · exact (congrArg List.length hslots).trans (List.length_set ..)
  · intro slot' hslot'
    rcases Ledger.mem_set_cases (hslots ▸ hslot') with rfl | hslot'
    · exact ⟨.inl ⟨rfl, rfl⟩, rfl, rfl, nofun⟩
    · exact h.slots slot' hslot'
  · refine (congrArg (List.filterMap Slot.owner) hslots) ▸ ?_
    exact (List.nodup_cons.mp (hperm.nodup_iff.mp h.owners)).2
  · intro timer' hne'
    refine agree_set hget hslots rfl ?_ nofun
    rw [howner]
    exact fun heq => hne' (Option.some.inj heq).symm
  · intro j x hj
    have hj := (shape_set hget hslots j).symm.trans hj
    split at hj
    · cases hj
    · rename_i hji
      obtain ⟨slot', hget', howner', -⟩ := shape_eq_some hj
      exact hji (h.owner_unique hget' hget howner' howner)

/-- The handle is cleared. -/
theorem Base.forget (h : Base s) {k timer : Nat} (hk : s.calls[k]? = some (.forgetting timer)) :
    Base (((s.modifyObject timer fun object => { object with timer := 0 }).cancel timer).goto k
      (.returned timer osalOk)) := by
  have hu := h.calls _ (List.mem_of_getElem? hk)
  have hself := handle_modifyObject_self s timer fun object => { object with timer := 0 }
  refine h.alone hk rfl rfl rfl rfl h.slots h.owners ?_ trivial fun _ => .inl ⟨?_, hu⟩
  · intro timer' hne'
    exact ⟨handle_modifyObject_ne s timer (fun object => { object with timer := 0 }) hne',
      fun _ _ => Iff.rfl⟩
  · exact hself

/-- The slot of a timer that is bound, and what it knows. -/
theorem Base.slot_of_bound (h : Base s) {timer i : Nat} (hb : s.Bound timer i) :
    ∃ slot, s.slots[i]? = some slot ∧ slot.Ok ∧ slot.owner = some slot.timer ∧ slot.timer = timer ∧
      timer ≠ 0 := by
  obtain ⟨slot, hget, howner, htimer⟩ := shape_eq_some hb
  have hok := h.slots slot (List.mem_of_getElem? hget)
  refine ⟨slot, hget, hok, by rw [howner, htimer], htimer, ?_⟩
  rintro rfl
  exact hok.owner_ne howner

theorem Base.slot_of_fresh (h : Base s) {timer i : Nat} (hf : s.Fresh timer i) :
    ∃ slot, s.slots[i]? = some slot ∧ slot.active = false := by
  obtain ⟨slot, hget, -, htimer⟩ := shape_eq_some hf
  refine ⟨slot, hget, Bool.eq_false_iff.mpr fun hactive => ?_⟩
  exact ((h.slots slot (List.mem_of_getElem? hget)).owner_of_active hactive).2 htimer

theorem Slot.Ok.arm {slot : Slot} (h : slot.Ok) (howner : slot.owner = some slot.timer)
    (hne : slot.timer ≠ 0) (interval deadline : UInt64) (n : Nat) :
    Slot.Ok { slot with interval, deadline, active := true, periodic := false, arm := n } :=
  ⟨.inr ⟨howner, hne⟩, rfl, h.used, h.owner_ne⟩

theorem Slot.Ok.deactivate {slot : Slot} (h : slot.Ok) : Slot.Ok { slot with active := false } := by
  refine ⟨?_, h.periodic, h.used, h.owner_ne⟩
  rcases h.bound with ⟨hzero, -⟩ | hbound
  · exact .inl ⟨hzero, rfl⟩
  · exact .inr hbound

theorem base_stepCall (h : Base s) {k : Nat} {c : Call} (hk : s.calls[k]? = some c)
    (hs : s.stepCall k c = some t) : Base t := by
  have hok := h.calls c (List.mem_of_getElem? hk)
  cases c with
  | init timer =>
    have hidle := h.idle_of_call hk rfl rfl
    simp only [State.stepCall] at hs
    split at hs
    · cases hs
      exact h.goto hk rfl rfl rfl nofun rfl rfl rfl trivial
    · rename_i hnot
      cases hs
      simp only [not_or, Decidable.not_not] at hnot
      refine h.goto hk rfl rfl rfl (fun _ => rfl) rfl rfl rfl ⟨hnot.1, hnot.2.2.1, ?_⟩
      obtain ⟨-, hu⟩ | ⟨i, hi, -⟩ := hidle
      · exact hu
      · have hzero : s.handle timer = 0 := hnot.2.2.1
        exact absurd (hi.symm.trans hzero) nofun
  | allocating timer =>
    simp only [State.stepCall] at hs
    split at hs
    · cases hs
      exact h.goto hk rfl rfl rfl nofun rfl rfl rfl trivial
    · rename_i i hi
      cases hs
      exact h.allocate hk hi
  | publishing timer i =>
    cases hs
    exact h.publish hk
  | binding timer i =>
    cases hs
    exact h.bind hk
  | mod timer interval =>
    have hidle := h.idle_of_call hk rfl rfl
    simp only [State.stepCall] at hs
    split at hs
    · cases hs
      exact h.goto hk rfl rfl rfl nofun rfl rfl rfl trivial
    · split at hs
      · cases hs
        exact h.goto hk rfl rfl rfl nofun rfl rfl rfl trivial
      · rename_i i hslot
        cases hs
        exact h.goto hk rfl rfl rfl nofun rfl rfl rfl (bound_of_slotOf hslot hidle)
  | arming timer interval i =>
    cases hs
    refine h.goto hk rfl rfl rfl nofun rfl rfl ?_ hok
    funext timer'
    by_cases htimer : timer' = timer
    · subst htimer
      exact handle_modifyObject_self s timer' fun object => { object with interval }
    · exact handle_modifyObject_ne s timer (fun object => { object with interval }) htimer
  | storing timer interval i now =>
    obtain ⟨slot, hget, hslot, howner, htimer, hne⟩ := h.slot_of_bound hok.2
    simp only [State.stepCall, hget] at hs
    split at hs
    · cases hs
      exact h.touch hk rfl rfl rfl nofun rfl hget (modifySlot_slots hget _) rfl rfl
        (hslot.arm howner (htimer ▸ hne) _ _ _) rfl trivial
    · cases hs
      exact h.goto hk rfl rfl rfl nofun rfl rfl rfl trivial
  | stop timer =>
    have hidle := h.idle_of_call hk rfl rfl
    simp only [State.stepCall] at hs
    split at hs
    · cases hs
      exact h.goto hk rfl rfl rfl nofun rfl rfl rfl trivial
    · rename_i i hslot
      cases hs
      exact h.goto hk rfl rfl rfl nofun rfl rfl rfl (bound_of_slotOf hslot hidle)
  | stopping timer i =>
    obtain ⟨slot, hget, hslot, -⟩ := h.slot_of_bound hok.2
    simp only [State.stepCall, hget] at hs
    cases hs
    exact h.touch hk rfl rfl rfl nofun rfl hget (modifySlot_slots hget _) rfl rfl hslot.deactivate
      rfl trivial
  | destroy timer =>
    have hidle := h.idle_of_call hk rfl rfl
    simp only [State.stepCall] at hs
    split at hs
    · cases hs
      exact h.goto hk rfl rfl rfl nofun rfl rfl rfl trivial
    · rename_i i hslot
      cases hs
      exact h.goto hk rfl rfl rfl (fun _ => rfl) rfl rfl rfl (bound_of_slotOf hslot hidle)
  | destroying timer i =>
    cases hs
    exact h.release hk
  | forgetting timer =>
    cases hs
    exact h.forget hk
  | returned timer result => cases hs

/-- A new call. -/
theorem Base.push (h : Base s) {c : Call} (hcalls : t.calls = s.calls ++ [c])
    (hslots : t.slots = s.slots) (hhandle : t.handle = s.handle) (hok : s.CallOk c)
    (hmid : c.midway = false)
    (hsole : c.sole = true → ∀ x ∈ s.calls, x.timer = c.timer → x.unfinished = false)
    (hshared : ∀ x ∈ s.calls, x.timer = c.timer → x.sole = false) : Base t := by
  have hshape : t.shape = s.shape := by
    funext i
    unfold State.shape
    rw [hslots]
  have hagree : ∀ timer, s.Agree t timer := by
    intro timer
    refine ⟨by rw [hhandle], fun i x => ?_⟩
    rw [hshape]
  refine ⟨by rw [hslots]; exact h.length, by rw [hslots]; exact h.slots, by rw [hslots]; exact h.owners,
    ?_, fun x hx => ?_, fun timer hall => ?_⟩
  · intro i j x y hi hj hij hxy hx
    rw [hcalls] at hi hj
    rcases Ledger.getElem?_append_cases hi with hi' | ⟨rfl, rfl⟩
    · rcases Ledger.getElem?_append_cases hj with hj' | ⟨rfl, rfl⟩
      · exact h.exclusive i j x y hi' hj' hij hxy hx
      · have := hshared x (List.mem_of_getElem? hi') hxy
        rw [hx] at this
        cases this
    · rcases Ledger.getElem?_append_cases hj with hj' | ⟨rfl, -⟩
      · exact hsole hx y (List.mem_of_getElem? hj') hxy.symm
      · exact absurd rfl hij
  · rw [hcalls] at hx
    rcases List.mem_append.mp hx with hx | hx
    · exact (hagree _).callOk (h.calls x hx)
    · rw [List.mem_singleton.mp hx]
      exact (hagree _).callOk hok
  · refine (hagree timer).idle (h.idle timer fun x hx => hall x ?_)
    rw [hcalls]
    exact List.mem_append_left _ hx

theorem Slot.Ok.expire {slot : Slot} (h : slot.Ok) (now : UInt64) : (slot.expire now).Ok := by
  unfold Slot.expire
  split
  · split
    · rename_i hperiodic
      rw [h.periodic] at hperiodic
      cases hperiodic
    · exact h.deactivate
  · exact h

theorem Slot.expire_owner (now : UInt64) (slot : Slot) : (slot.expire now).owner = slot.owner := by
  unfold Slot.expire
  split
  · split <;> rfl
  · rfl

theorem Slot.expire_timer (now : UInt64) (slot : Slot) : (slot.expire now).timer = slot.timer := by
  unfold Slot.expire
  split
  · split <;> rfl
  · rfl

theorem Slot.active_of_expire {now : UInt64} {slot : Slot} (h : (slot.expire now).active = true) :
    slot.active = true := by
  unfold Slot.expire at h
  split at h
  · split at h
    · exact h
    · cases h
  · exact h

/-- What is collected was active. -/
theorem Slot.due?_eq_some {now : UInt64} {slot : Slot} {e : Due} (h : slot.due? now = some e) :
    slot.active = true ∧ slot.deadline ≤ now ∧ e = ⟨slot.timer, slot.arm⟩ := by
  obtain ⟨hexpired, he⟩ := Option.ite_none_right_eq_some.mp h
  obtain ⟨hboth, hdeadline⟩ := (Bool.and_eq_true ..).mp hexpired
  exact ⟨((Bool.and_eq_true ..).mp hboth).2, of_decide_eq_true hdeadline, (Option.some.inj he).symm⟩

theorem base_stepDriver (h : Base s) {k : Nat} {d : Driver} (hs : s.stepDriver k d = some t) :
    Base t := by
  cases d with
  | entered =>
    cases hs
    exact h.frame rfl rfl h.slots rfl rfl rfl
  | collecting now =>
    cases hs
    refine h.frame rfl ?_ ?_ ?_ rfl ?_
    · exact List.length_map _
    · intro slot hslot
      obtain ⟨slot', hslot', rfl⟩ := List.mem_map.mp hslot
      exact (h.slots slot' hslot').expire now
    · refine (List.filterMap_map ..).trans ?_
      exact congrArg (List.filterMap · s.slots) (funext (Slot.expire_owner now))
    · funext i
      change ((s.slots.map (Slot.expire now))[i]?.map fun slot => (slot.owner, slot.timer)) = _
      rw [List.getElem?_map, Option.map_map]
      refine congrArg (Option.map · s.slots[i]?) (funext fun slot => ?_)
      rw [Function.comp_apply, Slot.expire_owner, Slot.expire_timer]
  | firing due =>
    cases due with
    | nil =>
      cases hs
      exact h.frame rfl rfl h.slots rfl rfl rfl
    | cons e rest =>
      simp only [State.stepDriver] at hs
      split at hs
      · cases hs
        exact h.frame rfl rfl h.slots rfl rfl rfl
      · cases hs
        exact h.frame rfl rfl h.slots rfl rfl rfl
  | calling | running =>
    cases hs
    exact h.frame rfl rfl h.slots rfl rfl rfl
  | returned => cases hs

/-- **Slots and handles stay consistent**, as long as no init or destroy call
overlaps another call on the same timer. -/
theorem base_step (h : Base s) {act : Action} (hex : Exclusive s act) (hs : step s act = some t) :
    Base t := by
  cases act with
  | initCall timer | destroyCall timer =>
    cases hs
    refine h.push rfl rfl rfl trivial rfl (fun _ => hex) fun x hx hxt => ?_
    refine Bool.eq_false_iff.mpr fun hsole => ?_
    have hdone := hex x hx hxt
    rw [Call.unfinished_of_sole hsole] at hdone
    cases hdone
  | modCall timer interval | stopCall timer =>
    cases hs
    exact h.push rfl rfl rfl trivial rfl nofun hex
  | call k =>
    obtain ⟨c, hk, hs⟩ := Option.bind_eq_some_iff.mp hs
    exact base_stepCall h hk hs
  | workerFails k =>
    obtain ⟨c, hk, hs⟩ := Option.bind_eq_some_iff.mp hs
    cases c with
    | allocating timer =>
      cases hs
      exact h.goto hk rfl rfl rfl nofun rfl rfl rfl trivial
    | init | publishing | binding | mod | arming | storing | stop | stopping | destroy | destroying
    | forgetting | returned => cases hs
  | drive =>
    cases hs
    exact h.frame rfl rfl h.slots rfl rfl rfl
  | driver k =>
    obtain ⟨d, -, hs⟩ := Option.bind_eq_some_iff.mp hs
    exact base_stepDriver h hs
  | tick clock =>
    obtain ⟨-, hs⟩ := Option.ite_none_right_eq_some.mp hs
    cases hs
    exact h.frame rfl rfl h.slots rfl rfl rfl

end Base

end HisiRiscv.Osal.Timer
