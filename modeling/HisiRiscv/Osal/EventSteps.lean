/-
HisiRiscv.Osal.EventSteps — the steps of a call of `osal_event_read`.

`ReaderStep` lists everything that a step of a read call can do, so that what is said of all steps is
proved by going through this list once.

  §1 The list.
  §2 It is complete.
-/
import HisiRiscv.Osal.EventGroup

namespace HisiRiscv.Osal.EventGroup

open HisiRiscv.Machine

/-! ## §1 The list -/

/-- The read call that takes the step. -/
def Action.reader? : Action → Option Nat
  | .reader k | .pin k _ _ _ | .giveUp k => some k
  | .read _ _ _ _ | .write _ | .clear _ | .writer _ | .upFails _ => none

/-- Where a call goes from `destroy`. -/
def ReadPc.afterDestroy : Option Int32 → ReadPc
  | none => .polling
  | some value => .returned value

/-- The deadline has passed. -/
def Reader.expired (r : Reader) (now : UInt64) : Prop := !r.forever ∧ r.deadline ≤ now

instance (r : Reader) (now : UInt64) : Decidable (r.expired now) :=
  inferInstanceAs (Decidable (!r.forever ∧ r.deadline ≤ now))

/-- All that read call number `k`, which is `r`, can do in state `s`. -/
inductive ReaderStep (s : State) (k : Nat) (r : Reader) : Action → State → Prop
  | takes {m : UInt32} {group : Group} (hpc : r.pc = .polling)
      (hpoll : s.group.pollEvent r.mask r.mode = some (m, group)) :
      ReaderStep s k r (.reader k) ({ s with group }.goto k r (.returned m.toInt32))
  | misses (hpc : r.pc = .polling) (hpoll : s.group.pollEvent r.mask r.mode = none) :
      ReaderStep s k r (.reader k) (s.goto k r .unmatched)
  | takesPinned {p : Nat} {m : UInt32} {group : Group} (hpc : r.pc = .pinned p)
      (hpoll : s.group.pollEvent r.mask r.mode = some (m, group)) :
      ReaderStep s k r (.reader k) ({ s with group }.goto k r (.leaving p (some m.toInt32)))
  | tableFull {p : Nat} (hpc : r.pc = .pinned p) (hpoll : s.group.pollEvent r.mask r.mode = none)
      (hfull : s.group.register ⟨p, r.mask, r.mode⟩ = none) :
      ReaderStep s k r (.reader k) (s.goto k r (.leaving p (some osalNok)))
  | registers {p : Nat} {group : Group} (hpc : r.pc = .pinned p)
      (hpoll : s.group.pollEvent r.mask r.mode = none)
      (hregister : s.group.register ⟨p, r.mask, r.mode⟩ = some group) :
      ReaderStep s k r (.reader k) ({ s with group }.goto k r (.waiting p))
  | acquires {p : Nat} {sem : Semaphore} (hpc : r.pc = .waiting p) (hsem : s.semaphores p = some sem)
      (hpermit : 0 < sem.permits) :
      ReaderStep s k r (.reader k)
        ({ s with
          semaphores := Function.update s.semaphores p (some { sem with permits := sem.permits - 1 }) }.goto
          k r (.woken p true))
  | unregisters {p : Nat} {acquired : Bool} (hpc : r.pc = .woken p acquired) :
      ReaderStep s k r (.reader k)
        ({ s with group := s.group.unregister p }.goto k r
          (.leaving p (if acquired then none else some osalNok)))
  | destroys {p : Nat} {result : Option Int32} (hpc : r.pc = .leaving p result) :
      ReaderStep s k r (.reader k)
        ({ s with semaphores := Function.update s.semaphores p none }.goto k r (.afterDestroy result))
  | expires {now : UInt64} {p : Nat} {ok : Bool} (hpc : r.pc = .unmatched) (hlate : r.expired now) :
      ReaderStep s k r (.pin k now p ok) (s.goto k r (.returned 0))
  | pins {now : UInt64} {p : Nat} (hpc : r.pc = .unmatched) (hearly : ¬ r.expired now)
      (hfree : ¬(p = 0 ∨ (s.semaphores p).isSome)) :
      ReaderStep s k r (.pin k now p true)
        ({ s with
          semaphores := Function.update s.semaphores p (some ⟨0, s.serial, k⟩)
          serial := s.serial + 1 }.goto k r (.pinned p))
  | pinFails {now : UInt64} {p : Nat} (hpc : r.pc = .unmatched) (hearly : ¬ r.expired now)
      (hfree : ¬(p = 0 ∨ (s.semaphores p).isSome)) :
      ReaderStep s k r (.pin k now p false) (s.goto k r (.returned osalNok))
  | givesUp {p : Nat} (hpc : r.pc = .waiting p) :
      ReaderStep s k r (.giveUp k) (s.goto k r (.woken p false))

/-! ## §2 It is complete -/

section Steps

variable {s t : State} {k : Nat} {r : Reader} {a : Action}

theorem readerStep_of_stepReader (hs : s.stepReader k r = some t) :
    ReaderStep s k r (.reader k) t := by
  unfold State.stepReader at hs
  cases hpc : r.pc with
  | polling =>
    simp only [hpc] at hs
    split at hs
    · rename_i hpoll
      cases hs
      exact .takes hpc hpoll
    · rename_i hpoll
      cases hs
      exact .misses hpc hpoll
  | pinned p =>
    simp only [hpc, State.stepRegister, Option.some.injEq] at hs
    subst hs
    split
    · rename_i hpoll
      exact .takesPinned hpc hpoll
    · rename_i hpoll
      split
      · rename_i hfull
        exact .tableFull hpc hpoll hfull
      · rename_i hregister
        exact .registers hpc hpoll hregister
  | waiting p =>
    simp only [hpc, State.stepDown] at hs
    split at hs
    · cases hs
    · rename_i sem hsem
      obtain ⟨hpermit, heq⟩ := Option.ite_none_right_eq_some.mp hs
      cases heq
      exact .acquires hpc hsem hpermit
  | woken p acquired =>
    simp only [hpc] at hs
    cases hs
    exact .unregisters hpc
  | leaving p result =>
    simp only [hpc] at hs
    cases hs
    exact .destroys hpc
  | unmatched | returned =>
    simp only [hpc] at hs
    cases hs

theorem readerStep_of_stepPin {now : UInt64} {p : Nat} {ok : Bool}
    (hs : s.stepPin k r now p ok = some t) : ReaderStep s k r (.pin k now p ok) t := by
  unfold State.stepPin at hs
  obtain ⟨hpc, hs⟩ := Option.ite_none_right_eq_some.mp hs
  split at hs
  · rename_i hlate
    cases hs
    exact .expires hpc hlate
  · rename_i hearly
    obtain ⟨hfree, hs⟩ := Option.ite_none_left_eq_some.mp hs
    cases ok with
    | true =>
      cases hs
      exact .pins hpc hearly hfree
    | false =>
      cases hs
      exact .pinFails hpc hearly hfree

theorem readerStep_of_stepGiveUp (hs : s.stepGiveUp k r = some t) :
    ReaderStep s k r (.giveUp k) t := by
  unfold State.stepGiveUp at hs
  cases hpc : r.pc with
  | waiting p =>
    simp only [hpc] at hs
    cases hs
    exact .givesUp hpc
  | polling | unmatched | pinned | woken | leaving | returned =>
    simp only [hpc] at hs
    cases hs

/-- A step of a read call is one of these. -/
theorem readerStep_of_step (hs : step s a = some t) (hk : a.reader? = some k) :
    ∃ r, s.readers[k]? = some r ∧ ReaderStep s k r a t := by
  cases a with
  | reader j =>
    cases hk
    obtain ⟨r, hr, hs⟩ := Option.bind_eq_some_iff.mp hs
    exact ⟨r, hr, readerStep_of_stepReader hs⟩
  | pin j now p ok =>
    cases hk
    obtain ⟨r, hr, hs⟩ := Option.bind_eq_some_iff.mp hs
    exact ⟨r, hr, readerStep_of_stepPin hs⟩
  | giveUp j =>
    cases hk
    obtain ⟨r, hr, hs⟩ := Option.bind_eq_some_iff.mp hs
    exact ⟨r, hr, readerStep_of_stepGiveUp hs⟩
  | read | write | clear | writer | upFails => cases hk

/-- It moves its own program counter, and the write calls are as before. -/
theorem ReaderStep.readers_eq (h : ReaderStep s k r a t) :
    ∃ pc, t.readers = s.readers.set k { r with pc } ∧ t.writers = s.writers := by
  cases h <;> exact ⟨_, rfl, rfl⟩

end Steps

end HisiRiscv.Osal.EventGroup
