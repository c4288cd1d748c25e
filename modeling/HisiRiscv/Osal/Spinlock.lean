/-
HisiRiscv.Osal.Spinlock — the spinlocks of `osal_sync.rs`.

On the single hart a spinlock is interrupt masking. A lock call clears
`mstatus.MIE` and leaves its old value where the unlock call finds it
again: in the lock object itself, or where the `flags` pointer points.
Nothing counts how many locks are held. What is saved enables interrupts
exactly for the acquisition that found them enabled, so that one must be
released last, and its saved state must survive until then.

Translation notes. A pointer is an address, and null is 0; a lock object
is the word at its address. An unlock call says which acquisition it
releases, and may pass any flags pointer. What a call does beside, for
`rf-queue-guard`, is left out.

  §1 The calls.
  §2 The machine.
  §3 The condition and the invariant.
  §4 Main results.
-/
import Mathlib.Logic.Function.Basic
import HisiRiscv.Lib.Ledger
import HisiRiscv.Lib.Machine

namespace HisiRiscv.Osal.Spinlock

open HisiRiscv.Machine

/-! ## §1 The calls -/

/-- `mstatus.MIE`. -/
def mie : UInt32 := 0x8

inductive Variant where
  | plain
  | irqsave
  | bh
  deriving DecidableEq

/-- An acquisition: the function called and its arguments. -/
structure Held where
  variant : Variant
  lock : Nat
  flags : Nat
  deriving DecidableEq

/-- Where the acquisition leaves the interrupt state. -/
def Held.cell (e : Held) : Nat :=
  match e.variant with
  | .plain | .bh => e.lock
  | .irqsave => e.flags

structure State where
  mstatus : UInt32
  memory : Nat → UInt32
  /-- The acquisitions not yet released, oldest first. -/
  held : List Held
  /-- Interrupts were enabled at the start. -/
  before : Bool

namespace State

def enabled (s : State) : Bool := s.mstatus &&& mie != 0

/-- A word of memory, or 0 through a null pointer. -/
def load (s : State) (pointer : Nat) : UInt32 := if pointer = 0 then 0 else s.memory pointer

def store (s : State) (pointer : Nat) (value : UInt32) : State :=
  if pointer = 0 then s else { s with memory := Function.update s.memory pointer value }

def osalIrqLock (s : State) : UInt32 × State :=
  (s.mstatus &&& mie, { s with mstatus := s.mstatus &&& ~~~mie })

def osalIrqRestore (s : State) (state : UInt32) : State :=
  if state &&& mie ≠ 0 then { s with mstatus := s.mstatus ||| mie } else s

def osalSpinLock (s : State) (lock : Nat) : State :=
  let (st, s) := s.osalIrqLock
  s.store lock st

def osalSpinUnlock (s : State) (lock : Nat) : State := s.osalIrqRestore (s.load lock)

def osalSpinLockIrqsave (s : State) (_lock flags : Nat) : State :=
  let (st, s) := s.osalIrqLock
  s.store flags st

def osalSpinUnlockIrqrestore (s : State) (_lock flags : Nat) : State :=
  s.osalIrqRestore (s.load flags)

def osalSpinLockBh (s : State) (lock : Nat) : State := s.osalSpinLock lock

def osalSpinUnlockBh (s : State) (lock : Nat) : State := s.osalSpinUnlock lock

/-! ## §2 The machine -/

def acquire (s : State) (e : Held) : State :=
  match e.variant with
  | .plain => s.osalSpinLock e.lock
  | .irqsave => s.osalSpinLockIrqsave e.lock e.flags
  | .bh => s.osalSpinLockBh e.lock

/-- The unlock call for an acquisition, with a flags pointer. -/
def release (s : State) (e : Held) (flags : Nat) : State :=
  match e.variant with
  | .plain => s.osalSpinUnlock e.lock
  | .irqsave => s.osalSpinUnlockIrqrestore e.lock flags
  | .bh => s.osalSpinUnlockBh e.lock

end State

def init (mstatus : UInt32) (memory : Nat → UInt32) : State :=
  ⟨mstatus, memory, [], mstatus &&& mie != 0⟩

inductive Action where
  | lock (e : Held)
  /-- Acquisition number `k` of those held is released. -/
  | unlock (k : Nat) (flags : Nat)
  deriving DecidableEq

def step (s : State) : Action → Option State
  | .lock e => some { s.acquire e with held := s.held ++ [e] }
  | .unlock k flags =>
      s.held[k]?.map fun e => { s.release e flags with held := s.held.eraseIdx k }

/-- Interrupts are disabled while a lock is held, and as they were before when none is. -/
def State.Masked (s : State) : Prop :=
  (s.held ≠ [] → s.enabled = false) ∧ (s.held = [] → s.enabled = s.before)

instance decidableMasked (s : State) : Decidable s.Masked :=
  inferInstanceAs (Decidable ((s.held ≠ [] → s.enabled = false) ∧ (s.held = [] → s.enabled = s.before)))

/-! ## §3 The condition and the invariant -/

/-- An unlock call is given the flags pointer of the acquisition. If interrupts were
enabled before, the first acquisition has a non-null pointer, which no other one
uses while it is held, and it is released last. -/
def FirstLast (s : State) : Action → Prop
  | .lock e => s.before = true →
      match s.held with
      | [] => e.cell ≠ 0
      | first :: _ => e.cell ≠ first.cell
  | .unlock k flags => ∀ e ∈ s.held[k]?,
      (e.variant = .irqsave → flags = e.flags) ∧ (s.before = true → k = 0 → s.held.length = 1)

instance decidableFirstLast (s : State) : (a : Action) → Decidable (FirstLast s a)
  | .lock e =>
      match hheld : s.held with
      | [] => decidable_of_iff (s.before = true → e.cell ≠ 0) (by rw [FirstLast, hheld])
      | first :: _ =>
          decidable_of_iff (s.before = true → e.cell ≠ first.cell) (by rw [FirstLast, hheld])
  | .unlock k flags => inferInstanceAs (Decidable (∀ e ∈ s.held[k]?,
      (e.variant = .irqsave → flags = e.flags) ∧ (s.before = true → k = 0 → s.held.length = 1)))

/-- Releasing the acquisition enables interrupts. -/
def State.saves (s : State) (e : Held) : Bool := s.load e.cell &&& mie != 0

/-- What is saved enables interrupts only for the first acquisition, and only if
they were enabled before. -/
structure Inv (s : State) : Prop where
  masked : s.Masked
  saved : ∀ k e, s.held[k]? = some e → s.saves e = (s.before && k == 0)

section Inv

variable {s t : State}

theorem inv_init (mstatus : UInt32) (memory : Nat → UInt32) : Inv (init mstatus memory) :=
  ⟨⟨fun h => absurd rfl h, fun _ => rfl⟩, nofun⟩

/-- All variants do the same with their cells. -/
theorem acquire_eq (s : State) (e : Held) :
    s.acquire e = { s with mstatus := s.mstatus &&& ~~~mie }.store e.cell (s.mstatus &&& mie) := by
  unfold State.acquire Held.cell
  cases e.variant <;> rfl

theorem release_eq (s : State) {e : Held} {flags : Nat} (h : e.variant = .irqsave → flags = e.flags) :
    s.release e flags = s.osalIrqRestore (s.load e.cell) := by
  unfold State.release Held.cell
  cases hvariant : e.variant with
  | plain | bh => rfl
  | irqsave =>
    rw [h hvariant]
    rfl

@[simp] theorem and_not_mie (x : UInt32) : x &&& ~~~mie &&& mie = 0 := by
  rw [UInt32.and_assoc, UInt32.not_and_self, UInt32.and_zero]

theorem or_mie_and (x : UInt32) : (x ||| mie) &&& mie ≠ 0 := by
  intro h
  have hbit : ((x ||| mie) &&& mie).toBitVec.getLsbD 3 = false := by
    rw [h]
    rfl
  simp [mie] at hbit

theorem store_mstatus (s : State) (pointer : Nat) (value : UInt32) :
    (s.store pointer value).mstatus = s.mstatus := by
  unfold State.store
  split <;> rfl

/-- A pointer reads what is stored through it, unless it is null. -/
theorem load_store_self (s : State) (pointer : Nat) (value : UInt32) :
    (s.store pointer value).load pointer = if pointer = 0 then 0 else value := by
  unfold State.store State.load
  split
  · rfl
  · exact Function.update_self ..

theorem load_store_ne (s : State) {pointer pointer' : Nat} (value : UInt32)
    (h : pointer' ≠ pointer) : (s.store pointer value).load pointer' = s.load pointer' := by
  unfold State.store State.load
  by_cases hnull : pointer = 0
  · rw [if_pos hnull]
  · rw [if_neg hnull]
    dsimp only
    rw [Function.update_of_ne h]

theorem saves_congr {e : Held} (h : t.load e.cell = s.load e.cell) : t.saves e = s.saves e := by
  unfold State.saves
  rw [h]

/-- What the new acquisition saves. -/
theorem saves_acquire_self (s : State) (e : Held) :
    (s.acquire e).saves e = (decide (e.cell ≠ 0) && s.enabled) := by
  rw [acquire_eq]
  unfold State.saves State.enabled
  rw [load_store_self]
  split
  · rename_i hnull
    rw [decide_eq_false (not_not_intro hnull)]
    rfl
  · rename_i hnull
    rw [decide_eq_true hnull, UInt32.and_assoc, UInt32.and_self]
    rfl

/-- What another one saves does not change, unless it uses the same cell. -/
theorem saves_acquire (s : State) (e e' : Held) :
    (s.acquire e).saves e' = if e'.cell = e.cell then (s.acquire e).saves e else s.saves e' := by
  split
  · rename_i hcell
    unfold State.saves
    rw [hcell]
  · rename_i hcell
    rw [acquire_eq]
    exact saves_congr (load_store_ne _ _ hcell)

theorem not_enabled_acquire (s : State) (e : Held) : (s.acquire e).enabled = false := by
  rw [acquire_eq]
  unfold State.enabled
  rw [store_mstatus, and_not_mie]
  rfl

/-- An acquisition. -/
theorem Inv.acquire (h : Inv s) {e : Held} (hok : FirstLast s (.lock e)) :
    Inv { s.acquire e with held := s.held ++ [e] } := by
  have hbefore : (s.acquire e).before = s.before := by
    rw [acquire_eq]
    unfold State.store
    split <;> rfl
  refine ⟨⟨fun _ => not_enabled_acquire s e, fun hnil => ?_⟩, fun k e' hk => ?_⟩
  · exact absurd hnil (List.append_ne_nil_of_right_ne_nil _ (List.cons_ne_nil e []))
  · change (s.acquire e).saves e' = ((s.acquire e).before && k == 0)
    rw [hbefore]
    cases hheld : s.held with
    | nil =>
      -- the first acquisition saves the state from before
      have hk : [e][k]? = some e' := by
        rw [← hk]
        change _ = (s.held ++ [e])[k]?
        rw [hheld]
        rfl
      obtain ⟨rfl, rfl⟩ : k = 0 ∧ e = e' := by
        cases k with
        | zero => exact ⟨rfl, Option.some.inj hk⟩
        | succ k => cases hk
      rw [saves_acquire_self, h.masked.2 hheld]
      cases hb : s.before with
      | false => exact Bool.and_false _
      | true =>
        have hcell := hok hb
        rw [hheld] at hcell
        rw [decide_eq_true hcell]
        rfl
    | cons first rest =>
      -- the others save nothing, and leave the cell of the first alone
      have hself : (s.acquire e).saves e = false := by
        rw [saves_acquire_self, h.masked.1 (by rw [hheld]; exact List.cons_ne_nil _ _)]
        exact Bool.and_false _
      rw [saves_acquire, hself]
      rcases Ledger.getElem?_append_cases hk with hk | ⟨rfl, rfl⟩
      · have hsaved := h.saved k e' hk
        split
        · rename_i hcell
          cases hb : s.before with
          | false => rfl
          | true =>
            cases k with
            | succ k => rfl
            | zero =>
              have hne := hok hb
              rw [hheld] at hne hk
              obtain rfl : first = e' := Option.some.inj hk
              exact absurd hcell.symm hne
        · exact hsaved
      · rw [if_pos rfl, hheld, List.length_cons]
        exact (Bool.and_false _).symm

theorem enabled_release (s : State) {e : Held} {flags : Nat}
    (h : e.variant = .irqsave → flags = e.flags) :
    (s.release e flags).enabled = (s.saves e || s.enabled) := by
  rw [release_eq s h]
  unfold State.osalIrqRestore State.saves
  by_cases hsaved : s.load e.cell &&& mie ≠ 0
  · rw [if_pos hsaved, bne_iff_ne.mpr hsaved]
    exact bne_iff_ne.mpr (or_mie_and _)
  · rw [if_neg hsaved, bne_eq_false_iff_eq.mpr (not_not.mp hsaved)]
    rfl

/-- A release changes nothing but `mstatus`. -/
theorem release_frame (s : State) {e : Held} {flags : Nat}
    (h : e.variant = .irqsave → flags = e.flags) :
    (s.release e flags).memory = s.memory ∧ (s.release e flags).before = s.before := by
  rw [release_eq s h]
  unfold State.osalIrqRestore
  split <;> exact ⟨rfl, rfl⟩

/-- A release. -/
theorem Inv.release (h : Inv s) {k flags : Nat} {e : Held} (hk : s.held[k]? = some e)
    (hok : FirstLast s (.unlock k flags)) :
    Inv { s.release e flags with held := s.held.eraseIdx k } := by
  obtain ⟨hflags, hlast⟩ := hok e hk
  obtain ⟨hmemory, hbefore⟩ := release_frame s hflags
  have hlt : k < s.held.length := (List.getElem?_eq_some_iff.mp hk).1
  have hdisabled : s.enabled = false := h.masked.1 (List.ne_nil_of_length_pos (by omega))
  have henabled : (s.release e flags).enabled = (s.before && k == 0) := by
    rw [enabled_release s hflags, hdisabled, Bool.or_false]
    exact h.saved k e hk
  have hlength : (s.held.eraseIdx k).length = s.held.length - 1 := List.length_eraseIdx_of_lt hlt
  have hfirst : (s.before && k == 0) = true → s.held.length = 1 := by
    intro hboth
    obtain ⟨hb, hzero⟩ := (Bool.and_eq_true ..).mp hboth
    exact hlast hb (beq_iff_eq.mp hzero)
  refine ⟨⟨fun hne => henabled.trans ?_, fun hnil => ?_⟩, fun j e' hj => ?_⟩
  · -- the first acquisition is not released while others are held
    refine Bool.eq_false_iff.mpr fun hboth => hne (List.eq_nil_of_length_eq_zero ?_)
    rw [hlength, hfirst hboth]
  · refine henabled.trans (Eq.trans ?_ hbefore.symm)
    have hzero : k = 0 := by
      have hnone := congrArg List.length hnil
      change (s.held.eraseIdx k).length = 0 at hnone
      omega
    rw [hzero]
    exact Bool.and_true _
  · have hsame : State.saves { s.release e flags with held := s.held.eraseIdx k } e' =
        s.saves e' := by
      unfold State.saves State.load
      dsimp only
      rw [hmemory]
    rw [hsame]
    change s.saves e' = ((s.release e flags).before && j == 0)
    rw [hbefore]
    have hj' : (s.held.eraseIdx k)[j]? = some e' := hj
    rw [List.getElem?_eraseIdx] at hj'
    split at hj'
    · exact h.saved j e' hj'
    · rename_i hjk
      rw [h.saved (j + 1) e' hj']
      -- what stood behind the released one did not come first
      cases j with
      | succ j => rfl
      | zero =>
        obtain rfl : k = 0 := by omega
        cases hb : s.before with
        | false => rfl
        | true =>
          have hone := hlast hb rfl
          have hlt' := (List.getElem?_eq_some_iff.mp hj').1
          omega

/-- **What is saved stays saved**, as long as the first acquisition is released last. -/
theorem inv_step (h : Inv s) {act : Action} (hok : FirstLast s act) (hs : step s act = some t) :
    Inv t := by
  cases act with
  | lock e =>
    cases hs
    exact h.acquire hok
  | unlock k flags =>
    obtain ⟨e, hk, rfl⟩ := Option.map_eq_some_iff.mp hs
    exact h.release hk hok

/-! ## §4 Main results -/

/-- **Spinlocks mask interrupts.** If the acquisition that finds interrupts enabled
is released last, and its saved state is not overwritten, interrupts are disabled
while a lock is held, and as they were before when none is. -/
theorem spinlocks_mask {mstatus : UInt32} {memory : Nat → UInt32} {as : List Action} {s : State}
    (h : Steps step FirstLast (init mstatus memory) as s) : s.Masked :=
  (h.invariant (inv_init mstatus memory) fun _ _ _ ht hok hs => inv_step ht hok hs).masked

/-- A lock is acquired again with a flags pointer, and released in between. -/
def nestedLocks : List Action :=
  [.lock ⟨.plain, 64, 0⟩, .lock ⟨.irqsave, 64, 80⟩, .lock ⟨.bh, 96, 0⟩, .unlock 1 80, .unlock 1 0]

/-- Interrupts are disabled until the last release, and enabled after it. -/
theorem spinlocks_mask_sample : ∃ s t : State,
    Steps step FirstLast (init 8 fun _ => 0) nestedLocks s ∧ s.held = [⟨.plain, 64, 0⟩] ∧ s.enabled = false ∧
      Steps step FirstLast (init 8 fun _ => 0) (nestedLocks ++ [.unlock 0 0]) t ∧ t.held = [] ∧
      t.enabled = true := by
  have hrun : (run (guarded step FirstLast) (init 8 fun _ => 0) nestedLocks).map State.held =
      some [⟨.plain, 64, 0⟩] := by decide +kernel
  have hrelease : (run (guarded step FirstLast) (init 8 fun _ => 0) (nestedLocks ++ [.unlock 0 0])).map
      (fun t => (t.held, t.before)) = some ([], true) := by decide +kernel
  obtain ⟨s, hs, hheld⟩ := Option.map_eq_some_iff.mp hrun
  obtain ⟨t, ht, hlast⟩ := Option.map_eq_some_iff.mp hrelease
  obtain ⟨hnone, hbefore⟩ := Prod.mk.inj hlast
  have hlocked := spinlocks_mask (Steps.of_run_guarded hs)
  have hreleased := spinlocks_mask (Steps.of_run_guarded ht)
  refine ⟨s, t, Steps.of_run_guarded hs, hheld, hlocked.1 (by simp [hheld]), Steps.of_run_guarded ht, hnone, ?_⟩
  exact (hreleased.2 hnone).trans hbefore

/-- Interrupts are enabled at the start, and the run breaks the masking. -/
def Unmasks (as : List Action) : Prop :=
  ∃ s : State, Steps step Always (init 8 fun _ => 0) as s ∧ ¬s.Masked

theorem unmasks_of_run {as : List Action}
    (h : (run step (init 8 fun _ => 0) as).map (fun s => decide s.Masked) = some false) :
    Unmasks as := by
  obtain ⟨s, hs, hmasked⟩ := Option.map_eq_some_iff.mp h
  exact ⟨s, Steps.of_run hs, of_decide_eq_false hmasked⟩

/-- The first of two locks is released first; a lock is acquired again; the handle is
null; the flags pointer of the unlock call is null. -/
theorem spinlocks_unmask :
    Unmasks [.lock ⟨.plain, 64, 0⟩, .lock ⟨.plain, 96, 0⟩, .unlock 0 0] ∧
      Unmasks [.lock ⟨.plain, 64, 0⟩, .lock ⟨.plain, 64, 0⟩, .unlock 1 0, .unlock 0 0] ∧
      Unmasks [.lock ⟨.bh, 0, 0⟩, .unlock 0 0] ∧
      Unmasks [.lock ⟨.irqsave, 64, 80⟩, .unlock 0 0] :=
  ⟨unmasks_of_run (by decide +kernel), unmasks_of_run (by decide +kernel),
    unmasks_of_run (by decide +kernel), unmasks_of_run (by decide +kernel)⟩

end Inv

end HisiRiscv.Osal.Spinlock
