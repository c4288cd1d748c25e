/-
HisiRiscv.Osal.Atomic — the counters of `osal_sync.rs` and `osal_adapt.rs`.

All operations but one are a single critical section, `atomic_rmw`. The
exception is `osal_adapt_atomic_add`, a read and a later write: what
happens to the counter between the two is overwritten. In a run where every
such write finds the value that its call has read, the counters behave as
if each call took effect at once, at its last critical section.

Translation notes. A pointer is an address, and null is 0; a counter is the
word at its address. A call is a record with its place in the code; one
step is one critical section, and calls of any number of tasks and
interrupt handlers stand side by side. `osal_atomic_set` is an operation of
its own but no call of this machine, and a call says through which of the
two layers it was made.

History variables: `initial` is the memory at the start, `effects` lists
the calls in the order of their last critical sections.

  §1 The operations.
  §2 The machine.
  §3 The law.
  §4 Steps.
  §5 Main results.
-/
import Mathlib.Algebra.BigOperators.Group.List.Basic
import Mathlib.Algebra.Ring.Int.Defs
import Mathlib.Logic.Function.Basic
import HisiRiscv.Lib.Ledger
import HisiRiscv.Lib.Machine

namespace HisiRiscv.Osal.Atomic

open HisiRiscv.Machine

/-! ## §1 The operations -/

abbrev Memory : Type := Nat → Int32

/-- `atomic_rmw`: one critical section. -/
def atomicRmw {α : Type} (memory : Memory) (atomic : Nat) (f : Int32 → α × Int32) : α × Memory :=
  ((f (memory atomic)).1, Function.update memory atomic (f (memory atomic)).2)

def osalAtomicRead (memory : Memory) (atomic : Nat) : Int32 × Memory :=
  if atomic = 0 then (0, memory) else atomicRmw memory atomic fun c => (c, c)

def osalAtomicSet (memory : Memory) (atomic : Nat) (i : Int32) : Memory :=
  if atomic = 0 then memory else (atomicRmw memory atomic fun _ => ((), i)).2

def osalAtomicInc (memory : Memory) (atomic : Nat) : Memory :=
  if atomic = 0 then memory else (atomicRmw memory atomic fun c => ((), c + 1)).2

def osalAtomicDec (memory : Memory) (atomic : Nat) : Memory :=
  if atomic = 0 then memory else (atomicRmw memory atomic fun c => ((), c - 1)).2

def osalAtomicIncReturn (memory : Memory) (atomic : Nat) : Int32 × Memory :=
  if atomic = 0 then (0, memory) else atomicRmw memory atomic fun c => (c + 1, c + 1)

def osalAtomicDecReturn (memory : Memory) (atomic : Nat) : Int32 × Memory :=
  if atomic = 0 then (0, memory) else atomicRmw memory atomic fun c => (c - 1, c - 1)

def osalAdaptAtomicInc (memory : Memory) (atomic : Nat) : Memory := osalAtomicInc memory atomic

def osalAdaptAtomicDec (memory : Memory) (atomic : Nat) : Memory := osalAtomicDec memory atomic

def osalAdaptAtomicIncReturn (memory : Memory) (atomic : Nat) : Int32 × Memory :=
  osalAtomicIncReturn memory atomic

def osalAdaptAtomicDecReturn (memory : Memory) (atomic : Nat) : Int32 × Memory :=
  osalAtomicDecReturn memory atomic

/-- The first half of `osal_adapt_atomic_add`. -/
def osalAdaptAtomicAddLoad (memory : Memory) (atomic : Nat) : Int32 × Memory :=
  osalAtomicRead memory atomic

/-- The second half; `cur` is what the first one has read. -/
def osalAdaptAtomicAddStore (memory : Memory) (atomic : Nat) (cur val : Int32) : Memory :=
  osalAtomicSet memory atomic (cur + val)

/-! ## §2 The machine -/

/-- `osal_sync.rs` or `osal_adapt.rs`. -/
inductive Layer where
  | osal
  | adapt
  deriving DecidableEq

inductive Op where
  | inc (layer : Layer)
  | dec (layer : Layer)
  | incReturn (layer : Layer)
  | decReturn (layer : Layer)
  /-- `osal_adapt_atomic_add`. -/
  | add (val : Int32)
  deriving DecidableEq

/-- What a call adds to its counter. -/
def Op.delta : Op → Int
  | .inc _ | .incReturn _ => 1
  | .dec _ | .decReturn _ => -1
  | .add val => val.toInt

/-- The functions that return a value. -/
def Op.returnsValue : Op → Bool
  | .incReturn _ | .decReturn _ => true
  | .inc _ | .dec _ | .add _ => false

/-- The critical section of a call that has only one, with the value it returns. -/
def Op.run (memory : Memory) (atomic : Nat) : Op → Option (Option Int32 × Memory)
  | .inc .osal => some (none, osalAtomicInc memory atomic)
  | .inc .adapt => some (none, osalAdaptAtomicInc memory atomic)
  | .dec .osal => some (none, osalAtomicDec memory atomic)
  | .dec .adapt => some (none, osalAdaptAtomicDec memory atomic)
  | .incReturn .osal => some ((osalAtomicIncReturn memory atomic).map some id)
  | .incReturn .adapt => some ((osalAdaptAtomicIncReturn memory atomic).map some id)
  | .decReturn .osal => some ((osalAtomicDecReturn memory atomic).map some id)
  | .decReturn .adapt => some ((osalAdaptAtomicDecReturn memory atomic).map some id)
  | .add _ => none

inductive Place where
  /-- Before the first critical section. -/
  | called
  /-- Between the read and the write of `osal_adapt_atomic_add`. -/
  | loaded (cur : Int32)
  | returned (value : Option Int32)
  deriving DecidableEq

structure Call where
  op : Op
  atomic : Nat
  place : Place
  deriving DecidableEq

/-- A call in the order of the last critical sections. -/
structure Effect where
  call : Nat
  atomic : Nat
  delta : Int
  deriving DecidableEq

structure State where
  memory : Memory
  calls : List Call
  initial : Memory
  effects : List Effect

def init (memory : Memory) : State := ⟨memory, [], memory, []⟩

inductive Action where
  | call (op : Op) (atomic : Nat)
  /-- The next critical section of call number `k`. -/
  | advance (k : Nat)
  deriving DecidableEq

/-- Call number `k` has been through its last critical section. -/
def State.finish (s : State) (k : Nat) (call : Call) (value : Option Int32) (memory : Memory) :
    State :=
  { s with
    memory
    calls := s.calls.set k { call with place := .returned value }
    effects := s.effects ++ [⟨k, call.atomic, call.op.delta⟩] }

def State.advance (s : State) (k : Nat) (call : Call) : Option State :=
  match call.place with
  | .called =>
      match call.op.run s.memory call.atomic with
      | some (value, memory) => some (s.finish k call value memory)
      | none =>
          let (cur, memory) := osalAdaptAtomicAddLoad s.memory call.atomic
          some { s with memory, calls := s.calls.set k { call with place := .loaded cur } }
  | .loaded cur =>
      match call.op with
      | .add val =>
          some (s.finish k call none (osalAdaptAtomicAddStore s.memory call.atomic cur val))
      | _ => none
  | .returned _ => none

def step (s : State) : Action → Option State
  | .call op atomic => some { s with calls := s.calls ++ [⟨op, atomic, .called⟩] }
  | .advance k => s.calls[k]?.bind (s.advance k)

/-! ## §3 The law -/

/-- What a call that has returned has added to the counter at `p`. -/
def Call.added (p : Nat) (call : Call) : Option Int :=
  match call.place with
  | .returned _ => if call.atomic = p then some call.op.delta else none
  | .called | .loaded _ => none

/-- The sum of the deltas of all calls for `p` that have returned. -/
def State.total (s : State) (p : Nat) : Int := (s.calls.filterMap (Call.added p)).sum

def sumAt (p : Nat) (effects : List Effect) : Int :=
  (effects.filterMap fun e => if e.atomic = p then some e.delta else none).sum

/-- The counter at `p` once the calls of `effects` have taken effect one after the
other; `Int32.ofInt` reduces modulo 2^32. -/
def State.counterAfter (s : State) (p : Nat) (effects : List Effect) : Int32 :=
  s.initial p + Int32.ofInt (sumAt p effects)

/-- `e` is the effect of the call, and `before` what took effect before it. -/
structure State.Linearized (s : State) (k : Nat) (c : Call) (before : List Effect)
    (e : Effect) : Prop where
  order : ∃ after, s.effects = before ++ e :: after
  call : e.call = k
  atomic : e.atomic = c.atomic
  delta : e.delta = c.op.delta

/-- No update is lost, and a returned value is the counter at the call's own
linearization point. -/
structure Law (s : State) : Prop where
  counter : ∀ p, p ≠ 0 → s.memory p = s.initial p + Int32.ofInt (s.total p)
  once : (s.effects.map Effect.call).Nodup
  value : ∀ (k : Nat) (c : Call) (value : Option Int32), s.calls[k]? = some c →
    c.place = .returned value → value.isSome = c.op.returnsValue ∧
      ∃ before e, s.Linearized k c before e ∧
        ∀ v ∈ value, c.atomic ≠ 0 → v = s.counterAfter c.atomic (before ++ [e])

/-- When `osal_adapt_atomic_add` writes, the counter is what it has read. -/
def AddsUndisturbed (s : State) : Action → Prop
  | .call _ _ => True
  | .advance k =>
      ∀ c ∈ s.calls[k]?, ∀ cur, c.place = .loaded cur → c.atomic ≠ 0 → s.memory c.atomic = cur

/-! ## §4 Steps -/

theorem sumAt_append (p : Nat) (effects : List Effect) (e : Effect) :
    sumAt p (effects ++ [e]) = sumAt p effects + if e.atomic = p then e.delta else 0 := by
  unfold sumAt
  rw [List.filterMap_append, List.sum_append]
  congr 1
  by_cases he : e.atomic = p
  · simp [he]
  · simp [he]

/-- A critical section that adds to one counter; through a null pointer it does nothing. -/
def Adds (memory memory' : Memory) (atomic : Nat) (delta : Int) : Prop :=
  ∀ p, p ≠ 0 → memory' p = memory p + Int32.ofInt (if atomic = p then delta else 0)

theorem adds_update (memory : Memory) {atomic : Nat} {delta : Int} {x : Int32}
    (hx : x = memory atomic + Int32.ofInt delta) :
    Adds memory (Function.update memory atomic x) atomic delta := by
  intro p _
  by_cases hp : atomic = p
  · subst hp
    simp [hx]
  · rw [Function.update_of_ne (Ne.symm hp), if_neg hp]
    exact (Int32.add_zero _).symm

theorem adds_null (memory : Memory) (delta : Int) : Adds memory memory 0 delta := by
  intro p hp
  rw [if_neg (Ne.symm hp)]
  exact (Int32.add_zero _).symm

theorem sub_one (c : Int32) : c - 1 = c + Int32.ofInt (-1) := by
  rw [Int32.sub_eq_add_neg, Int32.ofInt_neg]
  rfl

/-- The eight functions with one critical section are one, up to delta and value. -/
theorem Op.run_eq {op : Op} (hop : ∀ val, op ≠ .add val) (memory : Memory) (atomic : Nat) :
    op.run memory atomic =
      if atomic = 0 then some (if op.returnsValue then some 0 else none, memory)
      else
        some (if op.returnsValue then some (memory atomic + Int32.ofInt op.delta) else none,
          Function.update memory atomic (memory atomic + Int32.ofInt op.delta)) := by
  cases op with
  | inc layer =>
    cases layer <;> simp only [Op.run, osalAdaptAtomicInc, osalAtomicInc] <;> split <;> rfl
  | dec layer =>
    cases layer <;> simp only [Op.run, osalAdaptAtomicDec, osalAtomicDec, sub_one] <;> split <;> rfl
  | incReturn layer =>
    cases layer <;> simp only [Op.run, osalAdaptAtomicIncReturn, osalAtomicIncReturn] <;> split <;>
      rfl
  | decReturn layer =>
    cases layer <;> simp only [Op.run, osalAdaptAtomicDecReturn, osalAtomicDecReturn, sub_one] <;>
      split <;> rfl
  | add val => exact absurd rfl (hop val)

theorem Op.run_spec {op : Op} {memory memory' : Memory} {atomic : Nat} {value : Option Int32}
    (h : op.run memory atomic = some (value, memory')) :
    Adds memory memory' atomic op.delta ∧ value.isSome = op.returnsValue ∧
      ∀ v ∈ value, atomic ≠ 0 → v = memory' atomic := by
  have hop : ∀ val, op ≠ .add val := by
    rintro val rfl
    cases h
  rw [Op.run_eq hop] at h
  split at h
  · rename_i hnull
    cases h
    refine ⟨?_, ?_, fun v _ hne => absurd hnull hne⟩
    · rw [hnull]
      exact adds_null memory op.delta
    · cases op.returnsValue <;> rfl
  · cases h
    refine ⟨adds_update memory rfl, ?_, ?_⟩
    · cases op.returnsValue <;> rfl
    · intro v hv _
      rw [Function.update_self]
      split at hv
      · exact (Option.some.inj hv).symm
      · cases hv

/-- The read does not write. -/
theorem osalAdaptAtomicAddLoad_snd (memory : Memory) (atomic : Nat) :
    (osalAdaptAtomicAddLoad memory atomic).2 = memory := by
  unfold osalAdaptAtomicAddLoad osalAtomicRead atomicRmw
  split
  · rfl
  · exact Function.update_eq_self atomic memory

theorem osalAdaptAtomicAddStore_eq (memory : Memory) {atomic : Nat} (hatomic : atomic ≠ 0)
    (cur val : Int32) :
    osalAdaptAtomicAddStore memory atomic cur val = Function.update memory atomic (cur + val) := by
  simp [osalAdaptAtomicAddStore, osalAtomicSet, hatomic, atomicRmw]

/-- The write adds to the counter if it finds what has been read. -/
theorem adds_store {memory : Memory} {atomic : Nat} {cur val : Int32}
    (hcur : atomic ≠ 0 → memory atomic = cur) :
    Adds memory (osalAdaptAtomicAddStore memory atomic cur val) atomic val.toInt := by
  by_cases hnull : atomic = 0
  · subst hnull
    exact adds_null memory val.toInt
  · rw [osalAdaptAtomicAddStore_eq memory hnull]
    exact adds_update memory (by rw [hcur hnull, Int32.ofInt_toInt])

/-- The law, and what ties the calls to their effects. -/
structure Inv (s : State) : Prop extends Law s where
  effects_total : ∀ p, s.total p = sumAt p s.effects
  finished : ∀ e ∈ s.effects, ∃ c value, s.calls[e.call]? = some c ∧ c.place = .returned value

section Steps

variable {s t : State}

theorem inv_init (memory : Memory) : Inv (init memory) where
  counter p _ := (Int32.add_zero _).symm
  once := List.nodup_nil
  value k c value hk := by simp [init] at hk
  effects_total p := rfl
  finished e he := absurd he List.not_mem_nil

/-- A call that goes on, or a new one. -/
theorem Inv.frame (h : Inv s) {calls : List Call}
    (hadded : ∀ p, calls.filterMap (Call.added p) = s.calls.filterMap (Call.added p))
    (hreturned : ∀ (k : Nat) (c : Call) (value : Option Int32), c.place = .returned value →
      (calls[k]? = some c ↔ s.calls[k]? = some c)) : Inv { s with calls := calls } where
  counter p hp := by
    simpa [State.total, hadded] using h.counter p hp
  once := h.once
  value k c value hk hplace := by
    obtain ⟨hsome, before, e, hlin, hv⟩ :=
      h.value k c value ((hreturned k c value hplace).mp hk) hplace
    exact ⟨hsome, before, e, ⟨hlin.order, hlin.call, hlin.atomic, hlin.delta⟩, hv⟩
  effects_total p := by
    simpa [State.total, hadded] using h.effects_total p
  finished e he := by
    obtain ⟨c, value, hk, hplace⟩ := h.finished e he
    exact ⟨c, value, (hreturned e.call c value hplace).mpr hk, hplace⟩

theorem Inv.call (h : Inv s) (op : Op) (atomic : Nat) :
    Inv { s with calls := s.calls ++ [⟨op, atomic, .called⟩] } := by
  refine h.frame ?_ ?_
  · intro p
    rw [List.filterMap_append]
    simp [Call.added]
  · intro k c value hplace
    constructor
    · intro hk
      obtain hk | ⟨-, rfl⟩ := Ledger.getElem?_append_cases hk
      · exact hk
      · cases hplace
    · intro hk
      rw [List.getElem?_append_left (List.getElem?_eq_some_iff.mp hk).1]
      exact hk

/-- The read of `osal_adapt_atomic_add`. -/
theorem Inv.load (h : Inv s) {k : Nat} {c : Call} (hk : s.calls[k]? = some c)
    (hplace : c.place = .called) (cur : Int32) :
    Inv { s with calls := s.calls.set k { c with place := .loaded cur } } := by
  refine h.frame ?_ ?_
  · intro p
    refine Ledger.filterMap_set_eq _ hk ?_
    simp [Call.added, hplace]
  · intro j c' value hplace'
    constructor
    · intro hj
      obtain ⟨-, rfl⟩ | ⟨-, hj⟩ := Ledger.getElem?_set_cases hj
      · cases hplace'
      · exact hj
    · intro hj
      have hne : k ≠ j := by
        rintro rfl
        rw [hk] at hj
        cases hj
        rw [hplace] at hplace'
        cases hplace'
      rw [List.getElem?_set_ne hne, hj]

/-- A call that finishes adds its delta to the total of its counter. -/
theorem total_finish {k : Nat} {c : Call} (hk : s.calls[k]? = some c)
    (hopen : ∀ v, c.place ≠ .returned v) (value : Option Int32) (memory : Memory) (p : Nat) :
    (s.finish k c value memory).total p =
      s.total p + if c.atomic = p then c.op.delta else 0 := by
  have hnone : c.added p = none := by
    unfold Call.added
    cases hplace : c.place with
    | returned v => exact absurd hplace (hopen v)
    | called => rfl
    | loaded cur => rfl
  unfold State.total State.finish
  by_cases hp : c.atomic = p
  · rw [if_pos hp, (Ledger.filterMap_set_insert (Call.added p) hk hnone
      (show Call.added p { c with place := .returned value } = some c.op.delta by
        simp [Call.added, hp])).sum_eq, List.sum_cons, Int.add_comm]
  · have hsame : Call.added p { c with place := .returned value } = c.added p := by
      rw [hnone]
      simp [Call.added, hp]
    rw [if_neg hp, Int.add_zero, Ledger.filterMap_set_eq (Call.added p) hk hsame]

/-- A critical section that adds the delta of its call. -/
theorem Inv.finish (h : Inv s) {k : Nat} {c : Call} (hk : s.calls[k]? = some c)
    (hopen : ∀ v, c.place ≠ .returned v) {value : Option Int32} {memory : Memory}
    (hadds : Adds s.memory memory c.atomic c.op.delta) (hsome : value.isSome = c.op.returnsValue)
    (hvalue : ∀ v ∈ value, c.atomic ≠ 0 → v = memory c.atomic) :
    Inv (s.finish k c value memory) := by
  have htotal := total_finish hk hopen value memory
  have hcounter : ∀ p, p ≠ 0 →
      memory p = s.initial p + Int32.ofInt (s.total p + if c.atomic = p then c.op.delta else 0) := by
    intro p hp
    rw [hadds p hp, h.counter p hp, Int32.ofInt_add, Int32.add_assoc]
  -- the call is not among the effects yet
  have hfresh : ∀ e ∈ s.effects, e.call ≠ k := by
    rintro e he rfl
    obtain ⟨c', v, hk', hplace⟩ := h.finished e he
    rw [hk] at hk'
    cases hk'
    exact hopen v hplace
  refine ⟨⟨?_, ?_, ?_⟩, ?_, ?_⟩
  · intro p hp
    rw [htotal p]
    exact hcounter p hp
  · have hmem : k ∉ s.effects.map Effect.call := by
      simpa using hfresh
    simp only [State.finish, List.map_append, List.map_cons, List.map_nil]
    exact List.nodup_append.mpr ⟨h.once, by simp, by
      intro a ha b hb
      rw [List.mem_singleton.mp hb]
      rintro rfl
      exact hmem ha⟩
  · intro j c' value' hj hplace
    obtain ⟨rfl, rfl⟩ | ⟨hne, hj⟩ := Ledger.getElem?_set_cases hj
    · -- the call itself
      cases hplace
      refine ⟨hsome, s.effects, ⟨j, c.atomic, c.op.delta⟩, ⟨⟨[], rfl⟩, rfl, rfl, rfl⟩, ?_⟩
      intro v hv hatomic
      rw [hvalue v hv hatomic, hcounter _ hatomic, h.effects_total]
      simp only [State.counterAfter, sumAt_append]
      rfl
    · -- a call before it
      obtain ⟨hsome', before, e, hlin, hv⟩ := h.value j c' value' hj hplace
      obtain ⟨after, horder⟩ := hlin.order
      refine ⟨hsome', before, e, ⟨⟨after ++ [⟨k, c.atomic, c.op.delta⟩], ?_⟩, hlin.call, hlin.atomic,
        hlin.delta⟩, hv⟩
      simp [State.finish, horder]
  · intro p
    rw [htotal p, h.effects_total p]
    exact (sumAt_append p s.effects ⟨k, c.atomic, c.op.delta⟩).symm
  · intro e he
    obtain he | he := List.mem_append.mp he
    · obtain ⟨c', v, hj, hplace⟩ := h.finished e he
      refine ⟨c', v, ?_, hplace⟩
      exact (List.getElem?_set_ne (Ne.symm (hfresh e he))).trans hj
    · rw [List.mem_singleton.mp he]
      refine ⟨{ c with place := .returned value }, value, ?_, rfl⟩
      exact List.getElem?_set_self (List.getElem?_eq_some_iff.mp hk).1

theorem inv_step (h : Inv s) {a : Action} (hok : AddsUndisturbed s a) (hs : step s a = some t) :
    Inv t := by
  cases a with
  | call op atomic =>
    cases hs
    exact h.call op atomic
  | advance k =>
    obtain ⟨c, hk, hs⟩ := Option.bind_eq_some_iff.mp hs
    unfold State.advance at hs
    split at hs
    · rename_i hplace
      have hopen : ∀ v, c.place ≠ .returned v := by simp [hplace]
      split at hs
      · rename_i value memory hrun
        cases hs
        obtain ⟨hadds, hsome, hvalue⟩ := Op.run_spec hrun
        exact h.finish hk hopen hadds hsome hvalue
      · simp only [osalAdaptAtomicAddLoad_snd] at hs
        cases hs
        exact h.load hk hplace _
    · rename_i cur hplace
      have hopen : ∀ v, c.place ≠ .returned v := by simp [hplace]
      split at hs
      · rename_i val hop
        cases hs
        refine h.finish hk hopen ?_ (by rw [hop]; rfl) (fun v hv => by cases hv)
        rw [hop]
        exact adds_store (hok c hk cur hplace)
      · cases hs
    · cases hs

/-- A write that finds another value than was read loses what has been added since. -/
theorem not_law_of_disturbed (h : Inv s) {a : Action} (hok : ¬AddsUndisturbed s a)
    (hs : step s a = some t) : ¬Law t := by
  cases a with
  | call op atomic => exact absurd trivial hok
  | advance k =>
    simp only [AddsUndisturbed, not_forall] at hok
    obtain ⟨c, hk, cur, hplace, hatomic, hcur⟩ := hok
    obtain ⟨c', hk', hs⟩ := Option.bind_eq_some_iff.mp hs
    rw [hk] at hk'
    cases hk'
    unfold State.advance at hs
    rw [hplace] at hs
    have hopen : ∀ v, c.place ≠ .returned v := by simp [hplace]
    dsimp only at hs
    split at hs
    · rename_i val hop
      cases hs
      intro hlaw
      have hcounter := hlaw.counter c.atomic hatomic
      rw [total_finish hk hopen, if_pos rfl, Int32.ofInt_add, ← Int32.add_assoc] at hcounter
      simp only [State.finish] at hcounter
      rw [← h.counter c.atomic hatomic, osalAdaptAtomicAddStore_eq s.memory hatomic,
        Function.update_self, hop] at hcounter
      simp only [Op.delta, Int32.ofInt_toInt] at hcounter
      exact hcur ((Int32.add_left_inj val).mp hcounter).symm
    · cases hs

end Steps

/-! ## §5 Main results -/

/-- The sum of the deltas of all calls for `p`. -/
def State.totalOfCalls (s : State) (p : Nat) : Int :=
  ((s.calls.filter fun c => c.atomic = p).map fun c => c.op.delta).sum

/-- When every call has returned, the total is that of all calls. -/
theorem total_of_returned {s : State} (h : ∀ c ∈ s.calls, ∃ v, c.place = .returned v) (p : Nat) :
    s.total p = s.totalOfCalls p := by
  unfold State.total State.totalOfCalls
  generalize s.calls = calls at h ⊢
  induction calls with
  | nil => rfl
  | cons c calls ih =>
    simp only [List.mem_cons, forall_eq_or_imp] at h
    obtain ⟨⟨v, hplace⟩, hrest⟩ := h
    have hadded : c.added p = if c.atomic = p then some c.op.delta else none := by
      simp [Call.added, hplace]
    by_cases hp : c.atomic = p
    · rw [List.filterMap_cons_some (by rw [hadded, if_pos hp]), List.filter_cons_of_pos (by simp [hp]),
        List.map_cons, List.sum_cons, List.sum_cons, ih hrest]
    · rw [List.filterMap_cons_none (by rw [hadded, if_neg hp]), List.filter_cons_of_neg (by simp [hp]),
        ih hrest]

/-- Up to the first write of `osal_adapt_atomic_add` that finds another value than
was read, the counters are exact, also when all calls have returned; after
that write they are not. -/
theorem counters_exact (memory : Memory) {as : List Action} {s : State}
    (h : Steps step AddsUndisturbed (init memory) as s) :
    Law s ∧
      ((∀ c ∈ s.calls, ∃ v, c.place = .returned v) →
        ∀ p, p ≠ 0 → s.memory p = s.initial p + Int32.ofInt (s.totalOfCalls p)) ∧
      ∀ a t, step s a = some t → ¬AddsUndisturbed s a → ¬Law t := by
  have hinv : Inv s := h.invariant (inv_init memory) fun _ _ _ hI hok hs => inv_step hI hok hs
  refine ⟨hinv.toLaw, ?_, fun _ _ hs hok => not_law_of_disturbed hinv hok hs⟩
  intro hreturned p hp
  rw [← total_of_returned hreturned p]
  exact hinv.counter p hp

/-! ### An increment between the read and the write of an add -/

/-- The counter is the word at address 4. -/
def lostUpdate : List Action :=
  [.call (.add 5) 4, .advance 0, .call (.inc .osal) 4, .advance 1, .advance 0]

theorem run_lostUpdate :
    (run step (init fun _ => 0) lostUpdate).map
      (fun s => (s.memory 4, s.initial 4 + Int32.ofInt (s.totalOfCalls 4),
        s.calls.map Call.place)) =
      some (5, 6, [.returned none, .returned none]) := by
  decide +kernel

theorem not_counters_exact :
    ¬∀ (memory : Memory) (as : List Action) (s : State),
      Steps step Always (init memory) as s → (∀ c ∈ s.calls, ∃ v, c.place = .returned v) →
        ∀ p, p ≠ 0 → s.memory p = s.initial p + Int32.ofInt (s.totalOfCalls p) := by
  intro hclaim
  obtain ⟨s, hrun, hs⟩ := Option.map_eq_some_iff.mp run_lostUpdate
  simp only [Prod.mk.injEq] at hs
  obtain ⟨hmemory, hsum, hplaces⟩ := hs
  have hreturned : ∀ c ∈ s.calls, ∃ v, c.place = .returned v := by
    intro c hc
    have hplace := List.mem_map_of_mem (f := Call.place) hc
    rw [hplaces] at hplace
    exact ⟨none, by simpa using hplace⟩
  have heq := hclaim _ _ s (Steps.of_run hrun) hreturned 4 (by decide)
  rw [hmemory, hsum] at heq
  exact absurd heq (by decide)

/-! ### A run that meets the condition -/

instance decidableAddsUndisturbed (s : State) : (a : Action) → Decidable (AddsUndisturbed s a)
  | .call _ _ => .isTrue trivial
  | .advance k =>
      match h : s.calls[k]? with
      | none => .isTrue (by simp [AddsUndisturbed, h])
      | some ⟨_, atomic, .loaded cur⟩ =>
          decidable_of_iff (atomic ≠ 0 → s.memory atomic = cur) (by simp [AddsUndisturbed, h])
      | some ⟨_, _, .called⟩ => .isTrue (by simp [AddsUndisturbed, h])
      | some ⟨_, _, .returned _⟩ => .isTrue (by simp [AddsUndisturbed, h])

/-- An add in one piece, beside two calls that overlap. -/
def undisturbedAdd : List Action :=
  [.call (.add 5) 4, .call (.incReturn .osal) 4, .advance 1, .advance 0, .advance 0,
    .call (.decReturn .adapt) 4, .advance 2]

theorem run_undisturbedAdd :
    (run (guarded step AddsUndisturbed) (init fun _ => 0) undisturbedAdd).map
      (fun s => (s.memory 4, s.calls.map Call.place)) =
      some (5, [.returned none, .returned (some 1), .returned (some 5)]) := by
  decide +kernel

theorem counters_exact_undisturbedAdd :
    ∃ s, Steps step AddsUndisturbed (init fun _ => 0) undisturbedAdd s ∧ s.memory 4 = 5 ∧ Law s := by
  obtain ⟨s, hrun, hs⟩ := Option.map_eq_some_iff.mp run_undisturbedAdd
  have hsteps := Steps.of_run_guarded hrun
  exact ⟨s, hsteps, (Prod.mk.inj hs).1, (counters_exact _ hsteps).1⟩

end HisiRiscv.Osal.Atomic
