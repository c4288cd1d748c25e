/-
HisiRiscv.Lib.StampedRing — a ring of slots with sequence numbers, read while it is written.

A call takes the next sequence number, and with it a slot, stores its values into the fields
of the slot, one after another, and its sequence number at the end. A reader loads the sequence
number of a slot and then its fields. There are two designs: the sequence number may be set to
zero first, and loaded again by the reader, who starts over when it has changed; or neither.

A record is whole if no two calls store into a slot at the same time and, without the second
load, no call stores into a slot while a reader reads it (`not_torn`).

  §1 Designs.
  §2 The machine.
  §3 Runs without disturbance.
  §4 The invariant.
  §5 Calls.
  §6 Readers.
  §7 The result.
-/
import HisiRiscv.Lib.Machine
import Mathlib.Algebra.Group.Nat.Defs
import Mathlib.Logic.Function.Basic

namespace HisiRiscv.StampedRing

open HisiRiscv.Machine

/-! ## §1 Designs -/

structure Design (Args : Type*) where
  capacity : ℕ
  /-- the number of fields -/
  width : ℕ
  values : Args → List UInt32
  length_values : ∀ args, (values args).length = width
  blank : ℕ → UInt32
  /-- the counter before the first call -/
  initial : UInt32
  /-- the sequence number for what `fetch_add` returns -/
  assign : UInt32 → UInt32
  assign_eq : ∀ n, assign (initial + n) = n + 1
  /-- a call stores zero first, and a reader loads the sequence number again -/
  rereads : Bool

variable {Args : Type*}

namespace Design

variable (d : Design Args)

/-- The slot of a sequence number. -/
def slot (sequence : UInt32) : ℕ := (sequence - 1).toNat % d.capacity

def value (args : Args) (p : ℕ) : UInt32 := (d.values args).getD p 0

/-- The first of the stores: the zero, or the first field. -/
def start : ℕ := if d.rereads then 0 else 1

end Design

/-! ## §2 The machine -/

/-- A call; its next store is the zero (`pos = 0`), the field `pos - 1`, or the sequence number
(`pos = width + 1`). -/
structure Call (Args : Type*) where
  args : Args
  sequence : UInt32
  pos : ℕ

structure Reader where
  slot : ℕ
  /-- the sequence number, when it has been loaded -/
  before : Option UInt32
  read : List UInt32

structure Record where
  sequence : UInt32
  fields : List UInt32
  deriving DecidableEq

structure State (Args : Type*) where
  counter : UInt32
  sequence : ℕ → UInt32
  field : ℕ → ℕ → UInt32
  calls : List (Call Args)
  readers : List Reader
  returned : List Record

namespace State

variable (s : State Args)

def stamp (i : ℕ) (v : UInt32) : State Args :=
  { s with sequence := Function.update s.sequence i v }

def put (i p : ℕ) (v : UInt32) : State Args :=
  { s with field := Function.update s.field i (Function.update (s.field i) p v) }

/-- A call has made its next store. -/
def advance (k : ℕ) (call : Call Args) : State Args :=
  { s with calls := s.calls.set k { call with pos := call.pos + 1 } }

def setReader (k : ℕ) (r : Reader) : State Args := { s with readers := s.readers.set k r }

end State

inductive Action (Args : Type*) where
  /-- A call begins with `fetch_add`. -/
  | record (args : Args)
  /-- The next store of a call. -/
  | store (k : ℕ)
  /-- A reader begins with a slot. -/
  | snapshot (slot : ℕ)
  /-- The next load of a reader; it begins again when it has returned a record. -/
  | load (k : ℕ)

variable (d : Design Args)

def init : State Args := ⟨d.initial, fun _ => 0, fun _ => d.blank, [], [], []⟩

def store (s : State Args) (k : ℕ) (call : Call Args) : Option (State Args) :=
  let i := d.slot call.sequence
  if call.pos = 0 then some ((s.stamp i 0).advance k call)
  else if call.pos ≤ d.width then
    some ((s.put i (call.pos - 1) (d.value call.args (call.pos - 1))).advance k call)
  else if call.pos = d.width + 1 then some ((s.stamp i call.sequence).advance k call)
  else none

def load (s : State Args) (k : ℕ) (r : Reader) : State Args :=
  match r.before with
  | none => s.setReader k { r with before := some (s.sequence r.slot) }
  | some before =>
    if r.read.length < d.width then
      s.setReader k { r with read := r.read ++ [s.field r.slot r.read.length] }
    else if d.rereads ∧ s.sequence r.slot ≠ before then s.setReader k ⟨r.slot, none, []⟩
    else
      { s.setReader k ⟨r.slot, none, []⟩ with returned := s.returned ++ [⟨before, r.read⟩] }

def step (s : State Args) : Action Args → Option (State Args)
  | .record args =>
    some { s with
      counter := s.counter + 1
      calls := s.calls ++ [⟨args, d.assign s.counter, d.start⟩] }
  | .store k => (s.calls[k]?).bind (store d s k)
  | .snapshot slot =>
    if slot < d.capacity then some { s with readers := s.readers ++ [⟨slot, none, []⟩] } else none
  | .load k => (s.readers[k]?).map (load d s k)

/-- Every record that was returned is that of the call with its sequence number. -/
def NotTorn (s : State Args) : Prop :=
  ∀ r ∈ s.returned, r.sequence ≠ 0 →
    ∃ call, s.calls[r.sequence.toNat - 1]? = some call ∧ d.values call.args = r.fields

/-! ## §3 Runs without disturbance -/

/-- Between its first store and its last one. -/
def Call.Active (call : Call Args) : Prop := d.start < call.pos ∧ call.pos < d.width + 2

instance (call : Call Args) : Decidable (call.Active d) := inferInstanceAs (Decidable (_ ∧ _))

/-- No call is storing into the slot. -/
def Idle (s : State Args) (i : ℕ) : Prop :=
  ∀ call ∈ s.calls, d.slot call.sequence = i → ¬ call.Active d

instance (s : State Args) (i : ℕ) : Decidable (Idle d s i) :=
  inferInstanceAs (Decidable (∀ call ∈ s.calls, _))

/-- The readers with a sequence number of the slot have loaded the field. -/
def Passed (s : State Args) (i p : ℕ) : Prop :=
  ∀ r ∈ s.readers, r.slot = i → ∀ v ∈ r.before, v ≠ 0 → p < r.read.length

instance (s : State Args) (i p : ℕ) : Decidable (Passed s i p) :=
  inferInstanceAs (Decidable (∀ r ∈ s.readers, r.slot = i → ∀ v ∈ r.before, _))

/-- A call begins to store into an idle slot; without the second load, it stores into a field
behind the readers, and these begin with an idle slot or an empty one. -/
def Undisturbed (s : State Args) : Action Args → Prop
  | .record _ => s.calls.length + 1 < 2 ^ 32
  | .store k => ∀ call ∈ s.calls[k]?,
      (call.pos = d.start → Idle d s (d.slot call.sequence)) ∧
      (d.rereads = false → 0 < call.pos → call.pos ≤ d.width →
        Passed s (d.slot call.sequence) (call.pos - 1))
  | .snapshot _ => True
  | .load k => ∀ r ∈ s.readers[k]?,
      d.rereads = false → r.before = none → s.sequence r.slot ≠ 0 → Idle d s r.slot

instance (s : State Args) : ∀ a, Decidable (Undisturbed d s a)
  | .record _ => inferInstanceAs (Decidable (_ < _))
  | .store k => inferInstanceAs (Decidable (∀ call ∈ s.calls[k]?, _))
  | .snapshot _ => inferInstanceAs (Decidable True)
  | .load k => inferInstanceAs (Decidable (∀ r ∈ s.readers[k]?, _))

/-! ## §4 The invariant -/

/-- The call with the sequence number, which has finished. -/
structure Stamped (s : State Args) (v : UInt32) (call : Call Args) : Prop where
  at_index : s.calls[v.toNat - 1]? = some call
  sequence : call.sequence = v
  finished : call.pos = d.width + 2

/-- A reader has loaded fields of the record that its sequence number belongs to; and without the
second load the other fields are still there. -/
structure Reading (s : State Args) (r : Reader) : Prop where
  fresh : r.before = none → r.read = []
  length_le : r.read.length ≤ d.width
  prefix_of : ∀ v ∈ r.before, v ≠ 0 → ∃ call, Stamped d s v call ∧
    (d.rereads = true → s.sequence r.slot = v →
      r.read = (d.values call.args).take r.read.length) ∧
    (d.rereads = false → r.read = (d.values call.args).take r.read.length ∧
      ∀ p < d.width, r.read.length ≤ p → s.field r.slot p = d.value call.args p)

structure Inv (s : State Args) : Prop where
  count : s.calls.length < 2 ^ 32
  counter : s.counter = d.initial + UInt32.ofNat s.calls.length
  numbered : ∀ k call, s.calls[k]? = some call → call.sequence.toNat = k + 1
  bounded : ∀ call ∈ s.calls, d.start ≤ call.pos ∧ call.pos ≤ d.width + 2
  /-- one call at a time stores into a slot -/
  alone : ∀ (k k' : ℕ) (call call' : Call Args), s.calls[k]? = some call → s.calls[k']? = some call' →
    call.Active d → call'.Active d → d.slot call.sequence = d.slot call'.sequence → k = k'
  written : ∀ call ∈ s.calls, call.Active d → ∀ p < d.width, p + 1 < call.pos →
    s.field (d.slot call.sequence) p = d.value call.args p
  cleared : d.rereads = true → ∀ call ∈ s.calls, call.Active d →
    s.sequence (d.slot call.sequence) = 0
  /-- a slot has the fields of its sequence number but for those that are being replaced -/
  content : ∀ i, s.sequence i ≠ 0 → ∃ call, Stamped d s (s.sequence i) call ∧
    d.slot (s.sequence i) = i ∧ ∀ p < d.width,
      (∀ other ∈ s.calls, other.Active d → d.slot other.sequence = i → other.pos ≤ p + 1) →
        s.field i p = d.value call.args p
  reading : ∀ r ∈ s.readers, Reading d s r
  returned : NotTorn d s

variable {d} {s t : State Args} {k : ℕ} {call : Call Args}

theorem inv_init (d : Design Args) : Inv d (init d) where
  count := by simp [init]
  counter := by simp [init]
  numbered := by simp [init]
  bounded := by simp [init]
  alone := by simp [init]
  written := by simp [init]
  cleared := by simp [init]
  content := by simp [init]
  reading := by simp [init]
  returned := by simp [init, NotTorn]

/-- The call of a sequence number is determined. -/
theorem Stamped.unique {v : UInt32} {call call' : Call Args} (h : Stamped d s v call)
    (h' : Stamped d s v call') : call = call' :=
  Option.some.inj (h.at_index.symm.trans h'.at_index)

/-- A call that has finished makes no further store. -/
theorem Stamped.advance {v : UInt32} {stamped call : Call Args} (h : Stamped d s v stamped)
    (hcall : s.calls[k]? = some call) (hpos : call.pos < d.width + 2)
    (hcalls : t.calls = s.calls.set k { call with pos := call.pos + 1 }) : Stamped d t v stamped := by
  obtain ⟨at_index, sequence, finished⟩ := h
  refine ⟨?_, sequence, finished⟩
  rw [hcalls, List.getElem?_set_ne, at_index]
  rintro rfl
  rw [hcall] at at_index
  cases at_index
  omega

theorem Stamped.append {v : UInt32} {stamped new : Call Args} (h : Stamped d s v stamped)
    (hcalls : t.calls = s.calls ++ [new]) : Stamped d t v stamped := by
  obtain ⟨at_index, sequence, finished⟩ := h
  refine ⟨?_, sequence, finished⟩
  obtain ⟨hlt, -⟩ := List.getElem?_eq_some_iff.mp at_index
  rw [hcalls, List.getElem?_append_left hlt, at_index]

/-- A whole record. -/
theorem values_eq_take (args : Args) : d.values args = (d.values args).take d.width := by
  rw [← d.length_values args, List.take_length]

theorem take_succ_value (args : Args) {n : ℕ} (hn : n < d.width) :
    (d.values args).take (n + 1) = (d.values args).take n ++ [d.value args n] := by
  have hlt : n < (d.values args).length := by rwa [d.length_values]
  rw [List.take_add_one, Design.value, List.getD_eq_getElem?_getD, List.getElem?_eq_getElem hlt]
  rfl

/-! ## §5 Calls -/

section Stores

variable {i j p q : ℕ} {v : UInt32}

theorem sequence_stamp_self : ((s.stamp i v).advance k call).sequence i = v :=
  Function.update_self _ _ _

theorem sequence_stamp_of_ne (h : j ≠ i) :
    ((s.stamp i v).advance k call).sequence j = s.sequence j := Function.update_of_ne h _ _

theorem field_put_self : ((s.put i p v).advance k call).field i p = v := by
  rw [State.advance, State.put]
  dsimp only
  rw [Function.update_self, Function.update_self]

theorem field_put_of_ne (h : j ≠ i ∨ q ≠ p) :
    ((s.put i p v).advance k call).field j q = s.field j q := by
  rw [State.advance, State.put]
  dsimp only
  by_cases hj : j = i
  · rw [hj, Function.update_self, Function.update_of_ne (h.resolve_left (not_not.mpr hj))]
  · rw [Function.update_of_ne hj]

end Stores

theorem start_le_one : d.start ≤ 1 := by
  rw [Design.start]
  split <;> decide

/-- The calls after a call has made a store. -/
theorem getElem?_advance {k' : ℕ} {call' : Call Args}
    (h : (s.calls.set k { call with pos := call.pos + 1 })[k']? = some call') :
    k' = k ∧ call' = { call with pos := call.pos + 1 } ∨ k' ≠ k ∧ s.calls[k']? = some call' := by
  by_cases hk : k' = k
  · subst hk
    obtain ⟨hlt, hget⟩ := List.getElem?_eq_some_iff.mp h
    rw [List.getElem_set_self] at hget
    exact .inl ⟨rfl, hget.symm⟩
  · rw [List.getElem?_set_ne (Ne.symm hk)] at h
    exact .inr ⟨hk, h⟩

theorem mem_advance {call' : Call Args}
    (h : call' ∈ s.calls.set k { call with pos := call.pos + 1 }) :
    call' = { call with pos := call.pos + 1 } ∨ ∃ k', k' ≠ k ∧ s.calls[k']? = some call' := by
  obtain ⟨k', hk'⟩ := List.mem_iff_getElem?.mp h
  rcases getElem?_advance hk' with ⟨-, hcall⟩ | ⟨hne, hold⟩
  · exact .inl hcall
  · exact .inr ⟨k', hne, hold⟩

/-- After its first store a call is alone with its slot: it has been, or the slot was idle. -/
theorem Inv.others_inactive (h : Inv d s) (hcall : s.calls[k]? = some call)
    (hpos : call.pos < d.width + 2) (idle : call.pos = d.start → Idle d s (d.slot call.sequence))
    {k' : ℕ} {other : Call Args} (hne : k' ≠ k) (hother : s.calls[k']? = some other)
    (hslot : d.slot other.sequence = d.slot call.sequence) : ¬ other.Active d := by
  intro active
  obtain ⟨hstart, -⟩ := h.bounded call (List.mem_of_getElem? hcall)
  rcases Nat.eq_or_lt_of_le hstart with heq | hlt
  · exact idle heq.symm other (List.mem_of_getElem? hother) hslot active
  · exact hne (h.alone k' k other call hother hcall active ⟨hlt, hpos⟩ hslot)

/-- What every store keeps. -/
theorem Inv.advance (h : Inv d s) (hcall : s.calls[k]? = some call) (hpos : call.pos < d.width + 2)
    (idle : call.pos = d.start → Idle d s (d.slot call.sequence))
    (hcalls : t.calls = s.calls.set k { call with pos := call.pos + 1 })
    (hcounter : t.counter = s.counter) (hreturned : t.returned = s.returned)
    (written : ∀ call ∈ t.calls, call.Active d → ∀ p < d.width, p + 1 < call.pos →
      t.field (d.slot call.sequence) p = d.value call.args p)
    (cleared : d.rereads = true → ∀ call ∈ t.calls, call.Active d →
      t.sequence (d.slot call.sequence) = 0)
    (content : ∀ i, t.sequence i ≠ 0 → ∃ call, Stamped d t (t.sequence i) call ∧
      d.slot (t.sequence i) = i ∧ ∀ p < d.width,
        (∀ other ∈ t.calls, other.Active d → d.slot other.sequence = i → other.pos ≤ p + 1) →
          t.field i p = d.value call.args p)
    (reading : ∀ r ∈ t.readers, Reading d t r) : Inv d t where
  count := by rw [hcalls, List.length_set]; exact h.count
  counter := by rw [hcalls, List.length_set, hcounter]; exact h.counter
  numbered := by
    intro k' call' hk'
    rw [hcalls] at hk'
    rcases getElem?_advance hk' with ⟨rfl, rfl⟩ | ⟨-, hold⟩
    · exact h.numbered k' call hcall
    · exact h.numbered k' call' hold
  bounded := by
    intro call' hmem
    rw [hcalls] at hmem
    rcases mem_advance hmem with rfl | ⟨k', -, hold⟩
    · have := h.bounded call (List.mem_of_getElem? hcall)
      exact ⟨Nat.le_succ_of_le this.1, hpos⟩
    · exact h.bounded call' (List.mem_of_getElem? hold)
  alone := by
    intro k₁ k₂ call₁ call₂ h₁ h₂ active₁ active₂ hslot
    rw [hcalls] at h₁ h₂
    rcases getElem?_advance h₁ with ⟨rfl, rfl⟩ | ⟨hne₁, old₁⟩ <;>
      rcases getElem?_advance h₂ with ⟨rfl, rfl⟩ | ⟨hne₂, old₂⟩
    · rfl
    · exact absurd active₂ (h.others_inactive hcall hpos idle hne₂ old₂ hslot.symm)
    · exact absurd active₁ (h.others_inactive hcall hpos idle hne₁ old₁ hslot)
    · exact h.alone k₁ k₂ call₁ call₂ old₁ old₂ active₁ active₂ hslot
  written := written
  cleared := cleared
  content := content
  reading := reading
  returned := by
    intro r hr hne
    rw [hreturned] at hr
    obtain ⟨stamped, hstamped, hvalues⟩ := h.returned r hr hne
    by_cases hk : r.sequence.toNat - 1 = k
    · rw [hk, hcall] at hstamped
      cases hstamped
      refine ⟨{ call with pos := call.pos + 1 }, ?_, hvalues⟩
      obtain ⟨hlt, -⟩ := List.getElem?_eq_some_iff.mp hcall
      rw [hk, hcalls, List.getElem?_set_self hlt]
    · exact ⟨stamped, by rw [hcalls, List.getElem?_set_ne (Ne.symm hk), hstamped], hvalues⟩

/-- The calls of the other slots are as they were. -/
theorem others_of_ne {i p : ℕ} (hcall : s.calls[k]? = some call) (hslot : i ≠ d.slot call.sequence)
    (others : ∀ other ∈ s.calls.set k { call with pos := call.pos + 1 }, other.Active d →
      d.slot other.sequence = i → other.pos ≤ p + 1) :
    ∀ other ∈ s.calls, other.Active d → d.slot other.sequence = i → other.pos ≤ p + 1 := by
  intro other hmem active heq
  obtain ⟨k', hk'⟩ := List.mem_iff_getElem?.mp hmem
  have hk : k ≠ k' := by
    rintro rfl
    rw [hcall] at hk'
    cases hk'
    exact hslot heq.symm
  exact others other (List.mem_of_getElem? ((List.getElem?_set_ne hk).trans hk')) active heq

/-- The store of the zero; it is the first one. -/
theorem Inv.clear (h : Inv d s) (hcall : s.calls[k]? = some call) (hpos : call.pos = 0)
    (idle : call.pos = d.start → Idle d s (d.slot call.sequence)) :
    Inv d ((s.stamp (d.slot call.sequence) 0).advance k call) := by
  have hlt : call.pos < d.width + 2 := by omega
  have hstart : d.start = 0 :=
    Nat.le_zero.mp (hpos ▸ (h.bounded call (List.mem_of_getElem? hcall)).1)
  have hrereads : d.rereads = true := by
    by_contra hne
    rw [Design.start, if_neg hne] at hstart
    exact absurd hstart (by decide)
  have hidle := idle (hpos.trans hstart.symm)
  have hzero : ∀ i, ((s.stamp (d.slot call.sequence) 0).advance k call).sequence i ≠ 0 →
      i ≠ d.slot call.sequence := by
    rintro i hi rfl
    exact hi sequence_stamp_self
  refine h.advance hcall hlt idle rfl rfl rfl ?_ ?_ ?_ ?_
  · intro call' hmem active p hp hlt'
    rcases mem_advance hmem with rfl | ⟨k', -, hold⟩
    · dsimp only at hlt'
      omega
    · exact h.written call' (List.mem_of_getElem? hold) active p hp hlt'
  · intro _ call' hmem active
    by_contra hne
    have hslot := hzero _ hne
    rcases mem_advance hmem with rfl | ⟨k', -, hold⟩
    · exact hslot rfl
    · rw [sequence_stamp_of_ne hslot] at hne
      exact hne (h.cleared hrereads call' (List.mem_of_getElem? hold) active)
  · intro i hi
    have hslot := hzero i hi
    rw [sequence_stamp_of_ne hslot] at hi ⊢
    obtain ⟨stamped, hstamped, hi', hfield⟩ := h.content i hi
    refine ⟨stamped, hstamped.advance hcall hlt rfl, hi', fun p hp others => ?_⟩
    exact hfield p hp (others_of_ne hcall hslot others)
  · intro r hr
    obtain ⟨fresh, length_le, prefix_of⟩ := h.reading r hr
    refine ⟨fresh, length_le, fun v hv hne => ?_⟩
    obtain ⟨stamped, hstamped, hread, hsingle⟩ := prefix_of v hv hne
    refine ⟨stamped, hstamped.advance hcall hlt rfl, fun _ hseq => ?_, fun hnot => ?_⟩
    · rw [sequence_stamp_of_ne (hzero r.slot (hseq ▸ hne))] at hseq
      exact hread hrereads hseq
    · rw [hrereads] at hnot
      cases hnot

/-- The store of a field. -/
theorem Inv.put (h : Inv d s) (hcall : s.calls[k]? = some call) (hpos : 0 < call.pos)
    (hwidth : call.pos ≤ d.width)
    (idle : call.pos = d.start → Idle d s (d.slot call.sequence))
    (passed : d.rereads = false → Passed s (d.slot call.sequence) (call.pos - 1)) :
    Inv d ((s.put (d.slot call.sequence) (call.pos - 1)
      (d.value call.args (call.pos - 1))).advance k call) := by
  have hlt : call.pos < d.width + 2 := by omega
  have hmem := List.mem_of_getElem? hcall
  have others : ∀ {k' : ℕ} {other : Call Args}, k' ≠ k → s.calls[k']? = some other →
      d.slot other.sequence = d.slot call.sequence → ¬ other.Active d :=
    h.others_inactive hcall hlt idle
  have before : d.rereads = true → call.Active d := by
    intro hrereads
    rw [Call.Active, Design.start, if_pos hrereads]
    exact ⟨hpos, hlt⟩
  refine h.advance hcall hlt idle rfl rfl rfl ?_ ?_ ?_ ?_
  · intro call' hmem' active p hp hp'
    rcases mem_advance hmem' with rfl | ⟨k', hne, hold⟩
    · dsimp only at hp' ⊢
      by_cases hlast : p = call.pos - 1
      · rw [hlast, field_put_self]
      · rw [field_put_of_ne (.inr hlast)]
        have := start_le_one (d := d)
        exact h.written call hmem ⟨by omega, hlt⟩ p hp (by omega)
    · rw [field_put_of_ne (.inl fun heq => others hne hold heq active)]
      exact h.written call' (List.mem_of_getElem? hold) active p hp hp'
  · intro hrereads call' hmem' active
    rcases mem_advance hmem' with rfl | ⟨k', -, hold⟩
    · exact h.cleared hrereads call hmem (before hrereads)
    · exact h.cleared hrereads call' (List.mem_of_getElem? hold) active
  · intro i hi
    obtain ⟨stamped, hstamped, hi', hfield⟩ := h.content i hi
    refine ⟨stamped, hstamped.advance hcall hlt rfl, hi', fun p hp others' => ?_⟩
    by_cases hslot : i = d.slot call.sequence
    · have hrereads : d.rereads = false := by
        by_contra hne
        rw [Bool.not_eq_false] at hne
        have hcleared := h.cleared hne call hmem (before hne)
        rw [← hslot] at hcleared
        exact hi hcleared
      have hself := others' _ (List.mem_of_getElem? (List.getElem?_set_self
        (List.getElem?_eq_some_iff.mp hcall).1)) ⟨Nat.lt_succ_of_le (h.bounded call hmem).1, by
          dsimp only
          omega⟩ hslot.symm
      dsimp only at hself
      rw [field_put_of_ne (.inr (by omega))]
      refine hfield p hp fun other hother active heq => ?_
      obtain ⟨k', hk'⟩ := List.mem_iff_getElem?.mp hother
      by_cases hk : k' = k
      · subst hk
        rw [hcall] at hk'
        cases hk'
        omega
      · exact absurd active (others hk hk' (heq.trans hslot))
    · rw [field_put_of_ne (.inl hslot)]
      exact hfield p hp (others_of_ne hcall hslot others')
  · intro r hr
    obtain ⟨fresh, length_le, prefix_of⟩ := h.reading r hr
    refine ⟨fresh, length_le, fun v hv hne => ?_⟩
    obtain ⟨stamped, hstamped, hread, hsingle⟩ := prefix_of v hv hne
    refine ⟨stamped, hstamped.advance hcall hlt rfl, hread, fun hnot => ?_⟩
    obtain ⟨htake, hrest⟩ := hsingle hnot
    refine ⟨htake, fun p hp hlen => ?_⟩
    rw [field_put_of_ne, hrest p hp hlen]
    by_cases hslot : r.slot = d.slot call.sequence
    · have := passed hnot r hr hslot v hv hne
      exact .inr (by omega)
    · exact .inl hslot

/-- The store of the sequence number. -/
theorem Inv.finish (h : Inv d s) (hcall : s.calls[k]? = some call) (hpos : call.pos = d.width + 1)
    (idle : call.pos = d.start → Idle d s (d.slot call.sequence)) :
    Inv d ((s.stamp (d.slot call.sequence) call.sequence).advance k call) := by
  have hlt : call.pos < d.width + 2 := by omega
  have hmem := List.mem_of_getElem? hcall
  have hstart := start_le_one (d := d)
  have hindex := h.numbered k call hcall
  have hstamped : Stamped d ((s.stamp (d.slot call.sequence) call.sequence).advance k call)
      call.sequence { call with pos := call.pos + 1 } :=
    { at_index := by
        rw [hindex, Nat.add_sub_cancel]
        exact List.getElem?_set_self (List.getElem?_eq_some_iff.mp hcall).1
      sequence := rfl
      finished := by rw [hpos] }
  -- a call has no sequence number that a slot or a reader has had before
  have hnew : ∀ {v old}, Stamped d s v old → v ≠ call.sequence := by
    rintro v old ⟨at_index, -, finished⟩ rfl
    rw [hindex, Nat.add_sub_cancel, hcall] at at_index
    cases at_index
    omega
  have inactive : ∀ {call' : Call Args}, call' = { call with pos := call.pos + 1 } →
      ¬ call'.Active d := by
    rintro call' rfl ⟨-, hend⟩
    dsimp only at hend
    omega
  refine h.advance hcall hlt idle rfl rfl rfl ?_ ?_ ?_ ?_
  · intro call' hmem' active p hp hp'
    rcases mem_advance hmem' with heq | ⟨k', -, hold⟩
    · exact absurd active (inactive heq)
    · exact h.written call' (List.mem_of_getElem? hold) active p hp hp'
  · intro hrereads call' hmem' active
    rcases mem_advance hmem' with heq | ⟨k', hne, hold⟩
    · exact absurd active (inactive heq)
    · have hslot : d.slot call'.sequence ≠ d.slot call.sequence := fun heq =>
        h.others_inactive hcall hlt idle hne hold heq active
      rw [sequence_stamp_of_ne hslot]
      exact h.cleared hrereads call' (List.mem_of_getElem? hold) active
  · intro i hi
    by_cases hslot : i = d.slot call.sequence
    · subst hslot
      rw [sequence_stamp_self]
      refine ⟨_, hstamped, rfl, fun p hp _ => ?_⟩
      exact h.written call hmem ⟨by omega, hlt⟩ p hp (by omega)
    · rw [sequence_stamp_of_ne hslot] at hi ⊢
      obtain ⟨stamped, hold, hi', hfield⟩ := h.content i hi
      refine ⟨stamped, hold.advance hcall hlt rfl, hi', fun p hp others => ?_⟩
      exact hfield p hp (others_of_ne hcall hslot others)
  · intro r hr
    obtain ⟨fresh, length_le, prefix_of⟩ := h.reading r hr
    refine ⟨fresh, length_le, fun v hv hne => ?_⟩
    obtain ⟨stamped, hold, hread, hsingle⟩ := prefix_of v hv hne
    refine ⟨stamped, hold.advance hcall hlt rfl, fun hrereads hseq => ?_, hsingle⟩
    by_cases hslot : r.slot = d.slot call.sequence
    · rw [hslot, sequence_stamp_self] at hseq
      exact absurd hseq.symm (hnew hold)
    · rw [sequence_stamp_of_ne hslot] at hseq
      exact hread hrereads hseq

theorem Inv.store (h : Inv d s) (hcall : s.calls[k]? = some call)
    (ok : Undisturbed d s (.store k)) (hs : StampedRing.store d s k call = some t) : Inv d t := by
  obtain ⟨idle, passed⟩ := ok call hcall
  rw [StampedRing.store] at hs
  split at hs
  · rename_i hpos
    cases hs
    exact h.clear hcall hpos idle
  · rename_i hpos
    split at hs
    · rename_i hwidth
      cases hs
      have hpos := Nat.pos_of_ne_zero hpos
      exact h.put hcall hpos hwidth idle fun hnot => passed hnot hpos hwidth
    · split at hs
      · rename_i hlast
        cases hs
        exact h.finish hcall hlast idle
      · cases hs

/-- A call takes its sequence number. -/
theorem Inv.record (h : Inv d s) (args : Args) (ok : s.calls.length + 1 < 2 ^ 32) :
    Inv d { s with
      counter := s.counter + 1
      calls := s.calls ++ [⟨args, d.assign s.counter, d.start⟩] } := by
  have hnumber : (d.assign s.counter).toNat = s.calls.length + 1 := by
    have hone : (1 : UInt32).toNat = 1 := rfl
    rw [h.counter, d.assign_eq, UInt32.toNat_add, UInt32.toNat_ofNat', hone,
      Nat.mod_eq_of_lt h.count, Nat.mod_eq_of_lt ok]
  have hnew : ∀ {k' call'}, (s.calls ++ [⟨args, d.assign s.counter, d.start⟩])[k']? = some call' →
      s.calls[k']? = some call' ∨
        k' = s.calls.length ∧ call' = ⟨args, d.assign s.counter, d.start⟩ := by
    intro k' call' hget
    rcases Nat.lt_or_ge k' s.calls.length with hlt | hge
    · rw [List.getElem?_append_left hlt] at hget
      exact .inl hget
    · rw [List.getElem?_append_right hge, List.getElem?_singleton] at hget
      obtain ⟨heq, hcall⟩ := Option.ite_none_right_eq_some.mp hget
      exact .inr ⟨by omega, (Option.some.inj hcall).symm⟩
  have hold : ∀ {call'}, call' ∈ s.calls ++ [⟨args, d.assign s.counter, d.start⟩] →
      call'.Active d → call' ∈ s.calls := by
    intro call' hmem active
    refine (List.mem_append.mp hmem).resolve_right fun hlast => ?_
    rw [List.mem_singleton.mp hlast] at active
    exact absurd active.1 (Nat.lt_irrefl _)
  have hstart := start_le_one (d := d)
  exact
    { count := by rw [List.length_append]; exact ok
      counter := by
        dsimp only
        rw [h.counter, List.length_append, List.length_singleton, UInt32.ofNat_add,
          UInt32.add_assoc]
        rfl
      numbered := by
        intro k' call' hget
        rcases hnew hget with hget | ⟨rfl, rfl⟩
        · exact h.numbered k' call' hget
        · exact hnumber
      bounded := by
        intro call' hmem
        rcases List.mem_append.mp hmem with hmem | hlast
        · exact h.bounded call' hmem
        · rw [List.mem_singleton.mp hlast]
          exact ⟨Nat.le_refl _, by dsimp only; omega⟩
      alone := by
        intro k₁ k₂ call₁ call₂ h₁ h₂ active₁ active₂ hslot
        rcases hnew h₁ with h₁ | ⟨-, rfl⟩
        · rcases hnew h₂ with h₂ | ⟨-, rfl⟩
          · exact h.alone k₁ k₂ call₁ call₂ h₁ h₂ active₁ active₂ hslot
          · exact absurd active₂.1 (Nat.lt_irrefl _)
        · exact absurd active₁.1 (Nat.lt_irrefl _)
      written := fun call' hmem active => h.written call' (hold hmem active) active
      cleared := fun hrereads call' hmem active =>
        h.cleared hrereads call' (hold hmem active) active
      content := by
        intro i hi
        obtain ⟨stamped, hstamped, hi', hfield⟩ := h.content i hi
        refine ⟨stamped, hstamped.append rfl, hi', fun p hp others => hfield p hp ?_⟩
        exact fun other hmem => others other (List.mem_append_left _ hmem)
      reading := by
        intro r hr
        obtain ⟨fresh, length_le, prefix_of⟩ := h.reading r hr
        refine ⟨fresh, length_le, fun v hv hne => ?_⟩
        obtain ⟨stamped, hstamped, hread, hsingle⟩ := prefix_of v hv hne
        exact ⟨stamped, hstamped.append rfl, hread, hsingle⟩
      returned := by
        intro r hr hne
        obtain ⟨call', hcall', hvalues⟩ := h.returned r hr hne
        obtain ⟨hlt, -⟩ := List.getElem?_eq_some_iff.mp hcall'
        exact ⟨call', (List.getElem?_append_left hlt).trans hcall', hvalues⟩ }

/-! ## §6 Readers -/

/-- A step of a reader changes neither the slots nor the calls. -/
theorem Inv.readers (h : Inv d s) (readers : List Reader) (records : List Record)
    (reading : ∀ r ∈ readers, Reading d s r)
    (returned : ∀ r ∈ records, r ∈ s.returned ∨ (r.sequence ≠ 0 → ∃ call,
      s.calls[r.sequence.toNat - 1]? = some call ∧ d.values call.args = r.fields)) :
    Inv d { s with readers, returned := records } :=
  { h with
    content := by
      intro i hi
      obtain ⟨stamped, ⟨at_index, sequence, finished⟩, hi', hfield⟩ := h.content i hi
      exact ⟨stamped, ⟨at_index, sequence, finished⟩, hi', hfield⟩
    reading := by
      intro r hr
      obtain ⟨fresh, length_le, prefix_of⟩ := reading r hr
      refine ⟨fresh, length_le, fun v hv hne => ?_⟩
      obtain ⟨stamped, ⟨at_index, sequence, finished⟩, hread⟩ := prefix_of v hv hne
      exact ⟨stamped, ⟨at_index, sequence, finished⟩, hread⟩
    returned := by
      intro r hr hne
      exact (returned r hr).elim (fun hold => h.returned r hold hne) fun hnew => hnew hne }

theorem reading_blank (s : State Args) (i : ℕ) : Reading d s ⟨i, none, []⟩ where
  fresh := fun _ => rfl
  length_le := Nat.zero_le _
  prefix_of := by
    intro v hv
    cases hv

/-- The fields of a slot that nobody is storing into. -/
theorem Inv.content_of_idle (h : Inv d s) {i : ℕ} (hi : s.sequence i ≠ 0)
    (idle : d.rereads = false → Idle d s i) : ∃ call, Stamped d s (s.sequence i) call ∧
      ∀ p < d.width, s.field i p = d.value call.args p := by
  obtain ⟨stamped, hstamped, -, hfield⟩ := h.content i hi
  refine ⟨stamped, hstamped, fun p hp => hfield p hp fun other hmem active hslot => ?_⟩
  cases hrereads : d.rereads with
  | true =>
    have hcleared := h.cleared hrereads other hmem active
    rw [hslot] at hcleared
    exact absurd hcleared hi
  | false => exact absurd active (idle hrereads other hmem hslot)

variable {r : Reader}

/-- The first load. -/
theorem Inv.reading_first (h : Inv d s) (hr : Reading d s r) (hbefore : r.before = none)
    (idle : d.rereads = false → s.sequence r.slot ≠ 0 → Idle d s r.slot) :
    Reading d s { r with before := some (s.sequence r.slot) } where
  fresh := by
    intro hnone
    cases hnone
  length_le := hr.length_le
  prefix_of := by
    rintro v hv hne
    obtain rfl : s.sequence r.slot = v := Option.some.inj hv
    obtain ⟨stamped, hstamped, hfield⟩ := h.content_of_idle hne fun hnot => idle hnot hne
    have hnil : r.read = (d.values stamped.args).take r.read.length := by
      rw [hr.fresh hbefore]
      rfl
    exact ⟨stamped, hstamped, fun _ _ => hnil, fun _ => ⟨hnil, fun p hp _ => hfield p hp⟩⟩

/-- The load of a field. -/
theorem Inv.reading_field (h : Inv d s) (hr : Reading d s r) (hwidth : r.read.length < d.width)
    (hbefore : r.before ≠ none) :
    Reading d s { r with read := r.read ++ [s.field r.slot r.read.length] } where
  fresh := fun hnone => absurd hnone hbefore
  length_le := by
    rw [List.length_append]
    exact hwidth
  prefix_of := by
    intro v hv hne
    obtain ⟨stamped, hstamped, hread, hsingle⟩ := hr.prefix_of v hv hne
    have hnext : ∀ {value}, r.read = (d.values stamped.args).take r.read.length →
        value = d.value stamped.args r.read.length → r.read ++ [value] =
          (d.values stamped.args).take (r.read ++ [value]).length := by
      intro value htake hvalue
      rw [List.length_append, List.length_singleton, take_succ_value _ hwidth, ← htake, hvalue]
    refine ⟨stamped, hstamped, ?_, ?_⟩
    · intro hrereads hseq
      have hseq : s.sequence r.slot = v := hseq
      obtain ⟨current, hcurrent, hfield⟩ := h.content_of_idle (hseq ▸ hne) fun hnot =>
        absurd (hrereads.symm.trans hnot) (by decide)
      rw [hseq] at hcurrent
      rw [hcurrent.unique hstamped] at hfield
      exact hnext (hread hrereads hseq) (hfield _ hwidth)
    · intro hnot
      obtain ⟨htake, hrest⟩ := hsingle hnot
      refine ⟨hnext htake (hrest _ hwidth (Nat.le_refl _)), fun p hp hlen => hrest p hp ?_⟩
      rw [List.length_append] at hlen
      exact Nat.le_of_succ_le hlen

/-- The record that a reader returns. -/
theorem Reading.whole (hr : Reading d s r) {before : UInt32} (hbefore : r.before = some before)
    (hwidth : ¬ r.read.length < d.width)
    (hsame : ¬ (d.rereads = true ∧ s.sequence r.slot ≠ before)) (hne : before ≠ 0) :
    ∃ call, s.calls[before.toNat - 1]? = some call ∧ d.values call.args = r.read := by
  obtain ⟨stamped, hstamped, hread, hsingle⟩ := hr.prefix_of before hbefore hne
  have hlen : r.read.length = d.width := Nat.le_antisymm hr.length_le (Nat.le_of_not_lt hwidth)
  refine ⟨stamped, hstamped.at_index, ?_⟩
  rw [values_eq_take, ← hlen]
  cases hrereads : d.rereads with
  | true =>
    exact (hread hrereads (not_not.mp fun h => hsame ⟨hrereads, h⟩)).symm
  | false => exact (hsingle hrereads).1.symm

theorem Inv.load (h : Inv d s) (hr : s.readers[k]? = some r) (ok : Undisturbed d s (.load k)) :
    Inv d (StampedRing.load d s k r) := by
  have idle := ok r hr
  have hreading := h.reading r (List.mem_of_getElem? hr)
  have hset : ∀ {r'}, Reading d s r' → ∀ x ∈ s.readers.set k r', Reading d s x := by
    intro r' hr' x hx
    rcases List.mem_or_eq_of_mem_set hx with hx | rfl
    · exact h.reading x hx
    · exact hr'
  rw [StampedRing.load]
  split
  · rename_i hbefore
    exact h.readers _ _ (hset (h.reading_first hreading hbefore fun hnot => idle hnot hbefore))
      fun _ => .inl
  · rename_i before hbefore
    split
    · rename_i hwidth
      refine h.readers _ _ (hset (h.reading_field hreading hwidth ?_)) fun _ => .inl
      rw [hbefore]
      exact Option.some_ne_none _
    · rename_i hwidth
      split
      · exact h.readers _ _ (hset (reading_blank s _)) fun _ => .inl
      · rename_i hsame
        refine h.readers _ _ (hset (reading_blank s _)) fun x hx => ?_
        rcases List.mem_append.mp hx with hx | hlast
        · exact .inl hx
        · rw [List.mem_singleton.mp hlast]
          exact .inr (hreading.whole hbefore hwidth hsame)

/-! ## §7 The result -/

theorem inv_step {a : Action Args} (h : Inv d s) (ok : Undisturbed d s a)
    (hs : step d s a = some t) : Inv d t := by
  cases a with
  | record args =>
    cases hs
    exact h.record args ok
  | store k =>
    obtain ⟨call, hcall, hs⟩ := Option.bind_eq_some_iff.mp hs
    exact h.store hcall ok hs
  | snapshot slot =>
    obtain ⟨-, hs⟩ := Option.ite_none_right_eq_some.mp hs
    cases hs
    refine h.readers _ _ (fun r hr => ?_) fun _ => .inl
    rcases List.mem_append.mp hr with hr | hlast
    · exact h.reading r hr
    · rw [List.mem_singleton.mp hlast]
      exact reading_blank s slot
  | load k =>
    obtain ⟨r, hr, rfl⟩ := Option.map_eq_some_iff.mp hs
    exact h.load hr ok

theorem not_torn {acts : List (Action Args)} (h : Steps (step d) (Undisturbed d) (init d) acts s) :
    NotTorn d s :=
  (h.invariant (inv_init d) fun _ _ _ hI ok hs => inv_step hI ok hs).returned

end HisiRiscv.StampedRing
