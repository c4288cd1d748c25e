/-
HisiRiscv.Osal.DiagnosticRings — the diagnostic rings of `alloc.rs` and `upstream_supplicant.rs`.

`record_free` and `record_allocation` store zero as sequence number first, and their
readers load the sequence number twice; `AssociationAttempt::record` and `snapshot` do neither.
All three are rings of slots with sequence numbers (`StampedRing`), and their records are whole
as long as no call stores into a slot that another call stores into, or, for the associations,
that a reader reads (`records_not_torn`).

Translation notes. Pointers and sizes have 32 bits. A snapshot of the ring is a reading
of each slot, and any number of readings of any slots run at the same time. The clock
is read when the call takes its sequence number. Orderings are left out: each atomic operation
is one step.
-/
import HisiRiscv.Lib.StampedRing
import HisiRiscv.Lib.Tlv

namespace HisiRiscv.Osal.DiagnosticRings

open HisiRiscv.Machine StampedRing

/-- The arguments of `record_free`. -/
structure Free where
  pointer : UInt32
  caller : UInt32

/-- The arguments of `record_allocation`. -/
structure Allocation where
  pointer : UInt32
  size : UInt32
  caller : UInt32

/-- The arguments of `AssociationAttempt::record`, and the time. -/
structure Association where
  monotonicMs : UInt64
  rawStatus : UInt16
  status : UInt16
  responseIes : List UInt8

def noComebackInterval : UInt32 := 0xffffffff

/-- The interval of a timeout element. -/
def comebackOf (e : Tlv.Element) : Option UInt32 :=
  match e.body with
  | [kind, a, b, c, d] =>
    if e.id = 56 ∧ kind = 3 then
      some (a.toUInt32 ||| b.toUInt32 <<< 8 ||| c.toUInt32 <<< 16 ||| d.toUInt32 <<< 24)
    else none
  | _ => none

def associationComebackInterval (ies : List UInt8) : Option UInt32 :=
  (Tlv.complete ies).findSome? comebackOf

def freeTrace : Design Free where
  capacity := 16
  width := 2
  values := fun free => [free.pointer, free.caller]
  length_values := fun _ => rfl
  blank := fun _ => 0
  initial := 0
  assign := fun n => n + 1
  assign_eq := fun n => by rw [UInt32.zero_add]
  rereads := true

def allocationTrace : Design Allocation where
  capacity := 16
  width := 3
  values := fun allocation => [allocation.pointer, allocation.size, allocation.caller]
  length_values := fun _ => rfl
  blank := fun _ => 0
  initial := 0
  assign := fun n => n + 1
  assign_eq := fun n => by rw [UInt32.zero_add]
  rereads := true

/-- `DIAG_ASSOCIATION_ATTEMPTS`; the counter begins with 1. -/
def associationAttempts : Design Association where
  capacity := 8
  width := 5
  values := fun association =>
    [association.monotonicMs.toUInt32, association.rawStatus.toUInt32,
      association.status.toUInt32, UInt32.ofNat association.responseIes.length,
      (associationComebackInterval association.responseIes).getD noComebackInterval]
  length_values := fun _ => rfl
  blank := fun p => if p = 4 then noComebackInterval else 0
  initial := 1
  assign := fun n => n
  assign_eq := fun n => UInt32.add_comm 1 n
  rereads := false

/-- The three rings. -/
inductive Ring where
  | free
  | allocation
  | association

abbrev Ring.Args : Ring → Type
  | .free => Free
  | .allocation => Allocation
  | .association => Association

def Ring.design : (ring : Ring) → Design ring.Args
  | .free => freeTrace
  | .allocation => allocationTrace
  | .association => associationAttempts

/-- Fewer than 2^32 calls. -/
def Bounded {Args : Type} (s : State Args) : Action Args → Prop
  | .record _ => s.calls.length + 1 < 2 ^ 32
  | _ => True

instance {Args : Type} (s : State Args) : ∀ a, Decidable (Bounded s a)
  | .record _ => inferInstanceAs (Decidable (_ < _))
  | .store _ => inferInstanceAs (Decidable True)
  | .snapshot _ => inferInstanceAs (Decidable True)
  | .load _ => inferInstanceAs (Decidable True)

/-- In every run without disturbance, every record that is returned is that of one call. -/
theorem records_not_torn (ring : Ring) {acts : List (Action ring.Args)} {s : State ring.Args}
    (h : Steps (step ring.design) (Undisturbed ring.design) (init ring.design) acts s) :
    NotTorn ring.design s :=
  not_torn h

/-- A reader begins between the stores of the call and reads again. -/
def retryRun : List (Action Free) :=
  [.record ⟨0x1000, 0x20⟩, .snapshot 0, .store 0, .store 0, .store 0, .load 0, .load 0, .load 0,
    .store 0, .load 0, .load 0, .load 0, .load 0, .load 0]

/-- An attempt is read while the next one, with its timeout element, is stored; the reader of the
second slot begins after that and reads while the third is stored. -/
def associationsRun : List (Action Association) :=
  [.record ⟨100, 30, 30, []⟩, .store 0, .store 0, .store 0, .store 0, .store 0, .store 0,
    .snapshot 0, .record ⟨200, 8030, 30, [56, 5, 3, 44, 1, 0, 0]⟩, .load 0, .store 1, .load 0,
    .store 1, .load 0, .store 1, .load 0, .store 1, .load 0, .store 1, .load 0, .load 0, .store 1,
    .snapshot 1, .load 1, .record ⟨300, 0, 0, []⟩, .store 2, .load 1, .load 1, .store 2, .load 1,
    .load 1, .load 1, .load 1]

theorem records_not_torn_retry :
    (∃ s : State Free, s.returned = [⟨1, [0x1000, 0x20]⟩] ∧ NotTorn (Ring.free).design s) ∧
    ∃ s : State Association,
      s.returned = [⟨1, [100, 30, 30, 0, noComebackInterval]⟩, ⟨2, [200, 8030, 30, 7, 300]⟩] ∧
        NotTorn (Ring.association).design s := by
  have hfree : (run (guarded (step freeTrace) (Undisturbed freeTrace)) (init freeTrace) retryRun).map
      State.returned = some [⟨1, [0x1000, 0x20]⟩] := by decide +kernel
  have hassociation : (run (guarded (step associationAttempts) (Undisturbed associationAttempts))
      (init associationAttempts) associationsRun).map State.returned =
      some [⟨1, [100, 30, 30, 0, noComebackInterval]⟩, ⟨2, [200, 8030, 30, 7, 300]⟩] := by
    decide +kernel
  obtain ⟨s, hs, hreturned⟩ := Option.map_eq_some_iff.mp hfree
  obtain ⟨t, ht, hattempts⟩ := Option.map_eq_some_iff.mp hassociation
  exact ⟨⟨s, hreturned, records_not_torn .free (Steps.of_run_guarded hs)⟩,
    t, hattempts, records_not_torn .association (Steps.of_run_guarded ht)⟩

/-- The first call is interrupted between its two fields; the seventeenth has the same slot. -/
def lappedRun : List (Action Free) :=
  [.record ⟨0x1000, 0x20⟩, .store 0, .store 0] ++
    List.replicate 16 (.record ⟨0x2000, 0x40⟩) ++
    [.store 16, .store 16, .store 16, .store 16, .store 0, .snapshot 0, .load 0, .load 0, .load 0,
      .load 0]

theorem free_torn : ∃ s : State Free,
    Steps (step freeTrace) Bounded (init freeTrace) lappedRun s ∧ ¬ NotTorn freeTrace s := by
  have hrun : (run (guarded (step freeTrace) Bounded) (init freeTrace) lappedRun).map
      (fun s => (s.returned, (s.calls[16]?).map Call.args |>.map freeTrace.values)) =
      some ([⟨17, [0x2000, 0x20]⟩], some [0x2000, 0x40]) := by decide +kernel
  obtain ⟨s, hs, hlast⟩ := Option.map_eq_some_iff.mp hrun
  obtain ⟨hreturned, hcall⟩ := Prod.mk.inj hlast
  refine ⟨s, Steps.of_run_guarded hs, fun h => ?_⟩
  have hmem : (⟨17, [0x2000, 0x20]⟩ : Record) ∈ s.returned := by
    rw [hreturned]
    exact List.mem_singleton_self _
  obtain ⟨call, hget, hvalues⟩ := h _ hmem (by decide)
  have hget : s.calls[16]? = some call := hget
  have hvalues : freeTrace.values call.args = [0x2000, 0x20] := hvalues
  rw [hget] at hcall
  have hlast : freeTrace.values call.args = [0x2000, 0x40] := Option.some.inj hcall
  rw [hvalues] at hlast
  exact absurd hlast (by decide)

/-- The ninth attempt has the slot that a reader is reading. -/
def overtakenRun : List (Action Association) :=
  [.record ⟨100, 30, 30, []⟩, .store 0, .store 0, .store 0, .store 0, .store 0, .store 0,
    .snapshot 0, .load 0] ++
    List.replicate 8 (.record ⟨200, 0, 0, []⟩) ++
    [.store 8, .load 0, .load 0, .load 0, .load 0, .load 0, .load 0]

theorem association_torn : ∃ s : State Association,
    Steps (step associationAttempts) Bounded (init associationAttempts) overtakenRun s ∧
      ¬ NotTorn associationAttempts s := by
  have hrun : (run (guarded (step associationAttempts) Bounded) (init associationAttempts)
      overtakenRun).map (fun s => (s.returned.map fun r => (r.sequence, r.fields.head?),
        (s.calls[0]?).map fun call => (associationAttempts.values call.args).head?)) =
      some ([(1, some 200)], some (some 100)) := by decide +kernel
  obtain ⟨s, hs, hlast⟩ := Option.map_eq_some_iff.mp hrun
  obtain ⟨hreturned, hcall⟩ := Prod.mk.inj hlast
  refine ⟨s, Steps.of_run_guarded hs, fun h => ?_⟩
  obtain ⟨r, hmem, hr⟩ := List.mem_map.mp (hreturned ▸ List.mem_singleton_self _ :
    ((1 : UInt32), some (200 : UInt32)) ∈ s.returned.map fun r => (r.sequence, r.fields.head?))
  obtain ⟨hsequence, hhead⟩ := Prod.mk.inj hr
  obtain ⟨call, hget, hvalues⟩ := h r hmem (by rw [hsequence]; decide)
  rw [hsequence] at hget
  have hget : s.calls[0]? = some call := hget
  rw [hget] at hcall
  have hfirst : (associationAttempts.values call.args).head? = some 100 := Option.some.inj hcall
  rw [hvalues, hhead] at hfirst
  exact absurd hfirst (by decide)

theorem not_records_not_torn :
    (¬ ∀ acts s, Steps (step (Ring.free).design) Bounded (init (Ring.free).design) acts s →
      NotTorn (Ring.free).design s) ∧
    ¬ ∀ acts s, Steps (step (Ring.association).design) Bounded (init (Ring.association).design)
      acts s → NotTorn (Ring.association).design s := by
  obtain ⟨s, hs, htorn⟩ := free_torn
  obtain ⟨t, ht, htorn'⟩ := association_torn
  exact ⟨fun h => htorn (h _ s hs), fun h => htorn' (h _ t ht)⟩

end HisiRiscv.Osal.DiagnosticRings
