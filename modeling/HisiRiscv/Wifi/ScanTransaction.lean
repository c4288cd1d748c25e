/-
HisiRiscv.Wifi.ScanTransaction — `Wifi::scan` against the callback `scan_event`.

`SCAN_STATE` is read and written in critical sections only, `SCAN_RESULTS`
outside of them: a result callback reserves a slot in its critical section
and writes it later, the waiter copies slot by slot after `finish_scan`.
One step is one critical section, one slot written, one slot copied, one
reading of the clock or one vendor call. Callbacks run between any two
steps of the waiter and of each other.

Translation notes. There is one waiter: `scan` takes `&mut self` of a
handle that is claimed once. An event without payload or of another length
than its descriptor does nothing and is no action. A result is converted
between reservation and write, from the payload alone, so a `Writer`
carries the value it will store.

History variables: every event carries the number of the scan the vendor
emits it for, 0 for a scan that no `Wifi::scan` began; `scan` is the number
of the current one; `delivered` lists its results in callback order,
`reserved` counts those that got a slot, `doneBy` is the scan whose
scan-done was the last to set `done`.

  §1 State and steps.
  §2 What belongs to a scan.
  §3 The invariant.
  §4 Main results.
-/
import HisiRiscv.Lib.Machine
import HisiRiscv.Wifi.ScanResult

namespace HisiRiscv.Wifi.ScanTransaction

open HisiRiscv.Machine
open HisiRiscv.Supplicant (maxScanResults)

/-! ## §1 State and steps -/

/-- The program counter of the waiter. -/
inductive Caller where
  | idle
  /-- In `IOCTL_SCAN`. -/
  | ioctl
  /-- Before `started_at` is read. -/
  | started
  /-- At the head of the loop. -/
  | polling (startedAt : UInt64)
  /-- Not done, before the deadline is checked. -/
  | clock (startedAt : UInt64)
  /-- Before `finish_scan`; then the call fails or copies that many results. -/
  | finishing (next : Except Error Nat)
  /-- `output` has been copied so far. -/
  | copying (copyLen : Nat) (output : List ScanResult)
  deriving DecidableEq

/-- A callback between its reservation and the write of its slot. -/
structure Writer where
  scan : Nat
  slot : Fin maxScanResults
  result : ScanResult

structure State where
  active : Bool
  done : Bool
  count : Nat
  status : ScanStatus
  results : Fin maxScanResults → ScanResult
  writers : List Writer
  caller : Caller
  /-- The arguments of the last call and what it returned. -/
  outputLen : Nat
  timeoutMs : UInt32
  returned : Option (Except Error (List ScanResult))
  scan : Nat
  delivered : List ScanResult
  reserved : Nat
  doneBy : Option Nat

def init : State where
  active := false
  done := false
  count := 0
  status := .success
  results := fun _ => .empty
  writers := []
  caller := .idle
  outputLen := 0
  timeoutMs := 0
  returned := none
  scan := 0
  delivered := []
  reserved := 0
  doneBy := none

inductive Action where
  /-- `Wifi::scan` is called. -/
  | scan (outputLen : Nat) (timeoutMs : UInt32)
  | ioctlReturns (result : Int32)
  /-- The waiter reads `monotonic_ms`. -/
  | clock (now : UInt64)
  /-- A step of the waiter that needs no answer. -/
  | advance
  /-- The critical section of a result callback. -/
  | scanResult (scan : Nat) (vendor : VendorScanResult)
  /-- Callback number `k` writes its slot. -/
  | write (k : Nat)
  /-- The critical section of a done callback. -/
  | scanDone (scan : Nat) (raw : UInt8)

namespace State

/-- The first critical section of `scan`. -/
def startScan (s : State) (outputLen : Nat) (timeoutMs : UInt32) : State :=
  if s.active then { s with outputLen, timeoutMs, returned := some (.error .busy) }
  else
    { s with
      active := true
      done := false
      count := 0
      status := .success
      caller := .ioctl
      outputLen
      timeoutMs
      returned := none
      scan := s.scan + 1
      delivered := []
      reserved := 0
      doneBy := none }

/-- A result of the current scan enters the history. -/
def deliver (s : State) (scan : Nat) (result : ScanResult) : State :=
  if scan = s.scan then { s with delivered := s.delivered ++ [result] } else s

/-- The critical section of a result callback. -/
def reserve (s : State) (scan : Nat) (result : ScanResult) : State :=
  if h : s.active = true ∧ s.count < maxScanResults then
    { s with
      count := s.count + 1
      writers := s.writers ++ [⟨scan, ⟨s.count, h.2⟩, result⟩]
      reserved := if scan = s.scan then s.reserved + 1 else s.reserved }
  else s

/-- The critical section of a done callback. -/
def scanDone (s : State) (scan : Nat) (raw : UInt8) : State :=
  if s.active then
    { s with status := .fromRaw raw.toUInt32, done := true, doneBy := some scan }
  else s

/-- The slot of callback `k` is written, and the callback returns. -/
def write (s : State) (k : Nat) : Option State :=
  s.writers[k]?.map fun w =>
    { s with
      results := Function.update s.results w.slot w.result
      writers := s.writers.eraseIdx k }

/-- What the waiter does once it has read `done`. -/
def afterDone (s : State) : Except Error Nat :=
  if s.status ≠ .success then .error (.scanFailed s.status) else .ok (min s.count s.outputLen)

/-- A reading of the clock: `started_at`, or the check of the deadline. -/
def clock (s : State) (now : UInt64) : Option State :=
  match s.caller with
  | .started => some { s with caller := .polling now }
  | .clock startedAt =>
      if s.timeoutMs.toUInt64 ≤ now - startedAt then
        some { s with caller := .finishing (.error .timeout) }
      else some { s with caller := .polling startedAt }
  | .idle | .ioctl | .polling _ | .finishing _ | .copying _ _ => none

/-- The next slot is copied, if there is one; a copy past the end of
`SCAN_RESULTS` would panic. -/
def copy (s : State) (copyLen : Nat) (output : List ScanResult) : Option State :=
  if output.length < copyLen then
    if h : output.length < maxScanResults then
      some { s with caller := .copying copyLen (output ++ [s.results ⟨output.length, h⟩]) }
    else none
  else some { s with caller := .idle, returned := some (.ok output) }

def advance (s : State) : Option State :=
  match s.caller with
  | .polling startedAt =>
      some { s with
        caller := if s.done then .finishing s.afterDone else .clock startedAt }
  | .finishing (.error e) =>
      some { s with active := false, caller := .idle, returned := some (.error e) }
  | .finishing (.ok copyLen) => some { s with active := false, caller := .copying copyLen [] }
  | .copying copyLen output => s.copy copyLen output
  | .idle | .ioctl | .started | .clock _ => none

end State

/-- No callback runs before the scan it belongs to. -/
def step (s : State) : Action → Option State
  | .scan outputLen timeoutMs =>
      if s.caller = .idle then some (s.startScan outputLen timeoutMs) else none
  | .ioctlReturns result =>
      if s.caller = .ioctl then
        some { s with
          caller := if result ≠ 0 then .finishing (.error (.startScan result)) else .started }
      else none
  | .clock now => s.clock now
  | .advance => s.advance
  | .scanResult scan vendor =>
      if scan ≤ s.scan then
        some ((s.deliver scan (.ofVendor vendor)).reserve scan (.ofVendor vendor))
      else none
  | .write k => s.write k
  | .scanDone scan raw => if scan ≤ s.scan then some (s.scanDone scan raw) else none

/-! ## §2 What belongs to a scan -/

/-- `output` is what the current scan should have returned. -/
structure State.Belongs (s : State) (output : List ScanResult) : Prop where
  length_eq : output.length = min (min s.reserved maxScanResults) s.outputLen
  doneBy_eq : s.doneBy = some s.scan
  results_eq : output = s.delivered.take output.length

/-- The waiter has read `done` and is before `finish_scan`. -/
def Caller.closing : Caller → Bool
  | .finishing (.ok _) => true
  | .idle | .ioctl | .started | .polling _ | .clock _ | .finishing (.error _) | .copying _ _ =>
      false

/-- No callback of an earlier scan gets into the current one, and a slot is
written before it is copied:
a result callback takes a slot of its own scan only, and no more once the
waiter has read `done`, unless `output` is full anyway; a done callback ends
its own scan only; no callback of an earlier scan writes a slot that has been
reserved since; and the waiter copies no slot that its callback has not yet
written. -/
def Orderly (s : State) : Action → Prop
  | .scanResult scan _ =>
      s.active = true → s.count < maxScanResults →
        scan = s.scan ∧ (s.caller.closing = true → s.outputLen ≤ s.count)
  | .scanDone scan _ => s.active = true → scan = s.scan
  | .write k =>
      ∀ w ∈ s.writers[k]?, w.scan ≠ s.scan → s.caller ≠ .idle → s.count ≤ w.slot.val
  | .advance =>
      match s.caller with
      | .copying copyLen output =>
          output.length < copyLen → ∀ w ∈ s.writers, w.scan = s.scan → w.slot.val ≠ output.length
      | _ => True
  | .scan _ _ | .ioctlReturns _ | .clock _ => True

instance decidableOrderly (s : State) : (a : Action) → Decidable (Orderly s a)
  | .scanResult scan _ =>
      inferInstanceAs (Decidable (s.active = true → s.count < maxScanResults →
        scan = s.scan ∧ (s.caller.closing = true → s.outputLen ≤ s.count)))
  | .scanDone scan _ => inferInstanceAs (Decidable (s.active = true → scan = s.scan))
  | .write k =>
      inferInstanceAs (Decidable (∀ w ∈ s.writers[k]?,
        w.scan ≠ s.scan → s.caller ≠ .idle → s.count ≤ w.slot.val))
  | .advance =>
      match h : s.caller with
      | .copying copyLen output =>
          decidable_of_iff (output.length < copyLen →
            ∀ w ∈ s.writers, w.scan = s.scan → w.slot.val ≠ output.length) (by simp only [Orderly, h])
      | .idle | .ioctl | .started | .polling _ | .clock _ | .finishing _ =>
          .isTrue (by simp only [Orderly, h])
  | .scan _ _ | .ioctlReturns _ | .clock _ => .isTrue trivial

/-! ## §3 The invariant -/

/-- `SCAN_STATE.active` is set. -/
def Caller.scanning : Caller → Bool
  | .idle | .copying _ _ => false
  | .ioctl | .started | .polling _ | .clock _ | .finishing _ => true

/-- What the waiter knows about the current scan. -/
def State.Known (s : State) : Prop :=
  match s.caller with
  | .finishing (.ok copyLen) =>
      s.doneBy = some s.scan ∧ copyLen = min s.count s.outputLen
  | .copying copyLen output =>
      s.doneBy = some s.scan ∧ copyLen = min s.count s.outputLen ∧ output.length ≤ copyLen ∧
        output = s.delivered.take output.length
  | .idle | .ioctl | .started | .polling _ | .clock _ | .finishing (.error _) => True

structure Inv (s : State) : Prop where
  active_eq : s.active = s.caller.scanning
  writers_le : ∀ w ∈ s.writers, w.scan ≤ s.scan
  reserved_eq : s.reserved = s.count
  count_le : s.count ≤ min s.delivered.length maxScanResults
  /-- while the scan is active every result up to the cap has a slot -/
  count_eq : s.active = true → s.count = min s.delivered.length maxScanResults
  /-- a callback of the current scan will store the result its slot is for -/
  writer : ∀ w ∈ s.writers, w.scan = s.scan →
    w.slot.val < s.count ∧ s.delivered[w.slot.val]? = some w.result
  /-- and a slot without such a callback holds that result already -/
  slots : s.caller ≠ .idle → ∀ i : Fin maxScanResults, i.val < s.count →
    s.delivered[i.val]? = some (s.results i) ∨ ∃ w ∈ s.writers, w.scan = s.scan ∧ w.slot = i
  done : s.active = true → s.done = true → s.doneBy = some s.scan
  known : s.Known
  returned_idle : ∀ result, s.returned = some result → s.caller = .idle
  returned : ∀ output, s.returned = some (.ok output) → s.Belongs output

theorem inv_init : Inv init where
  active_eq := rfl
  writers_le := nofun
  reserved_eq := rfl
  count_le := Nat.zero_le _
  count_eq := nofun
  writer := nofun
  slots := fun h => absurd rfl h
  done := nofun
  known := trivial
  returned_idle := nofun
  returned := nofun

section Steps

variable {s t : State}

theorem Inv.not_idle (h : Inv s) (hactive : s.active = true) : s.caller ≠ .idle := by
  intro hcaller
  have heq := h.active_eq
  rw [hactive, hcaller] at heq
  cases heq

/-- Whatever went before, a scan starts afresh. -/
theorem inv_startScan (hactive : s.active = false) (hwriters : ∀ w ∈ s.writers, w.scan ≤ s.scan)
    (outputLen : Nat) (timeoutMs : UInt32) : Inv (s.startScan outputLen timeoutMs) := by
  unfold State.startScan
  rw [if_neg (by simp [hactive])]
  exact
    { active_eq := rfl
      writers_le := fun w hw => Nat.le_succ_of_le (hwriters w hw)
      reserved_eq := rfl
      count_le := Nat.zero_le _
      count_eq := fun _ => rfl
      -- the callbacks underway are all of earlier scans now
      writer := fun w hw heq => absurd (hwriters w hw) (by dsimp only at heq; omega)
      slots := fun _ i hi => absurd hi (Nat.not_lt_zero _)
      done := nofun
      known := trivial
      returned_idle := nofun
      returned := nofun }

/-- A step of the waiter that only moves its program counter. -/
theorem inv_move (h : Inv s) {caller : Caller} (hscan : caller.scanning = s.caller.scanning)
    (hidle : s.caller ≠ .idle) (hknown : State.Known { s with caller }) :
    Inv { s with caller } :=
  { h with
    active_eq := h.active_eq.trans hscan.symm
    slots := fun _ => h.slots hidle
    known := hknown
    returned_idle := fun result hr => absurd (h.returned_idle result hr) hidle
    returned := fun _ ho => absurd (h.returned_idle _ ho) hidle }

theorem inv_clock (h : Inv s) {now : UInt64} (hs : s.clock now = some t) : Inv t := by
  unfold State.clock at hs
  split at hs
  · rename_i hcaller
    cases hs
    exact inv_move h (by rw [hcaller]; rfl) (by rw [hcaller]; nofun) trivial
  · rename_i startedAt hcaller
    split at hs
    · cases hs
      exact inv_move h (by rw [hcaller]; rfl) (by rw [hcaller]; nofun) trivial
    · cases hs
      exact inv_move h (by rw [hcaller]; rfl) (by rw [hcaller]; nofun) trivial
  all_goals cases hs

theorem inv_finish (h : Inv s) {next : Except Error Nat} (hcaller : s.caller = .finishing next)
    (hs : s.advance = some t) : Inv t := by
  have hidle : s.caller ≠ .idle := by rw [hcaller]; nofun
  have hknown := h.known
  unfold State.advance at hs
  unfold State.Known at hknown
  rw [hcaller] at hs hknown
  cases next with
  | error e =>
    cases hs
    exact { h with
      active_eq := rfl
      count_eq := nofun
      slots := fun hne => absurd rfl hne
      done := nofun
      known := trivial
      returned_idle := fun _ _ => rfl
      returned := nofun }
  | ok copyLen =>
    cases hs
    exact { h with
      active_eq := rfl
      count_eq := nofun
      slots := fun _ => h.slots hidle
      done := nofun
      known := ⟨hknown.1, hknown.2, Nat.zero_le _, rfl⟩
      returned_idle := fun result hr => absurd (h.returned_idle result hr) hidle
      returned := fun _ ho => absurd (h.returned_idle _ ho) hidle }

/-- The waiter copies the slot of the next result, and nothing else is in it. -/
theorem inv_copy (h : Inv s) {copyLen : Nat} {output : List ScanResult}
    (hcaller : s.caller = .copying copyLen output) (hok : Orderly s .advance)
    (hs : s.copy copyLen output = some t) : Inv t := by
  have hidle : s.caller ≠ .idle := by rw [hcaller]; nofun
  have hcount := h.count_le
  have hknown := h.known
  unfold State.Known at hknown
  rw [hcaller] at hknown
  obtain ⟨hdone, hlen, hle, hout⟩ := hknown
  unfold State.copy at hs
  split at hs
  · rename_i hlt
    split at hs
    · rename_i hbound
      cases hs
      simp only [Orderly, hcaller] at hok
      have hslot : s.delivered[output.length]? = some (s.results ⟨output.length, hbound⟩) := by
        rcases h.slots hidle ⟨output.length, hbound⟩ (by dsimp only; omega) with hsome | ⟨w, hw, hscan, hw'⟩
        · exact hsome
        · exact absurd (congrArg Fin.val hw') (hok hlt w hw hscan)
      refine inv_move h (by rw [hcaller]; rfl) hidle ⟨hdone, hlen, ?_, ?_⟩
      · simp only [List.length_append, List.length_singleton]
        omega
      · dsimp only
        rw [List.length_append, List.length_singleton, List.take_add_one, hslot, ← hout]
        rfl
    · cases hs
  · rename_i hge
    cases hs
    have hactive : s.active = false := by rw [h.active_eq, hcaller]; rfl
    exact { h with
      active_eq := hactive
      slots := fun hne => absurd rfl hne
      known := trivial
      returned_idle := fun _ _ => rfl
      returned := fun _ ho => by
        cases ho
        have hreserved := h.reserved_eq
        exact ⟨by dsimp only; omega, hdone, hout⟩ }

theorem inv_advance (h : Inv s) (hok : Orderly s .advance) (hs : s.advance = some t) : Inv t := by
  cases hcaller : s.caller with
  | polling startedAt =>
    have hidle : s.caller ≠ .idle := by rw [hcaller]; nofun
    have hactive : s.active = true := by rw [h.active_eq, hcaller]; rfl
    unfold State.advance at hs
    rw [hcaller] at hs
    cases hs
    refine inv_move h ?_ hidle ?_
    · rw [hcaller]
      split <;> rfl
    · unfold State.Known State.afterDone
      by_cases hdone : s.done = true
      · by_cases hstatus : s.status = .success
        · simp only [hdone, hstatus, ne_eq, not_true, if_false, if_true]
          exact ⟨h.done hactive hdone, trivial⟩
        · simp only [hdone, hstatus, ne_eq, not_false_eq_true, if_true]
      · simp only [hdone]
        trivial
  | finishing next => exact inv_finish h hcaller hs
  | copying copyLen output =>
    unfold State.advance at hs
    rw [hcaller] at hs
    exact inv_copy h hcaller hok hs
  | idle | ioctl | started | clock _ =>
    unfold State.advance at hs
    rw [hcaller] at hs
    cases hs

/-- What an orderly result callback does: nothing, or it delivers a result of
the current scan for which there is no slot, or one that gets a slot. -/
theorem scanResult_cases {scan : Nat} {vendor : VendorScanResult}
    (hok : Orderly s (.scanResult scan vendor)) :
    (s.deliver scan (.ofVendor vendor)).reserve scan (.ofVendor vendor) = s ∨
    (¬(s.active = true ∧ s.count < maxScanResults) ∧
      (s.deliver scan (.ofVendor vendor)).reserve scan (.ofVendor vendor) =
        { s with delivered := s.delivered ++ [.ofVendor vendor] }) ∨
    (∃ hslot : s.active = true ∧ s.count < maxScanResults,
      (s.caller.closing = true → s.outputLen ≤ s.count) ∧
      (s.deliver scan (.ofVendor vendor)).reserve scan (.ofVendor vendor) =
        { s with
          delivered := s.delivered ++ [.ofVendor vendor]
          count := s.count + 1
          writers := s.writers ++ [⟨s.scan, ⟨s.count, hslot.2⟩, .ofVendor vendor⟩]
          reserved := s.reserved + 1 }) := by
  unfold State.deliver State.reserve
  by_cases hslot : s.active = true ∧ s.count < maxScanResults
  · obtain ⟨rfl, hclosing⟩ := hok hslot.1 hslot.2
    right; right
    refine ⟨hslot, hclosing, ?_⟩
    simp only [if_true]
    rw [dif_pos hslot]
  · by_cases hscan : scan = s.scan
    · right; left
      refine ⟨hslot, ?_⟩
      rw [if_pos hscan, dif_neg hslot]
    · left
      rw [if_neg hscan, dif_neg hslot]

theorem take_append_of_eq {l m output : List ScanResult} (h : output = l.take output.length) :
    output = (l ++ m).take output.length := by
  have hlen := congrArg List.length h
  rw [List.length_take] at hlen
  rw [List.take_append_of_le_length (by omega)]
  exact h

theorem getElem?_delivered {i : Nat} {r r' : ScanResult} (h : s.delivered[i]? = some r) :
    (s.delivered ++ [r'])[i]? = some r := by
  rw [List.getElem?_append_left (List.getElem?_eq_some_iff.mp h).1]
  exact h

/-- A result for which there is no slot. -/
theorem inv_deliver (h : Inv s) (r : ScanResult)
    (hno : ¬(s.active = true ∧ s.count < maxScanResults)) :
    Inv { s with delivered := s.delivered ++ [r] } := by
  have hcount := h.count_le
  exact { h with
    count_le := by
      rw [List.length_append]
      dsimp only
      omega
    count_eq := fun hactive => by
      have hfull := h.count_eq hactive
      have : ¬s.count < maxScanResults := fun hlt => hno ⟨hactive, hlt⟩
      rw [List.length_append]
      dsimp only
      omega
    writer := fun w hw hscan => ⟨(h.writer w hw hscan).1, getElem?_delivered (h.writer w hw hscan).2⟩
    slots := fun hidle i hi => (h.slots hidle i hi).imp_left getElem?_delivered
    known := by
      have hknown := h.known
      unfold State.Known at hknown ⊢
      dsimp only
      split at hknown
      · exact hknown
      · exact ⟨hknown.1, hknown.2.1, hknown.2.2.1, take_append_of_eq hknown.2.2.2⟩
      all_goals trivial
    returned := fun output ho => by
      obtain ⟨hlen, hdone, hout⟩ := h.returned output ho
      exact ⟨hlen, hdone, take_append_of_eq hout⟩ }

/-- A result that gets a slot. -/
theorem inv_reserve (h : Inv s) (r : ScanResult) (hslot : s.active = true ∧ s.count < maxScanResults)
    (hclosing : s.caller.closing = true → s.outputLen ≤ s.count) :
    Inv { s with
      delivered := s.delivered ++ [r]
      count := s.count + 1
      writers := s.writers ++ [⟨s.scan, ⟨s.count, hslot.2⟩, r⟩]
      reserved := s.reserved + 1 } := by
  have hcount := h.count_le
  have hfull := h.count_eq hslot.1
  have hidle := h.not_idle hslot.1
  -- the slot is the one of the result just delivered
  have hlast : s.delivered.length = s.count := by omega
  exact
    { active_eq := h.active_eq
      writers_le := fun w hw => by
        rcases List.mem_append.mp hw with hw | hw
        · exact h.writers_le w hw
        · obtain rfl := List.mem_singleton.mp hw
          exact Nat.le_refl _
      reserved_eq := congrArg (· + 1) h.reserved_eq
      count_le := by
        rw [List.length_append, List.length_singleton]
        dsimp only
        omega
      count_eq := fun _ => by
        rw [List.length_append, List.length_singleton]
        dsimp only
        omega
      writer := fun w hw hscan => by
        rcases List.mem_append.mp hw with hw | hw
        · obtain ⟨hlt, hget⟩ := h.writer w hw hscan
          exact ⟨Nat.lt_succ_of_lt hlt, getElem?_delivered hget⟩
        · rw [List.mem_singleton.mp hw]
          refine ⟨Nat.lt_succ_self _, ?_⟩
          dsimp only
          rw [List.getElem?_append_right (by omega), hlast, Nat.sub_self]
          rfl
      slots := fun _ i hi => by
        rcases Nat.lt_or_eq_of_le (Nat.le_of_lt_succ hi) with hlt | hi
        · rcases h.slots hidle i hlt with hget | ⟨w, hw, hscan, hslot'⟩
          · exact .inl (getElem?_delivered hget)
          · exact .inr ⟨w, List.mem_append_left _ hw, hscan, hslot'⟩
        · exact .inr ⟨_, List.mem_append_right _ (List.mem_singleton_self _), rfl, Fin.ext hi.symm⟩
      done := h.done
      known := by
        have hknown := h.known
        have hactive := h.active_eq
        unfold State.Known at hknown ⊢
        dsimp only
        split at hknown
        · rename_i hcaller
          -- `output` is full already
          have hle := hclosing (by rw [hcaller]; rfl)
          exact ⟨hknown.1, by omega⟩
        · rename_i hcaller
          rw [hslot.1, hcaller] at hactive
          cases hactive
        all_goals trivial
      returned_idle := h.returned_idle
      returned := fun _ ho => absurd (h.returned_idle _ ho) hidle }

theorem inv_scanResult (h : Inv s) {scan : Nat} {vendor : VendorScanResult}
    (hok : Orderly s (.scanResult scan vendor)) :
    Inv ((s.deliver scan (.ofVendor vendor)).reserve scan (.ofVendor vendor)) := by
  rcases scanResult_cases hok with heq | ⟨hno, heq⟩ | ⟨hslot, hclosing, heq⟩
  · rw [heq]
    exact h
  · rw [heq]
    exact inv_deliver h _ hno
  · rw [heq]
    exact inv_reserve h _ hslot hclosing

theorem inv_scanDone (h : Inv s) {scan : Nat} {raw : UInt8}
    (hok : Orderly s (.scanDone scan raw)) : Inv (s.scanDone scan raw) := by
  unfold State.scanDone
  by_cases hactive : s.active = true
  · have hidle := h.not_idle hactive
    have hscan := hok hactive
    rw [if_pos hactive]
    exact { h with
      done := fun _ _ => congrArg some hscan
      known := by
        have hknown := h.known
        unfold State.Known at hknown ⊢
        dsimp only
        split at hknown
        · exact ⟨congrArg some hscan, hknown.2⟩
        · exact ⟨congrArg some hscan, hknown.2⟩
        all_goals trivial
      returned := fun _ ho => absurd (h.returned_idle _ ho) hidle }
  · rw [if_neg hactive]
    exact h

theorem inv_write (h : Inv s) {k : Nat} (hok : Orderly s (.write k)) (hs : s.write k = some t) :
    Inv t := by
  unfold State.write at hs
  obtain ⟨w, hw, rfl⟩ := Option.map_eq_some_iff.mp hs
  have hmem : w ∈ s.writers := List.mem_of_getElem? hw
  exact { h with
    writers_le := fun v hv => h.writers_le v (List.mem_of_mem_eraseIdx hv)
    writer := fun v hv => h.writer v (List.mem_of_mem_eraseIdx hv)
    slots := fun hidle i hi => by
      dsimp only at hidle hi ⊢
      by_cases hslot : i = w.slot
      · subst hslot
        by_cases hscan : w.scan = s.scan
        · left
          rw [Function.update_self]
          exact (h.writer w hmem hscan).2
        · have hlate := hok w hw hscan hidle
          omega
      · rcases h.slots hidle i hi with hget | ⟨v, hv, hscan, hvslot⟩
        · left
          rw [Function.update_of_ne hslot]
          exact hget
        · right
          obtain ⟨j, hj⟩ := List.mem_iff_getElem?.mp hv
          refine ⟨v, List.mem_eraseIdx_iff_getElem?.mpr ⟨j, ?_, hj⟩, hscan, hvslot⟩
          rintro rfl
          rw [hw] at hj
          cases hj
          exact hslot hvslot.symm
    known := h.known
    returned := fun output ho => ⟨(h.returned output ho).1, (h.returned output ho).2,
      (h.returned output ho).3⟩ }

theorem inv_step (h : Inv s) {a : Action} (hok : Orderly s a) (hs : step s a = some t) : Inv t := by
  cases a with
  | scan outputLen timeoutMs =>
    obtain ⟨hidle, hs⟩ := Option.ite_none_right_eq_some.mp hs
    cases hs
    have hactive : s.active = false := by rw [h.active_eq, hidle]; rfl
    exact inv_startScan hactive h.writers_le outputLen timeoutMs
  | ioctlReturns result =>
    obtain ⟨hcaller, hs⟩ := Option.ite_none_right_eq_some.mp hs
    cases hs
    refine inv_move h ?_ (by rw [hcaller]; nofun) ?_
    · rw [hcaller]
      split <;> rfl
    · unfold State.Known
      by_cases hresult : result ≠ 0
      · simp only [if_pos hresult]
      · simp only [if_neg hresult]
  | clock now => exact inv_clock h hs
  | advance => exact inv_advance h hok hs
  | scanResult scan vendor =>
    obtain ⟨-, hs⟩ := Option.ite_none_right_eq_some.mp hs
    cases hs
    exact inv_scanResult h hok
  | write k => exact inv_write h hok hs
  | scanDone scan raw =>
    obtain ⟨-, hs⟩ := Option.ite_none_right_eq_some.mp hs
    cases hs
    exact inv_scanDone h hok

end Steps

theorem inv_run {as : List Action} {s : State} (h : Steps step Orderly init as s) : Inv s :=
  h.invariant inv_init fun _ _ _ hI hok hs => inv_step hI hok hs

/-! ## §4 Main results -/

/-- **A result belongs to the scan that returns it**, in every orderly run:
`scan` returns as many of the results of its own scan as got a slot and fit
into `output`, in callback order, and it was ended by its own scan-done. -/
theorem scan_results_belong {as : List Action} {s : State} (h : Steps step Orderly init as s)
    {output : List ScanResult} (hret : s.returned = some (.ok output)) : s.Belongs output :=
  (inv_run h).returned output hret

/-- A hidden network without elements. -/
def hiddenAp : VendorScanResult where
  flags := 0
  bssid := #v[2, 0, 0, 0, 0, 3]
  capabilities := 0x0010
  frequency := 2412
  beaconInterval := 100
  quality := 0
  beaconIeLen := 0
  level := -4000
  age := 0
  ieLen := 0
  elements := none
  readable := nofun

/-- The callback is preempted before its write, which comes before scan-done. -/
def orderlyRun : List Action :=
  [.scan 4 1000, .ioctlReturns 0, .clock 5, .advance, .scanResult 1 hiddenAp, .clock 6, .write 0,
    .scanDone 1 0, .advance, .advance, .advance, .advance]

theorem scan_results_belong_sample :
    ∃ (s : State) (output : List ScanResult),
      s.returned = some (.ok output) ∧ output.length = 1 ∧ s.Belongs output := by
  have hrun : (run (guarded step Orderly) init orderlyRun).map (fun s => s.returned) =
      some (some (.ok [.ofVendor hiddenAp])) := by decide +kernel
  obtain ⟨s, hs, hret⟩ := Option.map_eq_some_iff.mp hrun
  exact ⟨s, _, hret, rfl, scan_results_belong (Steps.of_run_guarded hs) hret⟩

/-- The first scan times out and its result arrives in the second. -/
def staleRun : List Action :=
  [.scan 4 1, .ioctlReturns 0, .clock 0, .advance, .clock 1, .advance,
    .scan 4 1000, .ioctlReturns 0, .clock 2, .scanResult 1 hiddenAp, .write 0, .scanDone 2 0,
    .advance, .advance, .advance, .advance]

/-- A scan to which nothing was delivered returns the result of an earlier one. -/
theorem scan_results_mixed :
    ¬ ∀ (as : List Action) (s : State), Steps step Always init as s →
      ∀ output, s.returned = some (.ok output) → s.Belongs output := by
  intro h
  have hrun : (run step init staleRun).map (fun s => (s.returned, s.delivered)) =
      some (some (.ok [.ofVendor hiddenAp]), []) := by decide +kernel
  obtain ⟨s, hs, hlast⟩ := Option.map_eq_some_iff.mp hrun
  obtain ⟨hret, hnone⟩ := Prod.mk.inj hlast
  have hout := (h _ s (Steps.of_run hs) _ hret).results_eq
  rw [hnone] at hout
  cases hout

end HisiRiscv.Wifi.ScanTransaction
