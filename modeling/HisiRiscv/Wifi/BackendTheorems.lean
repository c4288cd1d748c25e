/-
HisiRiscv.Wifi.BackendTheorems — which event ends a control call.

No call empties the ring before it starts its operation, and an event does
not say which attempt it belongs to. What an earlier call has left unread,
or what hostap reports after that call has given up, is therefore read
first, and if it is an AUTHORIZED, FAILED or DISCONNECTED event it decides
the new call.

A call reads the ring from the front and stops at the first event that is
malformed or ends it. In a run where this first stop, at the moment an
operation is started, never decides the operation, every result is owed to
an event of its own attempt. Where it does decide, some continuation
returns the stale result, so the condition cannot be weakened.

  §1 Fresh results.
  §2 The condition.
  §3 The invariant.
  §4 The stale continuation.
  §5 Main results.
-/
import HisiRiscv.Lib.Machine
import HisiRiscv.Wifi.Backend

namespace HisiRiscv.Wifi.Backend

open HisiRiscv.Machine

/-! ## §1 Fresh results -/

/-- The event is one of those produced from `mark` on. -/
def Entry.Since (produced : List Event) (mark : Nat) (e : Entry) : Prop :=
  mark ≤ e.number ∧ produced[e.number]? = some e.event

/-- `connect` succeeds only through an AUTHORIZED event of its own attempt, and
fails with the error of the FAILED arm only through a FAILED event of it. -/
structure ConnectExit.Fresh (produced : List Event) (config : StationConfig) (mark : Nat)
    (exit : ConnectExit) : Prop where
  ok : ∀ info, exit.result config = .ok info →
    ∃ e, exit = .authorized e ∧ e.event.kind = nativeEventAuthorized ∧ e.Since produced mark
  failed : ∀ e d, exit = .failed e d → e.event.kind = nativeEventFailed ∧ e.Since produced mark

/-- `disconnect` succeeds only through a DISCONNECTED event after its start. -/
def DisconnectExit.Fresh (produced : List Event) (mark : Nat) (exit : DisconnectExit) : Prop :=
  exit.result = .ok () →
    ∃ e, exit = .disconnected e ∧ e.event.kind = nativeEventDisconnected ∧ e.Since produced mark

def Return.Fresh (produced : List Event) : Return → Prop
  | .connect config mark exit => exit.Fresh produced config mark
  | .disconnect mark exit => exit.Fresh produced mark
  | .poll _ => True

/-! ## §2 The condition -/

inductive Operation where
  | connect
  | disconnect

def Task.operation : Task → Operation
  | .connect _ => .connect
  | .disconnect _ => .disconnect

/-- The event kinds at which the loop of a call ends. -/
def Operation.stops : Operation → UInt8 → Bool
  | .connect, kind => kind == nativeEventAuthorized || kind == nativeEventFailed
  | .disconnect, kind => kind == nativeEventDisconnected || kind == nativeEventFailed

/-- The event kinds a result speaks about. -/
def Operation.decides : Operation → UInt8 → Bool
  | .connect, kind => kind == nativeEventAuthorized || kind == nativeEventFailed
  | .disconnect, kind => kind == nativeEventDisconnected

/-- The first event at which a call would end. -/
def firstStop (abi : EventAbi) (op : Operation) (ring : List Entry) : Option Entry :=
  ring.find? fun e => !abi.accepts e.event || op.stops e.event.kind

/-- The call would end with a result that the unread events decide. -/
def Decided (abi : EventAbi) (op : Operation) (ring : List Entry) : Prop :=
  ∃ e, firstStop abi op ring = some e ∧ abi.accepts e.event ∧ op.decides e.event.kind

/-- The step enters `NativeSupplicant::connect` or `disconnect`. -/
def State.entering (s : State) : Action → Option Operation
  | .configureReturns status =>
      match s.pc with
      | .configure _ => if status = 0 then some .connect else none
      | _ => none
  | .disconnect _ =>
      match s.pc with
      | .idle => if s.supplicant then some .disconnect else none
      | _ => none
  | _ => none

/-- No operation is started while unread events would decide it. -/
def StartsUndecided (abi : EventAbi) (s : State) (a : Action) : Prop :=
  ∀ op, s.entering a = some op → ¬Decided abi op s.ring

/-! ## §3 The invariant -/

/-- An event that is about to decide the call is one of its own. -/
def Undecided (abi : EventAbi) (op : Operation) (mark : Nat) (ring : List Entry) : Prop :=
  ∀ e, firstStop abi op ring = some e → abi.accepts e.event → op.decides e.event.kind →
    mark ≤ e.number

/-- What is known at each place of the code. -/
def Pc.Ok (abi : EventAbi) (ring : List Entry) (count : Nat) : Pc → Prop
  | .startConnect _ mark => mark ≤ count ∧ Undecided abi .connect mark ring
  | .startDisconnect _ mark => mark ≤ count ∧ Undecided abi .disconnect mark ring
  | .loop task _ => task.mark ≤ count ∧ Undecided abi task.operation task.mark ring
  | .idle | .configure _ | .giveUp _ _ | .poll => True

structure Inv (abi : EventAbi) (s : State) : Prop where
  ring : ∀ e ∈ s.ring, s.produced[e.number]? = some e.event
  pc : s.pc.Ok abi s.ring s.produced.length
  returns : ∀ r ∈ s.returns, r.Fresh s.produced

section Events

variable {abi : EventAbi} {produced : List Event} {mark : Nat} {e : Entry} {ring : List Entry}
  {op : Operation}

theorem Entry.Since.append (h : e.Since produced mark) (event : Event) :
    e.Since (produced ++ [event]) mark := by
  obtain ⟨hmark, hget⟩ := h
  exact ⟨hmark, by rw [List.getElem?_append_left (List.getElem?_eq_some_iff.mp hget).1, hget]⟩

theorem Return.Fresh.append {r : Return} (h : r.Fresh produced) (event : Event) :
    r.Fresh (produced ++ [event]) := by
  cases r with
  | connect config mark exit =>
    refine ⟨?_, ?_⟩
    · intro info hok
      obtain ⟨e, hexit, hkind, hsince⟩ := h.ok info hok
      exact ⟨e, hexit, hkind, hsince.append event⟩
    · intro e d hexit
      obtain ⟨hkind, hsince⟩ := h.failed e d hexit
      exact ⟨hkind, hsince.append event⟩
  | disconnect mark exit =>
    intro hok
    obtain ⟨e, hexit, hkind, hsince⟩ := h hok
    exact ⟨e, hexit, hkind, hsince.append event⟩
  | poll result => trivial

/-- A new event comes last, and it is young enough. -/
theorem Undecided.append (h : Undecided abi op mark ring) (hnew : mark ≤ e.number) :
    Undecided abi op mark (ring ++ [e]) := by
  intro first hfirst
  unfold firstStop at hfirst
  rw [List.find?_append, Option.or_eq_some_iff] at hfirst
  obtain hfirst | ⟨-, hfirst⟩ := hfirst
  · exact h first hfirst
  · obtain rfl : first = e := List.mem_singleton.mp (List.mem_of_find?_eq_some hfirst)
    intro _ _
    exact hnew

/-- An event that does not end the call is skipped. -/
theorem firstStop_cons_of_skipped (haccept : abi.accepts e.event)
    (hskip : op.stops e.event.kind = false) :
    firstStop abi op (e :: ring) = firstStop abi op ring := by
  simp [firstStop, haccept, hskip]

theorem firstStop_cons_of_stops (hstop : op.stops e.event.kind = true) :
    firstStop abi op (e :: ring) = some e := by
  simp [firstStop, hstop]

theorem Operation.stops_of_decides {kind : UInt8} (h : op.decides kind = true) :
    op.stops kind = true := by
  cases op with
  | connect => exact h
  | disconnect =>
    simp only [Operation.decides] at h
    simp [Operation.stops, h]

theorem undecided_of_not_decided (h : ¬Decided abi op ring) : Undecided abi op mark ring :=
  fun e hfirst haccept hdecides => absurd ⟨e, hfirst, haccept, hdecides⟩ h

end Events

section Calls

variable {produced : List Event} {task task' : Task} {e : Entry} {d : Diagnostics} {r : Return}

theorem classify_eq_authorized {kind : UInt8} :
    classifyNativeConnectEvent kind = .authorized ↔ kind = nativeEventAuthorized := by
  unfold classifyNativeConnectEvent
  split <;> (try split) <;> (try split) <;> simp_all [nativeEventAuthorized]

theorem classify_eq_failed {kind : UInt8} :
    classifyNativeConnectEvent kind = .failed ↔ kind = nativeEventFailed := by
  unfold classifyNativeConnectEvent
  split
  · simp_all [nativeEventAuthorized, nativeEventFailed]
  · split
    · simp_all [nativeEventDisconnected, nativeEventFailed]
    · simp

/-- The events at which `connect` does not stop change neither its marks nor its configuration. -/
theorem ConnectLocals.event_cases (l : ConnectLocals) (e : Entry) (d : Diagnostics) :
    (∃ l', l.event e d = .inl l' ∧ l'.mark = l.mark ∧
      Operation.connect.stops e.event.kind = false) ∨
    (l.event e d = .inr (.authorized e) ∧ e.event.kind = nativeEventAuthorized) ∨
    (l.event e d = .inr (.failed e d) ∧ e.event.kind = nativeEventFailed) := by
  cases hclass : classifyNativeConnectEvent e.event.kind with
  | authorized =>
    refine .inr (.inl ⟨?_, classify_eq_authorized.mp hclass⟩)
    simp [ConnectLocals.event, hclass]
  | failed =>
    refine .inr (.inr ⟨?_, classify_eq_failed.mp hclass⟩)
    simp [ConnectLocals.event, hclass]
  | progress | disconnected =>
    left
    have hauthorized : e.event.kind ≠ nativeEventAuthorized := by
      intro hkind
      simp [classify_eq_authorized.mpr hkind] at hclass
    have hfailed : e.event.kind ≠ nativeEventFailed := by
      intro hkind
      simp [classify_eq_failed.mpr hkind] at hclass
    refine ⟨_, by simp only [ConnectLocals.event, hclass]; rfl, ?_, ?_⟩
    · simp [apply_ite ConnectLocals.mark]
    · simp [Operation.stops, hauthorized, hfailed]

theorem DisconnectLocals.event_cases (l : DisconnectLocals) (e : Entry) :
    (l.event e = .inl l ∧ Operation.disconnect.stops e.event.kind = false) ∨
    (l.event e = .inr (.disconnected e) ∧ e.event.kind = nativeEventDisconnected) ∨
    (l.event e = .inr (.failed e) ∧ e.event.kind = nativeEventFailed) := by
  unfold DisconnectLocals.event
  split
  · rename_i hkind
    exact .inr (.inl ⟨rfl, hkind⟩)
  · rename_i hdisconnected
    split
    · rename_i hkind
      exact .inr (.inr ⟨rfl, hkind⟩)
    · rename_i hfailed
      exact .inl ⟨rfl, by simp [Operation.stops, hdisconnected, hfailed]⟩

/-- The loop goes on after the events at which it does not stop. -/
theorem Task.event_inl (h : task.event e d = .inl task') :
    task'.operation = task.operation ∧ task'.mark = task.mark ∧
      task.operation.stops e.event.kind = false := by
  cases task with
  | connect l =>
    obtain ⟨l', hev, hmark, hstops⟩ | ⟨hev, -⟩ | ⟨hev, -⟩ := l.event_cases e d
    · rw [Task.event, hev] at h
      cases h
      exact ⟨rfl, hmark, hstops⟩
    · rw [Task.event, hev] at h
      cases h
    · rw [Task.event, hev] at h
      cases h
  | disconnect l =>
    obtain ⟨hev, hstops⟩ | ⟨hev, -⟩ | ⟨hev, -⟩ := l.event_cases e
    · rw [Task.event, hev] at h
      cases h
      exact ⟨rfl, rfl, hstops⟩
    · rw [Task.event, hev] at h
      cases h
    · rw [Task.event, hev] at h
      cases h

/-- The call returns only at an event at which it stops. -/
theorem Task.stops_of_event_inr (h : task.event e d = .inr r) :
    task.operation.stops e.event.kind = true := by
  cases task with
  | connect l =>
    obtain ⟨l', hev, -⟩ | ⟨-, hkind⟩ | ⟨-, hkind⟩ := l.event_cases e d
    · rw [Task.event, hev] at h
      cases h
    · simp [Task.operation, Operation.stops, hkind]
    · simp [Task.operation, Operation.stops, hkind]
  | disconnect l =>
    obtain ⟨hev, -⟩ | ⟨-, hkind⟩ | ⟨-, hkind⟩ := l.event_cases e
    · rw [Task.event, hev] at h
      cases h
    · simp [Task.operation, Operation.stops, hkind]
    · simp [Task.operation, Operation.stops, hkind]

/-- A result is as fresh as the event that ends the loop. -/
theorem Task.fresh_of_event (h : task.event e d = .inr r)
    (hsince : task.operation.decides e.event.kind → e.Since produced task.mark) :
    r.Fresh produced := by
  cases task with
  | connect l =>
    obtain ⟨l', hev, -⟩ | ⟨hev, hkind⟩ | ⟨hev, hkind⟩ := l.event_cases e d
    · rw [Task.event, hev] at h
      cases h
    · rw [Task.event, hev] at h
      cases h
      refine ⟨?_, ?_⟩
      · intro info _
        exact ⟨e, rfl, hkind, hsince (by simp [Task.operation, Operation.decides, hkind])⟩
      · intro e' d' hexit
        cases hexit
    · rw [Task.event, hev] at h
      cases h
      refine ⟨?_, ?_⟩
      · intro info hok
        cases hok
      · intro e' d' hexit
        cases hexit
        exact ⟨hkind, hsince (by simp [Task.operation, Operation.decides, hkind])⟩
  | disconnect l =>
    obtain ⟨hev, -⟩ | ⟨hev, hkind⟩ | ⟨hev, hkind⟩ := l.event_cases e
    · rw [Task.event, hev] at h
      cases h
    · rw [Task.event, hev] at h
      cases h
      intro _
      exact ⟨e, rfl, hkind, hsince (by simp [Task.operation, Operation.decides, hkind])⟩
    · rw [Task.event, hev] at h
      cases h
      intro hok
      cases hok

/-- An event that decides a call ends it, and its result is not fresh if the
event is too old. -/
theorem Task.stale_of_event (hdecides : task.operation.decides e.event.kind = true)
    (hold : e.number < task.mark) (d : Diagnostics) :
    ∃ r, task.event e d = .inr r ∧ ¬r.Fresh produced := by
  cases task with
  | connect l =>
    obtain ⟨l', -, -, hstops⟩ | ⟨hev, -⟩ | ⟨hev, -⟩ := l.event_cases e d
    · exact absurd (Operation.stops_of_decides hdecides) (by simp [Task.operation, hstops])
    · refine ⟨_, by rw [Task.event, hev]; rfl, fun hfresh => ?_⟩
      obtain ⟨e', hexit, -, hmark, -⟩ := hfresh.ok _ rfl
      cases hexit
      exact absurd hmark (Nat.not_le.mpr hold)
    · refine ⟨_, by rw [Task.event, hev]; rfl, fun hfresh => ?_⟩
      obtain ⟨-, hmark, -⟩ := hfresh.failed e d rfl
      exact absurd hmark (Nat.not_le.mpr hold)
  | disconnect l =>
    obtain ⟨-, hstops⟩ | ⟨hev, -⟩ | ⟨-, hkind⟩ := l.event_cases e
    · exact absurd (Operation.stops_of_decides hdecides) (by simp [Task.operation, hstops])
    · refine ⟨_, by rw [Task.event, hev]; rfl, fun hfresh => ?_⟩
      obtain ⟨e', hexit, -, hmark, -⟩ := hfresh rfl
      cases hexit
      exact absurd hmark (Nat.not_le.mpr hold)
    · simp [Task.operation, Operation.decides, hkind, nativeEventFailed, nativeEventDisconnected]
        at hdecides

/-- The other places where a call returns promise nothing. -/
theorem Return.fresh_error {config : StationConfig} {mark : Nat} {exit : ConnectExit}
    {error : BackendError} (herror : exit.result config = .error error)
    (hfailed : ∀ e d, exit ≠ .failed e d) : (Return.connect config mark exit).Fresh produced := by
  refine ⟨?_, ?_⟩
  · intro info hok
    rw [herror] at hok
    cases hok
  · intro e d hexit
    exact absurd hexit (hfailed e d)

theorem Task.fresh_fail (e : NativeError) : (task.fail e).Fresh produced := by
  cases task with
  | connect l => exact Return.fresh_error rfl fun _ _ hexit => by cases hexit
  | disconnect l => exact fun hok => by cases hok

theorem Task.fresh_sleepFail (e : RuntimeError) : (task.sleepFail e).Fresh produced := by
  cases task with
  | connect l => exact Return.fresh_error rfl fun _ _ hexit => by cases hexit
  | disconnect l => exact fun hok => by cases hok

theorem ConnectLocals.fresh_deadline (l : ConnectLocals) (d : Diagnostics) :
    (Return.connect l.config l.mark (l.deadlineExit d)).Fresh produced := by
  unfold ConnectLocals.deadlineExit
  split
  · exact Return.fresh_error rfl fun _ _ hexit => by cases hexit
  · exact Return.fresh_error rfl fun _ _ hexit => by cases hexit

end Calls

section Steps

variable {abi : EventAbi} {s t : State}

theorem inv_start (abi : EventAbi) (supplicant : Bool) : Inv abi (start supplicant) where
  ring := fun _ he => absurd he List.not_mem_nil
  pc := trivial
  returns := fun _ hr => absurd hr List.not_mem_nil

/-- A call returns; the ring has lost events at most. -/
theorem Inv.finish (h : Inv abi s) {ring : List Entry} (hring : ∀ e ∈ ring, e ∈ s.ring)
    {r : Return} (hfresh : r.Fresh s.produced) :
    Inv abi (State.finish { s with ring := ring } r) where
  ring e he := h.ring e (hring e he)
  pc := trivial
  returns r' hr' := by
    obtain hr' | hr' := List.mem_append.mp hr'
    · exact h.returns r' hr'
    · rw [List.mem_singleton.mp hr']
      exact hfresh

/-- The program counter moves; nothing else changes. -/
theorem Inv.move (h : Inv abi s) {pc : Pc} (hpc : pc.Ok abi s.ring s.produced.length) :
    Inv abi { s with pc := pc } :=
  ⟨h.ring, hpc, h.returns⟩

theorem Inv.append (h : Inv abi s) (event : Event) :
    Inv abi { s with
      ring := s.ring ++ [⟨s.produced.length, event⟩], produced := s.produced ++ [event] } where
  ring e he := by
    obtain he | he := List.mem_append.mp he
    · have hget := h.ring e he
      rw [List.getElem?_append_left (List.getElem?_eq_some_iff.mp hget).1, hget]
    · rw [List.mem_singleton.mp he]
      simp
  pc := by
    have hpc := h.pc
    cases hs : s.pc with
    | idle | configure | giveUp | poll => trivial
    | startConnect _ mark | startDisconnect _ mark =>
      rw [hs] at hpc
      refine ⟨?_, hpc.2.append hpc.1⟩
      simpa using Nat.le_succ_of_le hpc.1
    | loop task =>
      rw [hs] at hpc
      refine ⟨?_, hpc.2.append hpc.1⟩
      simpa using Nat.le_succ_of_le hpc.1
  returns r hr := (h.returns r hr).append event

/-- Reading the ring. -/
theorem Inv.next (h : Inv abi s) {task : Task} (hpc : s.pc = .loop task .next) {status : Int32}
    {d : Diagnostics} (hs : s.next abi task status d = some t) : Inv abi t := by
  have hok := h.pc
  rw [hpc] at hok
  obtain ⟨hmark, hundecided⟩ := hok
  unfold State.next at hs
  split at hs
  · split at hs
    · cases hs
      exact h.move ⟨hmark, hundecided⟩
    · cases hs
  · split at hs
    · split at hs
      · cases hs
      · rename_i e ring hring
        have hsub : ∀ e' ∈ ring, e' ∈ s.ring := by
          intro e' he'
          rw [hring]
          exact List.mem_cons_of_mem e he'
        have hget := h.ring e (by rw [hring]; exact List.mem_cons_self)
        rw [hring] at hundecided
        simp only at hs
        split at hs
        · rename_i haccept
          split at hs
          · rename_i task' hev
            cases hs
            obtain ⟨hop, hmark', hskip⟩ := Task.event_inl hev
            refine ⟨fun e' he' => h.ring e' (hsub e' he'), ?_, h.returns⟩
            refine ⟨by rwa [hmark'], ?_⟩
            rw [hop, hmark']
            intro first hfirst
            exact hundecided first (by rwa [firstStop_cons_of_skipped haccept hskip])
          · rename_i r hev
            cases hs
            refine h.finish hsub (Task.fresh_of_event hev ?_)
            intro hdecides
            have hfirst : firstStop abi task.operation (e :: ring) = some e :=
              firstStop_cons_of_stops (Operation.stops_of_decides hdecides)
            exact ⟨hundecided e hfirst haccept hdecides, hget⟩
        · cases hs
          exact h.finish hsub (Task.fresh_fail _)
    · cases hs
      exact h.finish (fun _ he => he) (Task.fresh_fail _)

theorem inv_step (h : Inv abi s) {a : Action} (hok : StartsUndecided abi s a)
    (hs : step abi s a = some t) : Inv abi t := by
  have hpc := h.pc
  obtain ⟨supplicant, ring, pc, produced, returns⟩ := s
  cases a with
  | append event =>
    cases hs
    exact h.append event
  | connect config =>
    cases pc with
    | idle =>
      cases hs
      split
      · exact h.move trivial
      · exact h.finish (fun _ he => he) (Return.fresh_error rfl fun _ _ hexit => by cases hexit)
    | _ => cases hs
  | disconnect timeoutMs =>
    cases pc with
    | idle =>
      cases hs
      split
      · rename_i hsupplicant
        refine h.move ⟨Nat.le_refl _, undecided_of_not_decided ?_⟩
        exact hok .disconnect (if_pos hsupplicant)
      · exact h.finish (fun _ he => he) fun hexit => by cases hexit
    | _ => cases hs
  | poll =>
    cases pc with
    | idle =>
      cases hs
      split
      · exact h.move trivial
      · exact h.finish (fun _ he => he) trivial
    | _ => cases hs
  | configureReturns status =>
    cases pc with
    | configure config =>
      cases hs
      split
      · rename_i hstatus
        refine h.move ⟨Nat.le_refl _, undecided_of_not_decided ?_⟩
        exact hok .connect (if_pos hstatus)
      · exact h.finish (fun _ he => he) (Return.fresh_error rfl fun _ _ hexit => by cases hexit)
    | _ => cases hs
  | startReturns status now =>
    cases pc with
    | startConnect config mark =>
      cases hs
      split
      · exact h.move hpc
      · exact h.finish (fun _ he => he) (Return.fresh_error rfl fun _ _ hexit => by cases hexit)
    | startDisconnect timeoutMs mark =>
      cases hs
      split
      · exact h.move hpc
      · exact h.finish (fun _ he => he) fun hexit => by cases hexit
    | _ => cases hs
  | pollReturns result =>
    cases pc with
    | loop task place =>
      cases place with
      | poll =>
        cases result with
        | ok output =>
          cases hs
          exact h.move hpc
        | error e =>
          cases hs
          exact h.finish (fun _ he => he) (Task.fresh_fail _)
      | _ => cases hs
    | poll =>
      cases result with
      | ok output =>
        cases hs
        exact h.finish (fun _ he => he) trivial
      | error e =>
        cases hs
        exact h.finish (fun _ he => he) trivial
    | _ => cases hs
  | nextEvent status d =>
    cases pc with
    | loop task place =>
      cases place with
      | next => exact h.next rfl hs
      | _ => cases hs
    | _ => cases hs
  | clock now d =>
    cases pc with
    | loop task place =>
      cases place with
      | deadline =>
        simp only [step] at hs
        split at hs
        · cases task with
          | connect l =>
            cases hs
            exact h.move trivial
          | disconnect l =>
            cases hs
            exact h.finish (fun _ he => he) fun hexit => by cases hexit
        · cases hs
          exact h.move hpc
      | _ => cases hs
    | _ => cases hs
  | giveUpReturns status =>
    cases pc with
    | giveUp l d =>
      cases hs
      exact h.finish (fun _ he => he) (l.fresh_deadline d)
    | _ => cases hs
  | slept result =>
    cases pc with
    | loop task place =>
      cases place with
      | sleep =>
        cases result with
        | ok =>
          cases hs
          exact h.move hpc
        | error e =>
          cases hs
          exact h.finish (fun _ he => he) (Task.fresh_sleepFail e)
      | _ => cases hs
    | _ => cases hs

end Steps

/-! ## §4 The stale continuation -/

section Stale

variable {abi : EventAbi} {supplicant : Bool} {s t : State}

/-- The loop reads the oldest event. -/
theorem step_nextEvent {e : Entry} {ring : List Entry} {task : Task} {d : Diagnostics}
    (hring : s.ring = e :: ring) (hpc : s.pc = .loop task .next) (haccept : abi.accepts e.event) :
    step abi s (.nextEvent 1 d) = some
      (match task.event e d with
        | .inl task => { s with ring := ring, pc := .loop task .next }
        | .inr r => State.finish { s with ring := ring } r) := by
  simp only [step, hpc, State.next, hring, haccept]
  cases task.event e d with
  | inl task => simp
  | inr r => simp

/-- A call that reads the ring returns with the event at which it stops. -/
theorem stale_return {e : Entry} (haccept : abi.accepts e.event) (ring : List Entry) :
    ∀ (s : State) (task : Task), s.ring = ring → s.pc = .loop task .next →
      firstStop abi task.operation ring = some e → task.operation.decides e.event.kind →
      e.number < task.mark →
      ∃ as t, Steps (step abi) Always s as t ∧ ∃ r ∈ t.returns, ¬r.Fresh t.produced := by
  induction ring with
  | nil =>
    intro s task _ _ hfirst
    cases hfirst
  | cons x ring ih =>
    intro s task hring hpc hfirst hdecides hold
    by_cases hx : (!abi.accepts x.event || task.operation.stops x.event.kind) = true
    · -- the call stops at `x`, so `x` is the event
      obtain rfl : x = e := by simpa [firstStop, hx] using hfirst
      obtain ⟨r, hev, hstale⟩ : ∃ r, task.event x ⟨0, 0⟩ = .inr r ∧ ¬r.Fresh s.produced :=
        Task.stale_of_event hdecides hold ⟨0, 0⟩
      have hread := step_nextEvent (d := ⟨0, 0⟩) hring hpc haccept
      rw [hev] at hread
      exact ⟨_, _, Steps.single trivial hread, r, by simp [State.finish], hstale⟩
    · -- `x` is skipped
      obtain ⟨hacceptX, hskip⟩ :
          abi.accepts x.event = true ∧ task.operation.stops x.event.kind = false := by
        simpa using hx
      have hread := step_nextEvent (d := ⟨0, 0⟩) hring hpc hacceptX
      cases hev : task.event x ⟨0, 0⟩ with
      | inr r =>
        have hstops := Task.stops_of_event_inr hev
        rw [hskip] at hstops
        cases hstops
      | inl task' =>
        rw [hev] at hread
        obtain ⟨hop, hmark, -⟩ := Task.event_inl hev
        rw [firstStop_cons_of_skipped hacceptX hskip, ← hop] at hfirst
        obtain ⟨as, t, hrun, hstale⟩ := ih { s with ring := ring, pc := .loop task' .next } task'
          rfl rfl hfirst (by rwa [hop]) (by rwa [hmark])
        exact ⟨_, t, Steps.cons trivial hread hrun, hstale⟩

theorem Inv.number_lt (h : Inv abi s) {e : Entry} (he : e ∈ s.ring) :
    e.number < s.produced.length :=
  (List.getElem?_eq_some_iff.mp (h.ring e he)).1

/-- Once the operation has been entered, the answers 0 and a successful poll lead
the call to the ring. -/
theorem stale_of_started {e : Entry} (task : Task) (haccept : abi.accepts e.event)
    (hfirst : firstStop abi task.operation s.ring = some e)
    (hdecides : task.operation.decides e.event.kind) (hold : e.number < task.mark)
    (hstart : step abi s (.startReturns 0 0) = some { s with pc := .loop task .poll }) :
    ∃ as t, Steps (step abi) Always s as t ∧ ∃ r ∈ t.returns, ¬r.Fresh t.produced := by
  obtain ⟨as, t, hrun, hstale⟩ := stale_return haccept s.ring { s with pc := .loop task .next } task
    rfl rfl hfirst hdecides hold
  have hpoll : step abi { s with pc := .loop task .poll } (.pollReturns (.ok ⟨⟨0, 0⟩, 0⟩)) =
      some { s with pc := .loop task .next } := rfl
  exact ⟨_, t, Steps.cons trivial hstart (Steps.cons trivial hpoll hrun), hstale⟩

/-- Where the condition fails, the call goes on to return a stale result. -/
theorem stale_of_decided (h : Inv abi s) {a : Action} (hs : step abi s a = some t)
    (hfail : ¬StartsUndecided abi s a) :
    ∃ as u, Steps (step abi) Always t as u ∧ ∃ r ∈ u.returns, ¬r.Fresh u.produced := by
  unfold StartsUndecided at hfail
  simp only [not_forall, not_not] at hfail
  obtain ⟨op, hop, e, hfirst, haccept, hdecides⟩ := hfail
  have hold : e.number < s.produced.length := h.number_lt (List.mem_of_find?_eq_some hfirst)
  obtain ⟨supplicant, ring, pc, produced, returns⟩ := s
  cases a with
  | configureReturns status =>
    cases pc with
    | configure config =>
      obtain ⟨hstatus, hop⟩ := Option.ite_none_right_eq_some.mp hop
      cases hop
      simp only [step] at hs
      rw [if_pos hstatus] at hs
      cases hs
      exact stale_of_started (.connect ⟨config, produced.length, 0, 0, none⟩) haccept hfirst hdecides
        hold rfl
    | _ => cases hs
  | disconnect timeoutMs =>
    cases pc with
    | idle =>
      obtain ⟨hsupplicant, hop⟩ := Option.ite_none_right_eq_some.mp hop
      cases hop
      simp only [step] at hs
      rw [if_pos hsupplicant] at hs
      cases hs
      exact stale_of_started (.disconnect ⟨timeoutMs, produced.length, 0⟩) haccept hfirst hdecides
        hold rfl
    | _ => cases hs
  | _ => cases hop

end Stale

/-! ## §5 Main results -/

/-- Up to the first operation that is started while unread events decide it, every
result is fresh; and that operation can return a stale one. -/
theorem results_fresh (abi : EventAbi) (supplicant : Bool) {as : List Action} {s : State}
    (h : Steps (step abi) (StartsUndecided abi) (start supplicant) as s) :
    (∀ r ∈ s.returns, r.Fresh s.produced) ∧
      ∀ a t, step abi s a = some t → ¬StartsUndecided abi s a →
        ∃ bs u, Steps (step abi) Always t bs u ∧ ∃ r ∈ u.returns, ¬r.Fresh u.produced := by
  have hinv : Inv abi s := h.invariant (inv_start abi supplicant) fun _ _ _ hI hok hs =>
    inv_step hI hok hs
  exact ⟨hinv.returns, fun _ _ hs hfail => stale_of_decided hinv hs hfail⟩

/-! ### A connect that succeeds with the event of the attempt before -/

def homeAp : StationConfig := ⟨#v[6, 0, 0, 0, 0, 1], 6, 5000⟩
def guestAp : StationConfig := ⟨#v[6, 0, 0, 0, 0, 2], 11, 5000⟩

/-- The first `connect` runs into its deadline, and hostap reports AUTHORIZED only
then. -/
def timedOutConnect : List Action :=
  [.connect homeAp, .configureReturns 0, .startReturns 0 0, .pollReturns (.ok ⟨⟨0, 0⟩, 0⟩),
    .nextEvent 0 ⟨0, 0⟩, .clock 5000 ⟨0, 0⟩, .append ⟨1, nativeEventAuthorized, 0, 0⟩,
    .giveUpReturns 0]

/-- The second one, to another access point, reads it at once. -/
def staleConnect : List Action :=
  [.connect guestAp, .configureReturns 0, .startReturns 0 6000, .pollReturns (.ok ⟨⟨0, 0⟩, 0⟩),
    .nextEvent 1 ⟨0, 0⟩]

/-- The result of the second call, and the unread event that has decided it. -/
def staleReturn : Return := .connect guestAp 1 (.authorized ⟨0, ⟨1, nativeEventAuthorized, 0, 0⟩⟩)

theorem run_staleConnect :
    (run (step ⟨1, 64⟩) (start true) (timedOutConnect ++ staleConnect)).map (·.returns[1]?) =
      some (some staleReturn) := by
  decide +kernel

theorem staleReturn_not_fresh (produced : List Event) : ¬staleReturn.Fresh produced := by
  intro hfresh
  obtain ⟨e, hexit, -, hmark, -⟩ := hfresh.ok _ rfl
  cases hexit
  exact absurd hmark (by decide)

theorem not_results_fresh :
    ¬∀ (abi : EventAbi) (supplicant : Bool) (as : List Action) (s : State),
      Steps (step abi) Always (start supplicant) as s → ∀ r ∈ s.returns, r.Fresh s.produced := by
  intro hclaim
  obtain ⟨s, hrun, hreturn⟩ := Option.map_eq_some_iff.mp run_staleConnect
  exact staleReturn_not_fresh s.produced
    (hclaim _ _ _ s (Steps.of_run hrun) staleReturn (List.mem_of_getElem? hreturn))

/-! ### A run that meets the condition -/

/-- The same event, read before the first call gives up. The station is disconnected later, and
the event of that is unread when the second call begins, which skips it. -/
def promptConnect : List Action :=
  [.connect homeAp, .configureReturns 0, .startReturns 0 0,
    .append ⟨1, nativeEventAuthorized, 0, 0⟩, .pollReturns (.ok ⟨⟨0, 1⟩, 1⟩), .nextEvent 1 ⟨0, 0⟩,
    .append ⟨1, nativeEventDisconnected, 0, 0⟩, .connect guestAp, .configureReturns 0,
    .startReturns 0 6000, .append ⟨1, nativeEventAuthorized, 0, 0⟩, .pollReturns (.ok ⟨⟨0, 2⟩, 2⟩),
    .nextEvent 1 ⟨0, 0⟩, .nextEvent 1 ⟨0, 0⟩]

instance decidableStartsUndecided (abi : EventAbi) (s : State) (a : Action) :
    Decidable (StartsUndecided abi s a) :=
  decidable_of_iff (∀ op ∈ s.entering a, ∀ e ∈ firstStop abi op s.ring,
      abi.accepts e.event = true → op.decides e.event.kind = false) (by
    simp [StartsUndecided, Decided])

theorem run_promptConnect :
    (run (guarded (step ⟨1, 64⟩) (StartsUndecided ⟨1, 64⟩)) (start true) promptConnect).map
      (·.returns) =
      some [.connect homeAp 0 (.authorized ⟨0, ⟨1, nativeEventAuthorized, 0, 0⟩⟩),
        .connect guestAp 2 (.authorized ⟨2, ⟨1, nativeEventAuthorized, 0, 0⟩⟩)] := by
  decide +kernel

theorem results_fresh_promptConnect :
    ∃ s, Steps (step ⟨1, 64⟩) (StartsUndecided ⟨1, 64⟩) (start true) promptConnect s ∧
      s.returns.length = 2 ∧ ∀ r ∈ s.returns, r.Fresh s.produced := by
  obtain ⟨s, hrun, hreturns⟩ := Option.map_eq_some_iff.mp run_promptConnect
  have hsteps := Steps.of_run_guarded hrun
  exact ⟨s, hsteps, by rw [hreturns]; rfl, (results_fresh ⟨1, 64⟩ true hsteps).1⟩

end HisiRiscv.Wifi.Backend
