/-
HisiRiscv.Crypto.ServiceCounters — the diagnostic counters of the crypto
service.

Every `fetch_add` and `fetch_max` belongs to a call, and a call makes them
in the order of its operation: first its requests, then the time, then the
failures. So the counters can be read off the calls, in any interleaving:
exactly when no call is in progress, and up to those in progress
otherwise.

  §1 The updates of a call.
  §2 Steps.
  §3 What a call adds.
  §4 The counters.
-/
import HisiRiscv.Crypto.ServiceTheorems
import HisiRiscv.Lib.Ledger
import Mathlib.Algebra.BigOperators.Group.List.Basic
import Mathlib.Data.UInt

namespace HisiRiscv.Crypto.Service

open HisiRiscv.Machine
open HisiRiscv.Ledger
open State

/-! ## §1 The updates of a call -/

namespace Update

/-- What an update adds to `requests`, `failures`, `totalMs` and `entropyBytes`. -/
def requestsTo (f : Family) : Update → Nat
  | .addRequest family => if family = f then 1 else 0
  | .addFailure _ | .addTotalMs _ _ | .maxMs _ _ | .addEntropyBytes _ => 0

def failuresTo (f : Family) : Update → Nat
  | .addFailure family => if family = f then 1 else 0
  | .addRequest _ | .addTotalMs _ _ | .maxMs _ _ | .addEntropyBytes _ => 0

def totalTo (f : Family) : Update → Nat
  | .addTotalMs family elapsed => if family = f then elapsed.toNat else 0
  | .addRequest _ | .addFailure _ | .maxMs _ _ | .addEntropyBytes _ => 0

def bytesTo : Update → Nat
  | .addEntropyBytes length => length.toNat
  | .addRequest _ | .addFailure _ | .addTotalMs _ _ | .maxMs _ _ => 0

end Update

/-- What a list of updates adds to a counter. -/
abbrev weigh (w : Update → Nat) (us : List Update) : Nat := (us.map w).sum

theorem weigh_append (w : Update → Nat) (us vs : List Update) :
    weigh w (us ++ vs) = weigh w us + weigh w vs := by
  rw [weigh, List.map_append, List.sum_append]

theorem weigh_perm (w : Update → Nat) {us vs : List Update} (h : us.Perm vs) :
    weigh w us = weigh w vs := (h.map w).sum_eq

/-- The counters are what a list of updates makes of them, in any order. -/
structure Accounts (c : Counters) (us : List Update) : Prop where
  requests : ∀ f, c.requests f = UInt32.ofNat (weigh (Update.requestsTo f) us)
  failures : ∀ f, c.failures f = UInt32.ofNat (weigh (Update.failuresTo f) us)
  totalMs : ∀ f, c.totalMs f = UInt32.ofNat (weigh (Update.totalTo f) us)
  bound : ∀ f e, .maxMs f e ∈ us → e ≤ c.maxMs f
  attained : ∀ f, c.maxMs f = 0 ∨ .maxMs f (c.maxMs f) ∈ us
  entropyBytes : c.entropyBytes = UInt32.ofNat (weigh Update.bytesTo us)

theorem accounts_zero : Accounts .zero [] :=
  ⟨fun _ => rfl, fun _ => rfl, fun _ => rfl, fun _ _ h => (nomatch h), fun _ => Or.inl rfl, rfl⟩

theorem Accounts.perm {c : Counters} {us vs : List Update} (h : Accounts c us) (hp : us.Perm vs) :
    Accounts c vs where
  requests f := by rw [h.requests f, weigh_perm _ hp]
  failures f := by rw [h.failures f, weigh_perm _ hp]
  totalMs f := by rw [h.totalMs f, weigh_perm _ hp]
  bound f e he := h.bound f e (hp.mem_iff.mpr he)
  attained f := (h.attained f).imp_right hp.mem_iff.mp
  entropyBytes := by rw [h.entropyBytes, weigh_perm _ hp]

/-- A counter to which an update adds `w u`. -/
theorem add_update {old new : UInt32} {w : Update → Nat} {us : List Update} {u : Update}
    (hold : old = UInt32.ofNat (weigh w us)) (hnew : new = old + UInt32.ofNat (w u)) :
    new = UInt32.ofNat (weigh w (u :: us)) := by
  rw [weigh, List.map_cons, List.sum_cons, UInt32.ofNat_add, ← hold, hnew, UInt32.add_comm]

theorem max_cases (a b : UInt32) : max a b = b ∧ a ≤ b ∨ max a b = a ∧ b ≤ a := by
  by_cases h : a ≤ b
  · exact Or.inl ⟨if_pos h, h⟩
  · exact Or.inr ⟨if_neg h, (UInt32.le_total a b).resolve_left h⟩

theorem Accounts.apply {c : Counters} {us : List Update} (h : Accounts c us) (u : Update) :
    Accounts (c.apply u) (u :: us) where
  requests f := by
    refine add_update (h.requests f) ?_
    cases u with
    | addRequest family =>
      by_cases hf : f = family <;> simp [Counters.apply, Update.requestsTo, hf, eq_comm]
    | addFailure | addTotalMs | maxMs | addEntropyBytes => simp [Counters.apply, Update.requestsTo]
  failures f := by
    refine add_update (h.failures f) ?_
    cases u with
    | addFailure family =>
      by_cases hf : f = family <;> simp [Counters.apply, Update.failuresTo, hf, eq_comm]
    | addRequest | addTotalMs | maxMs | addEntropyBytes => simp [Counters.apply, Update.failuresTo]
  totalMs f := by
    refine add_update (h.totalMs f) ?_
    cases u with
    | addTotalMs family elapsed =>
      by_cases hf : f = family <;> simp [Counters.apply, Update.totalTo, hf, eq_comm]
    | addRequest | addFailure | maxMs | addEntropyBytes => simp [Counters.apply, Update.totalTo]
  bound f e he := by
    cases u with
    | maxMs family elapsed =>
      simp only [Counters.apply]
      rcases List.mem_cons.mp he with he | he
      · cases he
        rw [if_pos rfl]
        rcases max_cases (c.maxMs f) e with ⟨hmax, -⟩ | ⟨hmax, hle⟩
        · rw [hmax]
          exact UInt32.le_refl _
        · rwa [hmax]
      · split_ifs with hf
        · rcases max_cases (c.maxMs f) elapsed with ⟨hmax, hle⟩ | ⟨hmax, -⟩
          · rw [hmax]
            exact UInt32.le_trans (h.bound f e he) hle
          · rw [hmax]
            exact h.bound f e he
        · exact h.bound f e he
    | addRequest | addFailure | addTotalMs | addEntropyBytes =>
      rcases List.mem_cons.mp he with he | he
      · cases he
      · exact h.bound f e he
  attained f := by
    have old : c.maxMs f = 0 ∨ .maxMs f (c.maxMs f) ∈ u :: us :=
      (h.attained f).imp_right fun hmem => List.mem_cons_of_mem _ hmem
    cases u with
    | maxMs family elapsed =>
      simp only [Counters.apply]
      split_ifs with hf
      · subst hf
        rcases max_cases (c.maxMs f) elapsed with ⟨hmax, -⟩ | ⟨hmax, -⟩
        · rw [hmax]
          exact Or.inr List.mem_cons_self
        · rwa [hmax]
      · exact old
    | addRequest | addFailure | addTotalMs | addEntropyBytes => exact old
  entropyBytes := by
    refine add_update h.entropyBytes ?_
    cases u <;> simp [Counters.apply, Update.bytesTo]

namespace Client

/-- The updates a call has made are those up to its place. -/
def Script (c : Client) : Prop :=
  match c.pc with
  | .counting todo => c.made ++ todo = c.operation.opening
  | .starting | .loading _ | .locking _ _ | .operating _ _ | .unlocking _ _ _ | .timing _ _ =>
      c.made = c.operation.opening
  | .recording todo result =>
      ∃ closed, c.made = c.operation.opening ++ closed ∧
        closed ++ todo = c.operation.closing c.spent (failed result)
  | .returned result =>
      c.made = c.operation.opening ++ c.operation.closing c.spent (failed result)

/-- A trivial operation returns at once. -/
def Wf (c : Client) : Prop :=
  if c.operation.trivial then c.made = [] ∧ c.pc = .returned (.ok .unit) else c.Script

theorem Wf.script {c : Client} (h : c.Wf) (hpc : c.finished = false) :
    c.operation.trivial = false ∧ c.Script := by
  unfold Wf at h
  split_ifs at h with htrivial
  · rw [finished, h.2] at hpc
    cases hpc
  · exact ⟨Bool.eq_false_iff.mpr htrivial, h⟩

theorem Script.wf {c : Client} (h : c.Script) (htrivial : c.operation.trivial = false) : c.Wf := by
  rw [Wf, if_neg (by simp [htrivial])]
  exact h

end Client

namespace Client

theorem closing_untimed {op : Operation} (h : op.timed = []) (e e' : UInt32) (fails : Bool) :
    op.closing e fails = op.closing e' fails := by
  simp [Operation.closing, h]

theorem script_countingPc {c : Client} {made todo : List Update} {spent : UInt32}
    (h : made ++ todo = c.operation.opening) :
    Script ⟨c.operation, countingPc c.operation todo, made, spent⟩ := by
  unfold countingPc
  split_ifs with htodo
  · subst htodo
    rw [List.append_nil] at h
    unfold afterCounting
    split_ifs <;> exact h
  · exact h

theorem script_recordingPc {op : Operation} {closed todo : List Update} {spent : UInt32}
    {result : Result} (h : closed ++ todo = op.closing spent (failed result)) :
    Script ⟨op, recordingPc todo result, op.opening ++ closed, spent⟩ := by
  unfold recordingPc
  split_ifs with htodo
  · subst htodo
    rw [List.append_nil] at h
    rw [Script, h]
  · exact ⟨closed, rfl, h⟩

theorem wf_enter (op : Operation) : (enter op).Wf := by
  unfold enter Wf
  split_ifs with htrivial
  · exact ⟨rfl, rfl⟩
  · exact script_countingPc (c := ⟨op, .starting, [], 0⟩) rfl

theorem script_answered {c : Client} {started : UInt64} {result : Result}
    (h : c.made = c.operation.opening) : (c.answered started result).Script := by
  unfold answered
  split_ifs with htimed
  · have hscript : Script ⟨c.operation, recordingPc (c.operation.closing 0 (failed result)) result,
        c.operation.opening ++ [], c.spent⟩ :=
      script_recordingPc (closing_untimed htimed 0 c.spent _)
    rwa [List.append_nil, ← h] at hscript
  · exact h

end Client

/-! ## §2 Steps -/

/-- The updates all calls have made. -/
def allMade (s : State) : List Update := s.clients.flatMap Client.made

/-- The counters are what the calls have made of them. -/
structure Counted (s : State) : Prop where
  wf : ∀ c ∈ s.clients, c.Wf
  accounts : Accounts s.counters (allMade s)

theorem counted_init : Counted init := ⟨fun _ h => (nomatch h), accounts_zero⟩

/-- A step of a call that makes no update. -/
theorem Counted.gotoClient {s : State} (h : Counted s) {k : Nat} {c c' : Client}
    (hc : s.clients[k]? = some c) (hwf : c'.Wf) (hmade : c'.made = c.made) :
    Counted (s.gotoClient k c') where
  wf d hd := by
    rcases mem_set_cases hd with rfl | hd
    · exact hwf
    · exact h.wf d hd
  accounts := by
    obtain ⟨rest, hold, hset⟩ := flatMap_set_split Client.made hc
    have hnew := hset c'
    rw [hmade] at hnew
    exact h.accounts.perm (hold.trans hnew.symm)

/-- A step of a call that makes an update. -/
theorem Counted.make {s : State} (h : Counted s) {k : Nat} {c : Client} {u : Update} {pc : Pc}
    (hc : s.clients[k]? = some c) (hwf : (c.make u pc).Wf) :
    Counted ((s.update u).gotoClient k (c.make u pc)) where
  wf d hd := by
    rcases mem_set_cases hd with rfl | hd
    · exact hwf
    · exact h.wf d hd
  accounts := by
    obtain ⟨rest, hold, hset⟩ := flatMap_set_split Client.made hc
    refine (h.accounts.apply u).perm ?_
    have hnew : ((s.clients.set k (c.make u pc)).flatMap Client.made).Perm
        (c.made ++ [u] ++ rest) := hset (c.make u pc)
    refine ((hold.cons u).trans ?_).trans hnew.symm
    rw [List.append_assoc]
    exact List.perm_middle.symm

theorem Counted.stepClient {s s' : State} (h : Counted s) {k : Nat} {c : Client}
    (hc : s.clients[k]? = some c) (hs : s.stepClient k c = some s') : Counted s' := by
  have hwf := (h.wf c (List.mem_of_getElem? hc)).script
  unfold State.stepClient at hs
  split at hs
  · rename_i u todo hpc
    rw [Client.finished, Client.Script, hpc] at hwf
    obtain ⟨htrivial, hscript⟩ := hwf rfl
    cases hs
    refine h.make hc (Client.Script.wf (Client.script_countingPc ?_) htrivial)
    rw [List.append_assoc]
    exact hscript
  · rename_i u todo result hpc
    rw [Client.finished, Client.Script, hpc] at hwf
    obtain ⟨htrivial, hscript⟩ := hwf rfl
    cases hs
    obtain ⟨closed, hmade, hclosed⟩ := hscript
    have hscript' : (c.make u (Client.recordingPc todo result)).Script := by
      rw [Client.make, hmade, List.append_assoc]
      refine Client.script_recordingPc ?_
      rw [List.append_assoc]
      exact hclosed
    exact h.make hc (hscript'.wf htrivial)
  · rename_i started hpc
    rw [Client.finished, Client.Script, hpc] at hwf
    obtain ⟨htrivial, hscript⟩ := hwf rfl
    split at hs
    · cases hs
      exact h.gotoClient hc (Client.Script.wf (Client.script_answered hscript) htrivial) rfl
    · cases hs
      exact h.gotoClient hc (Client.Script.wf hscript htrivial) rfl
  all_goals cases hs

theorem Counted.stepClock {s s' : State} (h : Counted s) {k : Nat} {now : UInt64} {c : Client}
    (hc : s.clients[k]? = some c) (hs : s.stepClock k now c = some s') : Counted s' := by
  have hwf := (h.wf c (List.mem_of_getElem? hc)).script
  unfold State.stepClock at hs
  split at hs
  · rename_i hpc
    rw [Client.finished, Client.Script, hpc] at hwf
    obtain ⟨htrivial, hscript⟩ := hwf rfl
    cases hs
    exact h.gotoClient hc (Client.Script.wf hscript htrivial) rfl
  · rename_i started result hpc
    rw [Client.finished, Client.Script, hpc] at hwf
    obtain ⟨htrivial, hscript⟩ := hwf rfl
    cases hs
    have hscript' : (c.timedAt started now result).Script := by
      have hnil : Client.Script ⟨c.operation, (c.timedAt started now result).pc,
          c.operation.opening ++ [], elapsedMs started now⟩ := Client.script_recordingPc rfl
      rwa [List.append_nil, ← hscript] at hnil
    exact h.gotoClient hc (hscript'.wf htrivial) rfl
  all_goals cases hs

theorem Counted.touch {s : State} (h : Counted s) (m : Nat) : Counted (s.touch m) := by
  unfold State.touch
  split
  · exact h
  · exact ⟨h.wf, h.accounts⟩

theorem Counted.stepLockFails {s s' : State} (h : Counted s) {k : Nat} {error : CryptoError}
    {c : Client} (hc : s.clients[k]? = some c) (hs : s.stepLockFails k error c = some s') :
    Counted s' := by
  have hwf := (h.wf c (List.mem_of_getElem? hc)).script
  unfold State.stepLockFails at hs
  split at hs
  · rename_i started m hpc
    rw [Client.finished, Client.Script, hpc] at hwf
    obtain ⟨htrivial, hscript⟩ := hwf rfl
    cases hs
    have hc' : (s.touch m).clients[k]? = some c := by rwa [clients_touch]
    exact (h.touch m).gotoClient hc' (Client.Script.wf (Client.script_answered hscript) htrivial) rfl
  all_goals cases hs

theorem Counted.stepAcquires {s s' : State} (h : Counted s) {k : Nat} {c : Client}
    (hc : s.clients[k]? = some c) (hs : s.stepAcquires k c = some s') : Counted s' := by
  have hwf := (h.wf c (List.mem_of_getElem? hc)).script
  unfold State.stepAcquires at hs
  split at hs
  · rename_i started m hpc
    rw [Client.finished, Client.Script, hpc] at hwf
    obtain ⟨htrivial, hscript⟩ := hwf rfl
    split at hs
    · rename_i creator hmutex
      cases hs
      have hset : Counted (s.setMutex m ⟨true, some k, creator⟩) := ⟨h.wf, h.accounts⟩
      exact hset.gotoClient hc (Client.Script.wf hscript htrivial) rfl
    · cases hs
  all_goals cases hs

theorem Counted.stepBackend {s s' : State} (h : Counted s) {k : Nat} {result : Result} {c : Client}
    (hc : s.clients[k]? = some c) (hs : s.stepBackend k result c = some s') : Counted s' := by
  have hwf := (h.wf c (List.mem_of_getElem? hc)).script
  unfold State.stepBackend at hs
  split at hs
  · rename_i started m hpc
    rw [Client.finished, Client.Script, hpc] at hwf
    obtain ⟨htrivial, hscript⟩ := hwf rfl
    cases hs
    exact h.gotoClient hc (Client.Script.wf hscript htrivial) rfl
  all_goals cases hs

theorem Counted.stepUnlock {s s' : State} (h : Counted s) {k : Nat} {ok : Bool} {c : Client}
    (hc : s.clients[k]? = some c) (hs : s.stepUnlock k ok c = some s') : Counted s' := by
  have hwf := (h.wf c (List.mem_of_getElem? hc)).script
  unfold State.stepUnlock at hs
  split at hs
  · rename_i started m result hpc
    rw [Client.finished, Client.Script, hpc] at hwf
    obtain ⟨htrivial, hscript⟩ := hwf rfl
    have hc' : (s.touch m).clients[k]? = some c := by rwa [clients_touch]
    have hafter : Counted ((s.touch m).gotoClient k (c.answered started (unlocked result ok))) :=
      (h.touch m).gotoClient hc' (Client.Script.wf (Client.script_answered hscript) htrivial) rfl
    simp only at hs
    split at hs
    · cases hs
      split
      · exact ⟨hafter.wf, hafter.accounts⟩
      · exact hafter
    · cases hs
      exact hafter
  all_goals cases hs

theorem Counted.step {s s' : State} {a : Action} (h : Counted s) (hs : State.step s a = some s') :
    Counted s' := by
  cases a with
  | install =>
    cases hs
    exact ⟨h.wf, h.accounts⟩
  | call op =>
    cases hs
    refine ⟨fun c hc => ?_, ?_⟩
    · rcases List.mem_append.mp hc with hc | hc
      · exact h.wf c hc
      · rw [List.mem_singleton.mp hc]
        exact Client.wf_enter op
    · show Accounts s.counters ((s.clients ++ [Client.enter op]).flatMap Client.made)
      rw [List.flatMap_append, List.flatMap_singleton, show (Client.enter op).made = [] from rfl,
        List.append_nil]
      exact h.accounts
  | create i ok =>
    rw [State.step] at hs
    split at hs
    · cases hs
      cases ok <;> exact ⟨h.wf, h.accounts⟩
    · cases hs
  | installer i =>
    obtain ⟨p, hp, hs⟩ := Option.bind_eq_some_iff.mp hs
    cases p with
    | creating | destroying | returned => cases hs
    | storage m =>
      cases hs
      split <;> exact ⟨h.wf, h.accounts⟩
    | cell m =>
      simp only [State.stepInstaller] at hs
      split at hs <;> (cases hs; exact ⟨h.wf, h.accounts⟩)
    | publishing m =>
      cases hs
      exact ⟨h.wf, h.accounts⟩
  | destroy i ok =>
    rw [State.step] at hs
    split at hs
    · rename_i m hp
      cases hs
      have htouch := h.touch m
      unfold destroyMutex
      simp only
      split
      · split <;> exact ⟨htouch.wf, htouch.accounts⟩
      · exact ⟨htouch.wf, htouch.accounts⟩
    · cases hs
  | client k =>
    obtain ⟨c, hc, hs⟩ := Option.bind_eq_some_iff.mp hs
    exact h.stepClient hc hs
  | clock k now =>
    obtain ⟨c, hc, hs⟩ := Option.bind_eq_some_iff.mp hs
    exact h.stepClock hc hs
  | acquires k =>
    obtain ⟨c, hc, hs⟩ := Option.bind_eq_some_iff.mp hs
    exact h.stepAcquires hc hs
  | timesOut k | lockFails k =>
    obtain ⟨c, hc, hs⟩ := Option.bind_eq_some_iff.mp hs
    exact h.stepLockFails hc hs
  | backend k result =>
    obtain ⟨c, hc, hs⟩ := Option.bind_eq_some_iff.mp hs
    exact h.stepBackend hc hs
  | unlock k ok =>
    obtain ⟨c, hc, hs⟩ := Option.bind_eq_some_iff.mp hs
    exact h.stepUnlock hc hs

theorem reachable_counted {s : State} (h : Reachable State.step init s) : Counted s :=
  h.invariant counted_init fun _ _ _ hI hs => hI.step hs

namespace Client

/-- The call has not returned at once. -/
def counts (f : Family) (c : Client) : Bool :=
  !c.operation.trivial && decide (f ∈ c.operation.families)

/-- It returned an error. -/
def erred (c : Client) : Bool :=
  match c.pc with
  | .returned result => failed result
  | .counting _ | .starting | .loading _ | .locking _ _ | .operating _ _ | .unlocking _ _ _
  | .timing _ _ | .recording _ _ => false

def times (f : Family) (c : Client) : Bool := decide (f ∈ c.operation.timed)

/-- The entropy it has delivered. -/
def delivered (c : Client) : Nat :=
  match c.operation with
  | .fillEntropy length => if c.erred then 0 else length
  | _ => 0

end Client

/-! ## §3 What a call adds -/

theorem families_nodup (op : Operation) : op.families.Nodup := by
  cases op <;> simp [Operation.families]

theorem timed_nodup (op : Operation) : op.timed.Nodup := by
  cases op <;> simp [Operation.timed]

/-- A trivial operation is `fill_hardware_entropy` on nothing. -/
theorem trivial_iff (op : Operation) : op.trivial = true ↔ op = .fillEntropy 0 := by
  cases op <;> simp [Operation.trivial]

theorem weigh_allMade (w : Update → Nat) (cs : List Client) :
    weigh w (cs.flatMap Client.made) = (cs.map fun c => weigh w c.made).sum := by
  induction cs with
  | nil => rfl
  | cons c cs ih => rw [List.flatMap_cons, weigh_append, ih, List.map_cons, List.sum_cons]

theorem weigh_families {fs : List Family} (hfs : fs.Nodup) (f : Family) {u : Family → Update}
    {w : Update → Nat} {x : Nat} (hw : ∀ g, w (u g) = if g = f then x else 0) :
    weigh w (fs.map u) = if f ∈ fs then x else 0 := by
  induction fs with
  | nil => rfl
  | cons g fs ih =>
    obtain ⟨hg, hfs⟩ := List.nodup_cons.mp hfs
    rw [weigh, List.map_cons, List.map_cons, List.sum_cons, hw g]
    have htail := ih hfs
    rw [weigh] at htail
    rw [htail]
    by_cases hgf : g = f
    · subst hgf
      simp [hg]
    · simp [hgf, Ne.symm hgf]

theorem weigh_zero {us : List Update} {w : Update → Nat} (h : ∀ u ∈ us, w u = 0) :
    weigh w us = 0 := by
  refine List.sum_eq_zero fun x hx => ?_
  obtain ⟨u, hu, rfl⟩ := List.mem_map.mp hx
  exact h u hu

/-- The two updates of a time that is counted. -/
theorem weigh_timed (fs : List Family) (e : UInt32) {w : Update → Nat}
    (hw : ∀ g, w (.maxMs g e) = 0) :
    weigh w (fs.flatMap fun g => [.addTotalMs g e, .maxMs g e]) =
      weigh w (fs.map fun g => .addTotalMs g e) := by
  induction fs with
  | nil => rfl
  | cons g fs ih =>
    rw [List.flatMap_cons, weigh_append, ih]
    simp [weigh, hw]

section Closing

variable (op : Operation) (e : UInt32) (fails : Bool) (f : Family)

theorem requestsTo_opening :
    weigh (Update.requestsTo f) op.opening = if f ∈ op.families then 1 else 0 :=
  weigh_families (families_nodup op) f fun _ => rfl

/-- The last updates are failures or entropy. -/
theorem mem_outcome {op : Operation} {fails : Bool} {u : Update} (hu : u ∈ op.outcome fails) :
    (∃ g, u = .addFailure g) ∨ ∃ length, u = .addEntropyBytes length := by
  cases fails with
  | true =>
    obtain ⟨g, -, rfl⟩ := List.mem_map.mp hu
    exact Or.inl ⟨g, rfl⟩
  | false =>
    cases op with
    | fillEntropy length =>
      rw [List.mem_singleton.mp hu]
      exact Or.inr ⟨_, rfl⟩
    | _ => cases hu

theorem requestsTo_closing : weigh (Update.requestsTo f) (op.closing e fails) = 0 := by
  refine weigh_zero fun u hu => ?_
  rcases List.mem_append.mp hu with hu | hu
  · obtain ⟨g, -, hg⟩ := List.mem_flatMap.mp hu
    simp only [List.mem_cons, List.not_mem_nil, or_false] at hg
    rcases hg with rfl | rfl <;> rfl
  · rcases mem_outcome hu with ⟨g, rfl⟩ | ⟨length, rfl⟩ <;> rfl

theorem failuresTo_opening : weigh (Update.failuresTo f) op.opening = 0 := by
  refine weigh_zero fun u hu => ?_
  obtain ⟨g, -, rfl⟩ := List.mem_map.mp hu
  rfl

theorem failuresTo_closing :
    weigh (Update.failuresTo f) (op.closing e fails) =
      if fails = true ∧ f ∈ op.families then 1 else 0 := by
  rw [Operation.closing, weigh_append, weigh_timed _ _ fun _ => rfl]
  have htimed : weigh (Update.failuresTo f) (op.timed.map fun g => .addTotalMs g e) = 0 := by
    refine weigh_zero fun u hu => ?_
    obtain ⟨g, -, rfl⟩ := List.mem_map.mp hu
    rfl
  rw [htimed, Nat.zero_add]
  cases fails with
  | true =>
    have hfailures : weigh (Update.failuresTo f) (op.families.map .addFailure) =
        if f ∈ op.families then 1 else 0 := weigh_families (families_nodup op) f fun _ => rfl
    simpa [Operation.outcome] using hfailures
  | false => cases op <;> simp [Operation.outcome, Update.failuresTo, weigh]

theorem totalTo_opening : weigh (Update.totalTo f) op.opening = 0 := by
  refine weigh_zero fun u hu => ?_
  obtain ⟨g, -, rfl⟩ := List.mem_map.mp hu
  rfl

theorem totalTo_closing :
    weigh (Update.totalTo f) (op.closing e fails) = if f ∈ op.timed then e.toNat else 0 := by
  rw [Operation.closing, weigh_append, weigh_timed _ _ fun _ => rfl,
    weigh_families (timed_nodup op) f fun _ => rfl]
  have htail : weigh (Update.totalTo f) (op.outcome fails) = 0 := by
    refine weigh_zero fun u hu => ?_
    rcases mem_outcome hu with ⟨g, rfl⟩ | ⟨length, rfl⟩ <;> rfl
  rw [htail, Nat.add_zero]

theorem mem_closing_maxMs (t : UInt32) :
    .maxMs f t ∈ op.opening ++ op.closing e fails ↔ f ∈ op.timed ∧ t = e := by
  rw [List.mem_append, Operation.closing, List.mem_append]
  constructor
  · rintro (hu | hu | hu)
    · obtain ⟨g, -, hg⟩ := List.mem_map.mp hu
      cases hg
    · obtain ⟨g, hg, hu⟩ := List.mem_flatMap.mp hu
      simp only [List.mem_cons, reduceCtorEq, Update.maxMs.injEq, List.not_mem_nil, or_false,
        false_or] at hu
      obtain ⟨rfl, rfl⟩ := hu
      exact ⟨hg, rfl⟩
    · rcases mem_outcome hu with ⟨g, hg⟩ | ⟨length, hg⟩ <;> cases hg
  · rintro ⟨hf, rfl⟩
    exact Or.inr (Or.inl (List.mem_flatMap.mpr ⟨f, hf, by simp⟩))

theorem bytesTo_call :
    weigh Update.bytesTo (op.opening ++ op.closing e fails) =
      match op with
      | .fillEntropy length => if fails then 0 else (UInt32.ofNat length).toNat
      | _ => 0 := by
  cases op <;> cases fails <;>
    simp [Operation.opening, Operation.closing, Operation.families, Operation.timed,
      Operation.outcome, Update.bytesTo, weigh]

end Closing

theorem sum_indicator {α : Type*} (p : α → Bool) (l : List α) :
    (l.map fun x => if p x = true then 1 else 0).sum = l.countP p := by
  induction l with
  | nil => rfl
  | cons x l ih =>
    rw [List.map_cons, List.sum_cons, ih, List.countP_cons, Nat.add_comm]

theorem sum_filter {α : Type*} (p : α → Bool) (g : α → Nat) (l : List α) :
    (l.map fun x => if p x = true then g x else 0).sum = ((l.filter p).map g).sum := by
  induction l with
  | nil => rfl
  | cons x l ih =>
    rw [List.map_cons, List.sum_cons, ih, List.filter_cons]
    split_ifs
    · rw [List.map_cons, List.sum_cons]
    · rw [Nat.zero_add]

/-- Summing residues is summing. -/
theorem ofNat_sum_mod {α : Type*} (g : α → Nat) (l : List α) :
    UInt32.ofNat (l.map fun x => (UInt32.ofNat (g x)).toNat).sum = UInt32.ofNat (l.map g).sum := by
  induction l with
  | nil => rfl
  | cons x l ih =>
    rw [List.map_cons, List.map_cons, List.sum_cons, List.sum_cons, UInt32.ofNat_add, UInt32.ofNat_add,
      ih, UInt32.ofNat_toNat]

/-- What a finished call has added to a counter. -/
theorem weigh_made {w : Update → Nat} {c : Client} (hwf : c.Wf) (hq : c.finished = true) :
    weigh w c.made =
      if c.operation.trivial then 0
      else weigh w c.operation.opening + weigh w (c.operation.closing c.spent c.erred) := by
  unfold Client.Wf at hwf
  split_ifs at hwf ⊢ with htrivial
  · rw [hwf.1]
    rfl
  · unfold Client.finished at hq
    unfold Client.Script at hwf
    unfold Client.erred
    cases hpc : c.pc with
    | returned result =>
      rw [hpc] at hwf
      rw [show c.made = _ from hwf, weigh_append]
    | _ =>
      rw [hpc] at hq
      cases hq

theorem timed_of_trivial {op : Operation} (h : op.trivial = true) : op.timed = [] := by
  rw [(trivial_iff op).mp h]
  rfl

/-! ## §4 The counters -/

/-- The counters of a firmware in which no call is in progress. -/
structure Exact (s : State) : Prop where
  /-- `*_REQUESTS` and `*_TESTS`: the calls. -/
  requests : ∀ f, s.counters.requests f = UInt32.ofNat (s.clients.countP fun c => c.counts f)
  /-- `*_FAILURES`: those that returned an error. -/
  failures : ∀ f,
    s.counters.failures f = UInt32.ofNat (s.clients.countP fun c => c.erred && c.counts f)
  totalMs : ∀ f, s.counters.totalMs f =
    UInt32.ofNat ((s.clients.filter fun c => c.times f).map fun c => c.spent.toNat).sum
  /-- `*_MAX_MS` is the longest time of a call. -/
  longest : ∀ f, ∀ c ∈ s.clients, c.times f = true → c.spent ≤ s.counters.maxMs f
  attained : ∀ f, s.counters.maxMs f = 0 ∨
    ∃ c ∈ s.clients, c.times f = true ∧ c.spent = s.counters.maxMs f
  entropyBytes : s.counters.entropyBytes = UInt32.ofNat (s.clients.map Client.delivered).sum

theorem Counted.exact {s : State} (h : Counted s) (hq : ∀ c ∈ s.clients, c.finished = true) :
    Exact s := by
  have hsum : ∀ {w : Update → Nat} {g : Client → Nat},
      (∀ c ∈ s.clients, weigh w c.made = g c) → weigh w (allMade s) = (s.clients.map g).sum := by
    intro w g hg
    rw [allMade, weigh_allMade, List.map_congr_left hg]
  have hmade : ∀ c ∈ s.clients, ∀ f t, .maxMs f t ∈ c.made ↔ c.times f = true ∧ t = c.spent := by
    intro c hc f t
    have hwf := h.wf c hc
    have hfin := hq c hc
    unfold Client.Wf at hwf
    split_ifs at hwf with htrivial
    · simp [hwf.1, Client.times, timed_of_trivial htrivial]
    · unfold Client.finished at hfin
      unfold Client.Script at hwf
      cases hpc : c.pc with
      | returned result =>
        rw [hpc] at hwf
        rw [show c.made = _ from hwf, mem_closing_maxMs, Client.times, decide_eq_true_iff]
      | _ =>
        rw [hpc] at hfin
        cases hfin
  refine ⟨fun f => ?_, fun f => ?_, fun f => ?_, fun f c hc htimes => ?_, fun f => ?_, ?_⟩
  · rw [h.accounts.requests f, ← sum_indicator]
    refine congrArg UInt32.ofNat (hsum fun c hc => ?_)
    rw [weigh_made (h.wf c hc) (hq c hc), requestsTo_opening, requestsTo_closing]
    by_cases htrivial : c.operation.trivial = true <;> simp [Client.counts, htrivial]
  · rw [h.accounts.failures f, ← sum_indicator]
    refine congrArg UInt32.ofNat (hsum fun c hc => ?_)
    rw [weigh_made (h.wf c hc) (hq c hc), failuresTo_opening, failuresTo_closing]
    by_cases htrivial : c.operation.trivial = true <;> simp [Client.counts, htrivial]
  · rw [h.accounts.totalMs f, ← sum_filter]
    refine congrArg UInt32.ofNat (hsum fun c hc => ?_)
    rw [weigh_made (h.wf c hc) (hq c hc), totalTo_opening, totalTo_closing]
    split_ifs with htrivial <;> simp_all [Client.times, timed_of_trivial]
  · exact h.accounts.bound f c.spent
      (List.mem_flatMap.mpr ⟨c, hc, (hmade c hc f c.spent).mpr ⟨htimes, rfl⟩⟩)
  · refine (h.accounts.attained f).imp_right fun hmem => ?_
    obtain ⟨c, hc, hmem⟩ := List.mem_flatMap.mp hmem
    obtain ⟨htimes, hspent⟩ := (hmade c hc f _).mp hmem
    exact ⟨c, hc, htimes, hspent.symm⟩
  · have hbytes : weigh Update.bytesTo (allMade s) =
        (s.clients.map fun c => (UInt32.ofNat c.delivered).toNat).sum := by
      refine hsum fun c hc => ?_
      rw [weigh_made (h.wf c hc) (hq c hc), ← weigh_append, bytesTo_call]
      unfold Client.delivered
      cases hop : c.operation with
      | fillEntropy length =>
        by_cases hzero : length = 0 <;> cases c.erred <;> simp [Operation.trivial, hzero]
      | _ => simp [Operation.trivial]
    rw [h.accounts.entropyBytes, hbytes, ofNat_sum_mod]

/-- A call has counted its request before its failure. -/
theorem failuresTo_le {c : Client} (hwf : c.Wf) (f : Family) :
    weigh (Update.failuresTo f) c.made ≤ weigh (Update.requestsTo f) c.made ∧
      weigh (Update.requestsTo f) c.made ≤ 1 := by
  have hopened : ∀ closed todo e fails, c.made = c.operation.opening ++ closed →
      closed ++ todo = c.operation.closing e fails →
      weigh (Update.failuresTo f) c.made ≤ weigh (Update.requestsTo f) c.made ∧
        weigh (Update.requestsTo f) c.made ≤ 1 := by
    intro closed todo e fails hmade hclosed
    have hreq := requestsTo_closing c.operation e fails f
    have hfail := failuresTo_closing c.operation e fails f
    rw [← hclosed, weigh_append] at hreq hfail
    rw [hmade, weigh_append, weigh_append, requestsTo_opening, failuresTo_opening]
    split_ifs at hfail ⊢ <;> first | omega | simp_all
  unfold Client.Wf at hwf
  split_ifs at hwf with htrivial
  · rw [hwf.1]
    exact ⟨Nat.le_refl 0, Nat.zero_le 1⟩
  · unfold Client.Script at hwf
    split at hwf
    · have hreq := requestsTo_opening c.operation f
      have hfail := failuresTo_opening c.operation f
      rw [← hwf, weigh_append] at hreq hfail
      split_ifs at hreq <;> omega
    all_goals first
      | exact hopened _ _ _ _ hwf.choose_spec.1 hwf.choose_spec.2
      | exact hopened _ [] _ _ hwf (List.append_nil _)
      | exact hopened [] _ 0 false (hwf.trans (List.append_nil _).symm) rfl

/-- As long as the counters do not wrap, no family shows more failures than requests. -/
theorem failures_le_requests {s : State} (h : Reachable State.step init s)
    (hfew : s.clients.length < 2 ^ 32) (f : Family) :
    s.counters.failures f ≤ s.counters.requests f := by
  have hcounted := reachable_counted h
  have hle : ∀ cs : List Client, (∀ c ∈ cs, c.Wf) →
      weigh (Update.failuresTo f) (cs.flatMap Client.made) ≤
        weigh (Update.requestsTo f) (cs.flatMap Client.made) ∧
      weigh (Update.requestsTo f) (cs.flatMap Client.made) ≤ cs.length := by
    intro cs hcs
    induction cs with
    | nil => exact ⟨Nat.le_refl 0, Nat.le_refl 0⟩
    | cons c cs ih =>
      obtain ⟨hfail, hreq⟩ := ih fun d hd => hcs d (List.mem_cons_of_mem _ hd)
      have hc := failuresTo_le (hcs c List.mem_cons_self) f
      rw [List.flatMap_cons, weigh_append, weigh_append, List.length_cons]
      omega
  obtain ⟨hfail, hreq⟩ := hle s.clients hcounted.wf
  rw [hcounted.accounts.failures f, hcounted.accounts.requests f, UInt32.le_iff_toNat_le, allMade,
    UInt32.toNat_ofNat_of_lt' (lt_of_le_of_lt (hfail.trans hreq) hfew),
    UInt32.toNat_ofNat_of_lt' (lt_of_le_of_lt hreq hfew)]
  exact hfail

theorem failures_le_requests_unsupported :
    ∃ s : State, s.counters.failures .hash = 1 ∧ s.counters.failures .hash ≤ s.counters.requests .hash :=
  ⟨_, rfl, failures_le_requests
    ⟨[.call .hash, .client 0, .clock 0 5, .client 0, .clock 0 7, .client 0, .client 0, .client 0],
      Steps.of_run rfl⟩ (show 1 < 2 ^ 32 by decide) .hash⟩

end HisiRiscv.Crypto.Service
