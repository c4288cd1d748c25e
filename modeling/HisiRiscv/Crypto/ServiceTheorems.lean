/-
HisiRiscv.Crypto.ServiceTheorems — the mutex of the crypto service in
every interleaving.

The mutex of the published service is never destroyed, whoever is between
its lock and its unlock owns it, and so at most one call uses the backend
at a time. Unless an unlock fails, the mutex is free whenever no call is
between the two.

  §1 The invariant of the mutexes.
  §2 Steps of installers.
  §3 Steps of calls.
  §4 Exclusion.
  §5 The way out.
  §6 What a step does to a call.
-/
import HisiRiscv.Crypto.Service
import HisiRiscv.Lib.Ledger

namespace HisiRiscv.Crypto.Service

open HisiRiscv.Machine
open HisiRiscv.Ledger

/-! ## §1 The invariant of the mutexes -/

namespace Installer

/-- The mutex that only this installer knows. -/
def owns : Installer → Option Nat
  | .storage mutex | .cell mutex | .destroying mutex => some mutex
  | .creating | .publishing _ | .returned _ => none

/-- It has filled the cell of the service. -/
def won : Installer → Bool
  | .publishing _ => true
  | .returned (.ok ()) => true
  | .creating | .storage _ | .cell _ | .destroying _ | .returned (.error _) => false

/-- It has filled the storage and not yet the cell. -/
def between : Installer → Bool
  | .cell _ => true
  | .creating | .storage _ | .publishing _ | .destroying _ | .returned _ => false

theorem owns_of_won {p : Installer} (h : p.won = true) : p.owns = none := by
  unfold won at h
  split at h
  · rfl
  · rfl
  all_goals cases h

end Installer

open State

structure Inv (s : State) : Prop where
  noFaults : s.faults = []
  /-- The pointer points to the service in the cell. -/
  service : ∀ m, s.service = some m → s.cell = some m
  /-- Its mutex exists, and its creator has won. -/
  cell : ∀ m, s.cell = some m → ∃ owner creator p,
    s.mutexes[m]? = some ⟨true, owner, creator⟩ ∧ s.installers[creator]? = some p ∧ p.won = true
  owns : ∀ (i : Nat) (p : Installer) (m : Nat), s.installers[i]? = some p → p.owns = some m →
    s.mutexes[m]? = some ⟨true, none, i⟩
  won : ∀ (i : Nat) (p : Installer), s.installers[i]? = some p → p.won = true →
    ∃ m owner, s.cell = some m ∧ s.mutexes[m]? = some ⟨true, owner, i⟩ ∧
      ∀ m', p = .publishing m' → m' = m
  /-- The storage lets one installer through. -/
  through : s.installers.countP Installer.between + s.cell.toList.length ≤ s.storage.toNat
  client : ∀ (k : Nat) (c : Client) (m : Nat), s.clients[k]? = some c → c.mutex = some m →
    s.service = some m
  held : ∀ (k : Nat) (c : Client) (m : Nat), s.clients[k]? = some c → c.held = some m →
    ∃ creator, s.mutexes[m]? = some ⟨true, some k, creator⟩

theorem inv_init : Inv init := by
  constructor <;> simp [init]

theorem mutex_of_held {c : Client} {m : Nat} (h : c.held = some m) : c.mutex = some m := by
  unfold Client.held at h
  unfold Client.mutex
  split at h
  all_goals simp_all

/-- The mutex of the service exists. -/
theorem Inv.live {s : State} (h : Inv s) {m : Nat} (hm : s.service = some m) :
    ∃ owner creator, s.mutexes[m]? = some ⟨true, owner, creator⟩ := by
  obtain ⟨owner, creator, -, hmutex, -, -⟩ := h.cell m (h.service m hm)
  exact ⟨owner, creator, hmutex⟩

theorem touch_eq {s : State} {m : Nat} {owner : Option Nat} {creator : Nat}
    (hm : s.mutexes[m]? = some ⟨true, owner, creator⟩) : s.touch m = s := by
  simp [touch, hm]

/-! ## §2 Steps of installers -/

theorem Inv.install {s : State} (h : Inv s) :
    Inv { s with installers := s.installers ++ [.creating] } where
  noFaults := h.noFaults
  service := h.service
  cell m hm := by
    obtain ⟨owner, creator, p, hmutex, hp, hwon⟩ := h.cell m hm
    have hlt : creator < s.installers.length := (List.getElem?_eq_some_iff.mp hp).1
    exact ⟨owner, creator, p, hmutex, (List.getElem?_append_left hlt).trans hp, hwon⟩
  owns i p m hp howns := by
    rcases getElem?_append_cases hp with hp | ⟨-, rfl⟩
    · exact h.owns i p m hp howns
    · cases howns
  won i p hp hwon := by
    rcases getElem?_append_cases hp with hp | ⟨-, rfl⟩
    · exact h.won i p hp hwon
    · cases hwon
  through := by
    rw [List.countP_append]
    exact h.through
  client := h.client
  held := h.held

/-- An installer that neither wins, nor leaves the cell behind, nor gets a
mutex of its own. -/
theorem Inv.gotoInstaller {s : State} (h : Inv s) {i : Nat} {p p' : Installer}
    (hp : s.installers[i]? = some p) (hlost : p.won = false) (hlost' : p'.won = false)
    (howns : ∀ m, p'.owns = some m → p.owns = some m)
    (hbetween : p'.between = true → p.between = true) : Inv (s.gotoInstaller i p') where
  noFaults := h.noFaults
  service := h.service
  cell m hm := by
    obtain ⟨owner, creator, q, hmutex, hq, hwon⟩ := h.cell m hm
    have hne : i ≠ creator := by
      rintro rfl
      rw [hp, Option.some_inj] at hq
      rw [hq, hwon] at hlost
      cases hlost
    exact ⟨owner, creator, q, hmutex, (List.getElem?_set_ne hne).trans hq, hwon⟩
  owns j q m hq hm := by
    rcases getElem?_set_cases hq with ⟨rfl, rfl⟩ | ⟨-, hq⟩
    · exact h.owns j p m hp (howns m hm)
    · exact h.owns j q m hq hm
  won j q hq hwon := by
    rcases getElem?_set_cases hq with ⟨rfl, rfl⟩ | ⟨-, hq⟩
    · rw [hlost'] at hwon
      cases hwon
    · exact h.won j q hq hwon
  through := by
    have hcount := countP_set_toNat Installer.between hp p'
    have hle : (Installer.between p').toNat ≤ (Installer.between p).toNat :=
      Bool.toNat_le_toNat hbetween
    have hthrough := h.through
    show (s.installers.set i p').countP Installer.between + s.cell.toList.length ≤ s.storage.toNat
    omega
  client := h.client
  held := h.held

theorem Inv.create {s : State} (h : Inv s) {i : Nat} (hp : s.installers[i]? = some .creating)
    (ok : Bool) : Inv (s.createMutex i ok) := by
  cases ok with
  | false =>
    exact h.gotoInstaller hp rfl rfl (fun m hm => by cases hm) (fun hb => by cases hb)
  | true =>
    have old : ∀ {m : Nat} {M : Mutex}, s.mutexes[m]? = some M →
        (s.mutexes ++ [(⟨true, none, i⟩ : Mutex)])[m]? = some M := by
      intro m M hM
      rw [List.getElem?_append_left (List.getElem?_eq_some_iff.mp hM).1, hM]
    have hne : ∀ {j : Nat} {q : Installer}, s.installers[j]? = some q → q.won = true → i ≠ j := by
      rintro j q hq hwon rfl
      rw [hp, Option.some_inj] at hq
      rw [← hq] at hwon
      cases hwon
    refine ⟨h.noFaults, h.service, ?_, ?_, ?_, ?_, h.client, ?_⟩
    · intro m hm
      obtain ⟨owner, creator, q, hmutex, hq, hwon⟩ := h.cell m hm
      exact ⟨owner, creator, q, old hmutex,
        (List.getElem?_set_ne (hne hq hwon)).trans hq, hwon⟩
    · intro j q m hq hm
      rcases getElem?_set_cases hq with ⟨rfl, rfl⟩ | ⟨-, hq⟩
      · cases hm
        exact List.getElem?_concat_length
      · exact old (h.owns j q m hq hm)
    · intro j q hq hwon
      rcases getElem?_set_cases hq with ⟨rfl, rfl⟩ | ⟨-, hq⟩
      · cases hwon
      · obtain ⟨m, owner, hm, hmutex, hpub⟩ := h.won j q hq hwon
        exact ⟨m, owner, hm, old hmutex, hpub⟩
    · have hcount := countP_set_eq Installer.between (y := .storage s.mutexes.length) hp rfl
      have hthrough := h.through
      show (s.installers.set i (.storage s.mutexes.length)).countP Installer.between +
        s.cell.toList.length ≤ s.storage.toNat
      rw [hcount]
      exact hthrough
    · intro k c m hc hm
      obtain ⟨creator, hmutex⟩ := h.held k c m hc hm
      exact ⟨creator, old hmutex⟩

/-- The first to reach the storage fills it. -/
theorem Inv.fillStorage {s : State} (h : Inv s) {i m : Nat}
    (hp : s.installers[i]? = some (.storage m)) (hfree : s.storage = false) :
    Inv ({ s with storage := true }.gotoInstaller i (.cell m)) := by
  have hzero := h.through
  rw [hfree] at hzero
  have hcell : s.cell = none := by
    cases hc : s.cell with
    | none => rfl
    | some m' =>
      rw [hc] at hzero
      simp at hzero
  refine ⟨h.noFaults, h.service, ?_, ?_, ?_, ?_, h.client, h.held⟩
  · intro m' hm'
    rw [hcell] at hm'
    cases hm'
  · intro j q m' hq hm'
    rcases getElem?_set_cases hq with ⟨rfl, rfl⟩ | ⟨-, hq⟩
    · exact h.owns j _ m' hp hm'
    · exact h.owns j q m' hq hm'
  · intro j q hq hwon
    rcases getElem?_set_cases hq with ⟨rfl, rfl⟩ | ⟨-, hq⟩
    · cases hwon
    · exact h.won j q hq hwon
  · have hcount := countP_set_insert Installer.between (y := .cell m) hp rfl rfl
    show (s.installers.set i (.cell m)).countP Installer.between + s.cell.toList.length ≤ 1
    rw [hcount, hcell]
    have hle : s.installers.countP Installer.between ≤ 0 := by
      simpa [hcell] using hzero
    simpa using hle

/-- The one that filled the storage finds the cell empty. -/
theorem Inv.cell_empty {s : State} (h : Inv s) {i m : Nat}
    (hp : s.installers[i]? = some (.cell m)) : s.cell = none := by
  have hpos : 0 < s.installers.countP Installer.between :=
    List.countP_pos_iff.mpr ⟨_, List.mem_of_getElem? hp, rfl⟩
  have hthrough := h.through
  have hone : s.storage.toNat ≤ 1 := Bool.toNat_le _
  cases hc : s.cell with
  | none => rfl
  | some m' =>
    rw [hc, Option.toList_some, List.length_singleton] at hthrough
    omega

theorem Inv.fillCell {s : State} (h : Inv s) {i m : Nat}
    (hp : s.installers[i]? = some (.cell m)) :
    Inv ({ s with cell := some m }.gotoInstaller i (.publishing m)) := by
  have hempty := h.cell_empty hp
  have hservice : s.service = none := by
    cases hs : s.service with
    | none => rfl
    | some m' =>
      have := h.service m' hs
      rw [hempty] at this
      cases this
  have hmutex : s.mutexes[m]? = some ⟨true, none, i⟩ := h.owns i _ m hp rfl
  have hlt : i < s.installers.length := (List.getElem?_eq_some_iff.mp hp).1
  refine ⟨h.noFaults, ?_, ?_, ?_, ?_, ?_, h.client, h.held⟩
  · intro m' hm'
    rw [show s.service = some m' from hm'] at hservice
    cases hservice
  · intro m' hm'
    cases hm'
    exact ⟨none, i, .publishing m, hmutex, List.getElem?_set_self hlt, rfl⟩
  · intro j q m' hq hm'
    rcases getElem?_set_cases hq with ⟨rfl, rfl⟩ | ⟨-, hq⟩
    · cases hm'
    · exact h.owns j q m' hq hm'
  · intro j q hq hwon
    rcases getElem?_set_cases hq with ⟨rfl, rfl⟩ | ⟨-, hq⟩
    · exact ⟨m, none, rfl, hmutex, fun m' hm' => (Installer.publishing.inj hm').symm⟩
    · obtain ⟨m', -, hm', -⟩ := h.won j q hq hwon
      rw [hempty] at hm'
      cases hm'
  · have hcount := countP_set Installer.between hp (.publishing m)
    have hthrough := h.through
    rw [hempty] at hthrough
    show (s.installers.set i (.publishing m)).countP Installer.between + 1 ≤ s.storage.toNat
    simp only [Installer.between, if_true, Bool.false_eq_true, if_false, Nat.add_zero] at hcount
    simp only [Option.toList_none, List.length_nil, Nat.add_zero] at hthrough
    omega

theorem Inv.publish {s : State} (h : Inv s) {i m : Nat}
    (hp : s.installers[i]? = some (.publishing m)) :
    Inv ({ s with service := some m }.gotoInstaller i (.returned (.ok ()))) := by
  obtain ⟨m', owner, hcell, hmutex, hpub⟩ := h.won i _ hp rfl
  obtain rfl : m = m' := hpub m rfl
  have hlt : i < s.installers.length := (List.getElem?_eq_some_iff.mp hp).1
  refine ⟨h.noFaults, ?_, ?_, ?_, ?_, ?_, ?_, h.held⟩
  · intro m' hm'
    cases hm'
    exact hcell
  · intro m' hm'
    rw [show s.cell = some m' from hm', Option.some_inj] at hcell
    subst hcell
    exact ⟨owner, i, _, hmutex, List.getElem?_set_self hlt, rfl⟩
  · intro j q m' hq hm'
    rcases getElem?_set_cases hq with ⟨rfl, rfl⟩ | ⟨-, hq⟩
    · cases hm'
    · exact h.owns j q m' hq hm'
  · intro j q hq hwon
    rcases getElem?_set_cases hq with ⟨rfl, rfl⟩ | ⟨-, hq⟩
    · exact ⟨m, owner, hcell, hmutex, fun m' hm' => by cases hm'⟩
    · exact h.won j q hq hwon
  · have hcount := countP_set_eq Installer.between (y := .returned (.ok ())) hp rfl
    have hthrough := h.through
    show (s.installers.set i (.returned (.ok ()))).countP Installer.between +
      s.cell.toList.length ≤ s.storage.toNat
    rwa [hcount]
  · intro k c m' hc hm'
    have hs := h.client k c m' hc hm'
    rw [h.service m' hs, Option.some_inj] at hcell
    exact congrArg some hcell.symm

/-- A mutex that nobody else knows is not the one of the service. -/
theorem Inv.owns_ne_cell {s : State} (h : Inv s) {i m m' : Nat} {p : Installer}
    (hp : s.installers[i]? = some p) (hm : p.owns = some m) (hm' : s.cell = some m') : m ≠ m' := by
  rintro rfl
  obtain ⟨owner, creator, q, hmutex, hq, hwon⟩ := h.cell m hm'
  have hmine := h.owns i p m hp hm
  rw [hmutex, Option.some_inj, Mutex.mk.injEq] at hmine
  obtain ⟨-, -, rfl⟩ := hmine
  rw [hp, Option.some_inj] at hq
  subst hq
  rw [Installer.owns_of_won hwon] at hm
  cases hm

theorem Inv.destroy {s : State} (h : Inv s) {i m : Nat}
    (hp : s.installers[i]? = some (.destroying m)) (ok : Bool) : Inv (s.destroyMutex i m ok) := by
  have hmutex : s.mutexes[m]? = some ⟨true, none, i⟩ := h.owns i _ m hp rfl
  have hleft : Inv (s.gotoInstaller i (.returned (.error .invalidValue))) :=
    h.gotoInstaller hp rfl rfl (fun m hm => by cases hm) (fun hb => by cases hb)
  simp only [destroyMutex, hmutex, touch_eq hmutex]
  cases ok with
  | false => exact hleft
  | true =>
    rw [if_pos rfl]
    -- the entry that changes belongs to nobody else
    have kept : ∀ {m' : Nat} {M : Mutex}, m ≠ m' → s.mutexes[m']? = some M →
        (s.mutexes.set m ⟨false, none, i⟩)[m']? = some M :=
      fun hne hM => (List.getElem?_set_ne hne).trans hM
    refine ⟨hleft.noFaults, hleft.service, ?_, ?_, ?_, hleft.through, hleft.client, ?_⟩
    · intro m' hm'
      obtain ⟨owner, creator, q, hM, hq⟩ := hleft.cell m' hm'
      exact ⟨owner, creator, q, kept (h.owns_ne_cell hp rfl hm') hM, hq⟩
    · intro j q m' hq hm'
      have hM := hleft.owns j q m' hq hm'
      refine kept ?_ hM
      rintro rfl
      rw [show s.mutexes[m]? = some ⟨true, none, j⟩ from hM, Option.some_inj,
        Mutex.mk.injEq] at hmutex
      obtain ⟨-, -, rfl⟩ := hmutex
      rcases getElem?_set_cases hq with ⟨-, rfl⟩ | ⟨hne, -⟩
      · cases hm'
      · exact hne rfl
    · intro j q hq hwon
      obtain ⟨m', owner, hcell, hM, hpub⟩ := hleft.won j q hq hwon
      exact ⟨m', owner, hcell, kept (h.owns_ne_cell hp rfl hcell) hM, hpub⟩
    · intro k c m' hc hm'
      obtain ⟨creator, hM⟩ := hleft.held k c m' hc hm'
      refine ⟨creator, kept ?_ hM⟩
      exact h.owns_ne_cell hp rfl (h.service m' (h.client k c m' hc (mutex_of_held hm')))

/-- A step of an installer that needs no answer. -/
theorem Inv.stepInstaller {s s' : State} (h : Inv s) {i : Nat} {p : Installer}
    (hp : s.installers[i]? = some p) (hs : s.stepInstaller i p = some s') : Inv s' := by
  cases p with
  | creating | destroying | returned => cases hs
  | storage m =>
    simp only [State.stepInstaller, Option.some_inj] at hs
    subst hs
    split <;> rename_i hstorage
    · exact h.gotoInstaller hp rfl rfl (fun m' hm' => hm') (fun hb => by cases hb)
    · exact h.fillStorage hp (Bool.eq_false_iff.mpr hstorage)
  | cell m =>
    simp only [State.stepInstaller, h.cell_empty hp, Option.some_inj] at hs
    subst hs
    exact h.fillCell hp
  | publishing m =>
    simp only [State.stepInstaller, Option.some_inj] at hs
    subst hs
    exact h.publish hp

/-! ## §3 Steps of calls -/

/-- A call uses the mutex of the service, and what it holds it owns. -/
theorem Inv.gotoClient {s : State} (h : Inv s) {k : Nat} {c' : Client}
    (hmutex : ∀ m, c'.mutex = some m → s.service = some m)
    (hheld : ∀ m, c'.held = some m → ∃ creator, s.mutexes[m]? = some ⟨true, some k, creator⟩) :
    Inv (s.gotoClient k c') where
  noFaults := h.noFaults
  service := h.service
  cell := h.cell
  owns := h.owns
  won := h.won
  through := h.through
  client j c m hc hm := by
    rcases getElem?_set_cases hc with ⟨-, rfl⟩ | ⟨-, hc⟩
    · exact hmutex m hm
    · exact h.client j c m hc hm
  held j c m hc hm := by
    rcases getElem?_set_cases hc with ⟨rfl, rfl⟩ | ⟨-, hc⟩
    · exact hheld m hm
    · exact h.held j c m hc hm

/-- A call that uses no mutex any more. -/
theorem Inv.leave {s : State} (h : Inv s) {k : Nat} {c' : Client} (hmutex : c'.mutex = none) :
    Inv (s.gotoClient k c') := by
  refine h.gotoClient (fun m hm => ?_) fun m hm => ?_
  · rw [hmutex] at hm
    cases hm
  · rw [mutex_of_held hm] at hmutex
    cases hmutex

theorem Inv.update {s : State} (h : Inv s) (u : Update) : Inv (s.update u) :=
  ⟨h.noFaults, h.service, h.cell, h.owns, h.won, h.through, h.client, h.held⟩

namespace Client

theorem mutex_countingPc (c : Client) (op : Operation) (todo made : List Update) (spent : UInt32) :
    mutex ⟨c.operation, countingPc op todo, made, spent⟩ = none := by
  unfold countingPc afterCounting mutex
  split_ifs <;> rfl

theorem mutex_recordingPc (op : Operation) (todo made : List Update) (result : Result)
    (spent : UInt32) : mutex ⟨op, recordingPc todo result, made, spent⟩ = none := by
  unfold recordingPc mutex
  split_ifs <;> rfl

theorem mutex_enter (op : Operation) : (enter op).mutex = none := by
  unfold enter countingPc afterCounting mutex
  split_ifs <;> rfl

theorem mutex_answered (c : Client) (started : UInt64) (result : Result) :
    (c.answered started result).mutex = none := by
  unfold answered goto recordingPc mutex
  split_ifs <;> rfl

end Client

theorem Inv.call {s : State} (h : Inv s) (op : Operation) :
    Inv { s with clients := s.clients ++ [Client.enter op] } where
  noFaults := h.noFaults
  service := h.service
  cell := h.cell
  owns := h.owns
  won := h.won
  through := h.through
  client k c m hc hm := by
    rcases getElem?_append_cases hc with hc | ⟨-, rfl⟩
    · exact h.client k c m hc hm
    · rw [Client.mutex_enter] at hm
      cases hm
  held k c m hc hm := by
    rcases getElem?_append_cases hc with hc | ⟨-, rfl⟩
    · exact h.held k c m hc hm
    · have := mutex_of_held hm
      rw [Client.mutex_enter] at this
      cases this

theorem Inv.stepClient {s s' : State} (h : Inv s) {k : Nat} {c : Client}
    (hs : s.stepClient k c = some s') : Inv s' := by
  unfold State.stepClient at hs
  split at hs
  · cases hs
    exact (h.update _).leave (Client.mutex_countingPc ..)
  · cases hs
    exact (h.update _).leave (Client.mutex_recordingPc ..)
  · split at hs <;> rename_i hservice
    · cases hs
      exact h.leave (Client.mutex_answered ..)
    · cases hs
      refine h.gotoClient (fun m hm => ?_) fun m hm => by cases hm
      cases hm
      exact hservice
  all_goals cases hs

theorem Inv.stepClock {s s' : State} (h : Inv s) {k : Nat} {now : UInt64} {c : Client}
    (hs : s.stepClock k now c = some s') : Inv s' := by
  unfold State.stepClock at hs
  split at hs
  · cases hs
    exact h.leave rfl
  · cases hs
    exact h.leave (Client.mutex_recordingPc ..)
  all_goals cases hs

/-- The mutex a call uses exists. -/
theorem Inv.used {s : State} (h : Inv s) {k m : Nat} {c : Client} (hc : s.clients[k]? = some c)
    (hm : c.mutex = some m) : ∃ owner creator, s.mutexes[m]? = some ⟨true, owner, creator⟩ :=
  h.live (h.client k c m hc hm)

theorem Inv.stepLockFails {s s' : State} (h : Inv s) {k : Nat} {error : CryptoError} {c : Client}
    (hc : s.clients[k]? = some c) (hs : s.stepLockFails k error c = some s') : Inv s' := by
  unfold State.stepLockFails at hs
  split at hs
  · rename_i started m hpc
    obtain ⟨owner, creator, hmutex⟩ := h.used hc (m := m) (by rw [Client.mutex, hpc])
    rw [touch_eq hmutex] at hs
    cases hs
    exact h.leave (Client.mutex_answered ..)
  all_goals cases hs

theorem Inv.stepBackend {s s' : State} (h : Inv s) {k : Nat} {result : Result} {c : Client}
    (hc : s.clients[k]? = some c) (hs : s.stepBackend k result c = some s') : Inv s' := by
  unfold State.stepBackend at hs
  split at hs
  · rename_i started m hpc
    cases hs
    refine h.gotoClient (fun m' hm' => ?_) fun m' hm' => ?_
    · cases hm'
      exact h.client k c m hc (by rw [Client.mutex, hpc])
    · cases hm'
      exact h.held k c m hc (by rw [Client.held, hpc])
  all_goals cases hs

/-- Only the owner of one mutex changes, which no call but `k` holds. -/
theorem Inv.setOwner {s : State} (h : Inv s) {k m creator : Nat} {owner : Option Nat}
    (owner' : Option Nat) (hmutex : s.mutexes[m]? = some ⟨true, owner, creator⟩) (hservice : s.service = some m)
    (hk : owner = none ∨ owner = some k) (hout : ∀ c, s.clients[k]? = some c → c.held = none) :
    Inv (s.setMutex m ⟨true, owner', creator⟩) := by
  have hlt : m < s.mutexes.length := (List.getElem?_eq_some_iff.mp hmutex).1
  have hcell := h.service m hservice
  refine ⟨h.noFaults, h.service, ?_, ?_, ?_, h.through, h.client, ?_⟩
  · intro m' hm'
    obtain ⟨owner₁, creator₁, p, hM, hp⟩ := h.cell m' hm'
    rw [show s.cell = some m' from hm', Option.some_inj] at hcell
    subst hcell
    rw [hM, Option.some_inj, Mutex.mk.injEq] at hmutex
    obtain ⟨-, -, rfl⟩ := hmutex
    exact ⟨owner', creator₁, p, List.getElem?_set_self hlt, hp⟩
  · intro i p m' hp hm'
    exact (List.getElem?_set_ne (h.owns_ne_cell hp hm' hcell).symm).trans (h.owns i p m' hp hm')
  · intro i p hp hwon
    obtain ⟨m', owner₁, hcell', hM, hpub⟩ := h.won i p hp hwon
    rw [hcell, Option.some_inj] at hcell'
    subst hcell'
    rw [hM, Option.some_inj, Mutex.mk.injEq] at hmutex
    obtain ⟨-, -, rfl⟩ := hmutex
    exact ⟨m, owner', hcell, List.getElem?_set_self hlt, hpub⟩
  · intro j c m' hc hm'
    obtain ⟨creator₁, hM⟩ := h.held j c m' hc hm'
    have hne : m ≠ m' := by
      rintro rfl
      rw [hM, Option.some_inj, Mutex.mk.injEq] at hmutex
      obtain ⟨-, howner, -⟩ := hmutex
      rcases hk with rfl | rfl
      · cases howner
      · cases howner
        rw [hout c hc] at hm'
        cases hm'
    exact ⟨creator₁, (List.getElem?_set_ne hne).trans hM⟩

theorem Inv.stepAcquires {s s' : State} (h : Inv s) {k : Nat} {c : Client}
    (hc : s.clients[k]? = some c) (hs : s.stepAcquires k c = some s') : Inv s' := by
  unfold State.stepAcquires at hs
  split at hs
  · rename_i started m hpc
    split at hs
    · rename_i creator hmutex
      cases hs
      have hservice := h.client k c m hc (by rw [Client.mutex, hpc])
      have hout : ∀ c', s.clients[k]? = some c' → c'.held = none := by
        intro c' hc'
        rw [hc, Option.some_inj] at hc'
        rw [← hc', Client.held, hpc]
      refine (h.setOwner (some k) hmutex hservice (Or.inl rfl) hout).gotoClient
        (fun m' hm' => ?_) fun m' hm' => ?_
      · cases hm'
        exact hservice
      · cases hm'
        exact ⟨creator, List.getElem?_set_self (List.getElem?_eq_some_iff.mp hmutex).1⟩
    · cases hs
  all_goals cases hs

theorem held_of_mutex_none {c : Client} (h : c.mutex = none) : c.held = none := by
  cases hc : c.held with
  | none => rfl
  | some m =>
    rw [mutex_of_held hc] at h
    cases h

theorem Inv.stepUnlock {s s' : State} (h : Inv s) {k : Nat} {ok : Bool} {c : Client}
    (hc : s.clients[k]? = some c) (hs : s.stepUnlock k ok c = some s') : Inv s' := by
  unfold State.stepUnlock at hs
  split at hs
  · rename_i started m result hpc
    obtain ⟨creator, hmutex⟩ := h.held k c m hc (by rw [Client.held, hpc])
    have hleft : Inv (s.gotoClient k (c.answered started (unlocked result ok))) :=
      h.leave (Client.mutex_answered ..)
    simp only [hmutex, touch_eq hmutex, Option.some_inj] at hs
    subst hs
    cases ok with
    | false => exact hleft
    | true =>
      refine hleft.setOwner (k := k) none hmutex ?_ (Or.inr rfl) fun c' hc' => ?_
      · exact h.client k c m hc (by rw [Client.mutex, hpc])
      · rcases getElem?_set_cases hc' with ⟨-, rfl⟩ | ⟨hne, -⟩
        · exact held_of_mutex_none (Client.mutex_answered ..)
        · exact (hne rfl).elim
  all_goals cases hs

/-! ## §4 Exclusion -/

theorem Inv.step {s s' : State} {a : Action} (h : Inv s) (hs : State.step s a = some s') :
    Inv s' := by
  cases a with
  | install =>
    cases hs
    exact h.install
  | call op =>
    cases hs
    exact h.call op
  | create i ok =>
    rw [State.step] at hs
    split at hs <;> rename_i hp
    · cases hs
      exact h.create hp ok
    · cases hs
  | installer i =>
    obtain ⟨p, hp, hs⟩ := Option.bind_eq_some_iff.mp hs
    exact h.stepInstaller hp hs
  | destroy i ok =>
    rw [State.step] at hs
    split at hs
    · rename_i m hp
      cases hs
      exact h.destroy hp ok
    · cases hs
  | client k =>
    obtain ⟨c, hc, hs⟩ := Option.bind_eq_some_iff.mp hs
    exact h.stepClient hs
  | clock k now =>
    obtain ⟨c, hc, hs⟩ := Option.bind_eq_some_iff.mp hs
    exact h.stepClock hs
  | acquires k =>
    obtain ⟨c, hc, hs⟩ := Option.bind_eq_some_iff.mp hs
    exact h.stepAcquires hc hs
  | timesOut k | lockFails k =>
    obtain ⟨c, hc, hs⟩ := Option.bind_eq_some_iff.mp hs
    exact h.stepLockFails hc hs
  | backend k result =>
    obtain ⟨c, hc, hs⟩ := Option.bind_eq_some_iff.mp hs
    exact h.stepBackend hc hs
  | unlock k ok =>
    obtain ⟨c, hc, hs⟩ := Option.bind_eq_some_iff.mp hs
    exact h.stepUnlock hc hs

theorem reachable_inv {s : State} (h : Reachable State.step init s) : Inv s :=
  h.invariant inv_init fun _ _ _ hI hs => hI.step hs

/-- Two calls that hold a mutex are one. -/
theorem Inv.exclusive {s : State} (h : Inv s) {k k' m m' : Nat} {c c' : Client}
    (hc : s.clients[k]? = some c) (hc' : s.clients[k']? = some c') (hm : c.held = some m)
    (hm' : c'.held = some m') : k = k' := by
  have hs := h.client k c m hc (mutex_of_held hm)
  rw [h.client k' c' m' hc' (mutex_of_held hm'), Option.some_inj] at hs
  subst hs
  obtain ⟨creator, hM⟩ := h.held k c _ hc hm
  obtain ⟨creator', hM'⟩ := h.held k' c' _ hc' hm'
  rw [hM, Option.some_inj, Mutex.mk.injEq, Option.some_inj] at hM'
  exact hM'.2.1

/-- What no interleaving of installers and calls breaks. -/
structure Safe (s : State) : Prop where
  /-- No operation on a mutex that is destroyed. -/
  noFaults : s.faults = []
  /-- At most one call is between its lock and its unlock. -/
  exclusive : s.clients.countP (fun c => c.held.isSome) ≤ 1
  /-- It owns the mutex of the published service, which exists. -/
  owner : ∀ (k : Nat) (c : Client) (m : Nat), s.clients[k]? = some c → c.held = some m →
    s.service = some m ∧ ∃ creator, s.mutexes[m]? = some ⟨true, some k, creator⟩
  /-- At most one installation succeeds, and it has published its service. -/
  installed : ∀ i, s.installers[i]? = some (.returned (.ok ())) →
    (∃ m owner, s.cell = some m ∧ s.mutexes[m]? = some ⟨true, owner, i⟩) ∧
      ∀ j, s.installers[j]? = some (.returned (.ok ())) → j = i
  /-- Who has filled the storage finds the cell empty. -/
  cellEmpty : ∀ (i m : Nat), s.installers[i]? = some (.cell m) → s.cell = none

/-- An installation, and a cipher call that the backend works for. -/
def cipherRun : List Action :=
  [.install, .create 0 true, .installer 0, .installer 0, .installer 0, .call .cipher, .client 0,
    .clock 0 5, .client 0, .acquires 0]

/-- The unlock succeeds. -/
def Unlocks (_ : State) (a : Action) : Prop := ∀ k, a ≠ .unlock k false

/-- Every owner is between its lock and its unlock. -/
def Owned (s : State) : Prop :=
  ∀ (m k creator : Nat) (live : Bool), s.mutexes[m]? = some ⟨live, some k, creator⟩ →
    ∃ c, s.clients[k]? = some c ∧ c.held = some m

theorem owned_init : Owned init := by
  intro m k creator live h
  cases h

/-- Calls that hold nothing come and go. -/
theorem Owned.gotoClient {s : State} (h : Owned s) {k : Nat} {c c' : Client}
    (hc : s.clients[k]? = some c) (hheld : ∀ m, c.held = some m → c'.held = some m) :
    Owned (s.gotoClient k c') := by
  intro m j creator live hM
  obtain ⟨c₁, hc₁, hm⟩ := h m j creator live hM
  by_cases hj : k = j
  · subst hj
    rw [hc, Option.some_inj] at hc₁
    subst hc₁
    exact ⟨c', List.getElem?_set_self (List.getElem?_eq_some_iff.mp hc).1, hheld m hm⟩
  · exact ⟨c₁, (List.getElem?_set_ne hj).trans hc₁, hm⟩

theorem Owned.stepInstaller {s s' : State} (h : Owned s) {i : Nat} {p : Installer}
    (hs : s.stepInstaller i p = some s') : Owned s' := by
  cases p with
  | creating | destroying | returned => cases hs
  | storage m =>
    simp only [State.stepInstaller, Option.some_inj] at hs
    subst hs
    split <;> exact h
  | cell m =>
    simp only [State.stepInstaller] at hs
    split at hs <;> (cases hs; exact h)
  | publishing m =>
    simp only [State.stepInstaller, Option.some_inj] at hs
    subst hs
    exact h

theorem Owned.create {s : State} (h : Owned s) (i : Nat) (ok : Bool) :
    Owned (s.createMutex i ok) := by
  cases ok with
  | false => exact h
  | true =>
    intro m k creator live hM
    rcases getElem?_append_cases (l := s.mutexes) hM with hM | ⟨-, hM⟩
    · exact h m k creator live hM
    · cases hM

theorem Owned.destroy {s : State} (h : Owned s) (hinv : Inv s) {i m : Nat}
    (hp : s.installers[i]? = some (.destroying m)) (ok : Bool) : Owned (s.destroyMutex i m ok) := by
  have hmutex : s.mutexes[m]? = some ⟨true, none, i⟩ := hinv.owns i _ m hp rfl
  simp only [destroyMutex, hmutex, touch_eq hmutex]
  cases ok with
  | false => exact h
  | true =>
    intro m' k creator live hM
    rcases getElem?_set_cases hM with ⟨-, hM⟩ | ⟨-, hM⟩
    · cases hM
    · exact h m' k creator live hM

/-- A step of a call from a place where it holds nothing. -/
theorem Owned.goFrom {s : State} (h : Owned s) {k : Nat} {c : Client} (hc : s.clients[k]? = some c)
    (hout : c.held = none) (c' : Client) : Owned (s.gotoClient k c') := by
  refine h.gotoClient hc fun m hm => ?_
  rw [hout] at hm
  cases hm

theorem Owned.stepClient {s s' : State} (h : Owned s) {k : Nat} {c : Client}
    (hc : s.clients[k]? = some c) (hs : s.stepClient k c = some s') : Owned s' := by
  unfold State.stepClient at hs
  split at hs
  · rename_i hpc
    cases hs
    exact Owned.goFrom (s := s.update _) h hc (by rw [Client.held, hpc]) _
  · rename_i hpc
    cases hs
    exact Owned.goFrom (s := s.update _) h hc (by rw [Client.held, hpc]) _
  · rename_i hpc
    split at hs <;> (cases hs; exact h.goFrom hc (by rw [Client.held, hpc]) _)
  all_goals cases hs

theorem Owned.stepClock {s s' : State} (h : Owned s) {k : Nat} {now : UInt64} {c : Client}
    (hc : s.clients[k]? = some c) (hs : s.stepClock k now c = some s') : Owned s' := by
  unfold State.stepClock at hs
  split at hs
  · rename_i hpc
    cases hs
    exact h.goFrom hc (by rw [Client.held, hpc]) _
  · rename_i hpc
    cases hs
    exact h.goFrom hc (by rw [Client.held, hpc]) _
  all_goals cases hs

theorem Owned.stepLockFails {s s' : State} (h : Owned s) (hinv : Inv s) {k : Nat}
    {error : CryptoError} {c : Client} (hc : s.clients[k]? = some c)
    (hs : s.stepLockFails k error c = some s') : Owned s' := by
  unfold State.stepLockFails at hs
  split at hs
  · rename_i started m hpc
    obtain ⟨owner, creator, hmutex⟩ := hinv.used hc (m := m) (by rw [Client.mutex, hpc])
    rw [touch_eq hmutex] at hs
    cases hs
    exact h.goFrom hc (by rw [Client.held, hpc]) _
  all_goals cases hs

theorem Owned.stepBackend {s s' : State} (h : Owned s) {k : Nat} {result : Result} {c : Client}
    (hc : s.clients[k]? = some c) (hs : s.stepBackend k result c = some s') : Owned s' := by
  unfold State.stepBackend at hs
  split at hs
  · rename_i started m hpc
    cases hs
    refine h.gotoClient hc fun m' hm' => ?_
    rw [Client.held, hpc] at hm'
    exact hm'
  all_goals cases hs

theorem Owned.stepAcquires {s s' : State} (h : Owned s) {k : Nat} {c : Client}
    (hc : s.clients[k]? = some c) (hs : s.stepAcquires k c = some s') : Owned s' := by
  unfold State.stepAcquires at hs
  split at hs
  · rename_i started m hpc
    split at hs
    · rename_i creator hmutex
      cases hs
      intro m' j creator' live hM
      rcases getElem?_set_cases hM with ⟨hm', hM'⟩ | ⟨-, hM'⟩
      · cases hM'
        rw [hm']
        exact ⟨_, List.getElem?_set_self (List.getElem?_eq_some_iff.mp hc).1, rfl⟩
      · exact h.goFrom hc (by rw [Client.held, hpc]) _ m' j creator' live hM'
    · cases hs
  all_goals cases hs

theorem Owned.stepUnlock {s s' : State} (h : Owned s) (hinv : Inv s) {k : Nat} {c : Client}
    (hc : s.clients[k]? = some c) (hs : s.stepUnlock k true c = some s') : Owned s' := by
  unfold State.stepUnlock at hs
  split at hs
  · rename_i started m result hpc
    obtain ⟨creator, hmutex⟩ := hinv.held k c m hc (by rw [Client.held, hpc])
    simp only [hmutex, touch_eq hmutex, if_true, Option.some_inj] at hs
    subst hs
    intro m' j creator' live hM
    rcases getElem?_set_cases hM with ⟨-, hM⟩ | ⟨hne, hM⟩
    · cases hM
    · obtain ⟨c₁, hc₁, hm'⟩ := h m' j creator' live hM
      by_cases hj : k = j
      · subst hj
        rw [hc, Option.some_inj] at hc₁
        subst hc₁
        rw [Client.held, hpc] at hm'
        exact (hne (Option.some.inj hm').symm).elim
      · exact ⟨c₁, (List.getElem?_set_ne hj).trans hc₁, hm'⟩
  all_goals cases hs

theorem Owned.step {s s' : State} {a : Action} (h : Owned s) (hinv : Inv s) (hok : Unlocks s a)
    (hs : State.step s a = some s') : Owned s' := by
  cases a with
  | install =>
    cases hs
    exact h
  | call op =>
    cases hs
    intro m k creator live hM
    obtain ⟨c, hc, hm⟩ := h m k creator live hM
    exact ⟨c, (List.getElem?_append_left (List.getElem?_eq_some_iff.mp hc).1).trans hc, hm⟩
  | create i ok =>
    rw [State.step] at hs
    split at hs
    · cases hs
      exact h.create i ok
    · cases hs
  | installer i =>
    obtain ⟨p, hp, hs⟩ := Option.bind_eq_some_iff.mp hs
    exact h.stepInstaller hs
  | destroy i ok =>
    rw [State.step] at hs
    split at hs
    · rename_i m hp
      cases hs
      exact h.destroy hinv hp ok
    · cases hs
  | client k =>
    obtain ⟨c, hc, hs⟩ := Option.bind_eq_some_iff.mp hs
    exact h.stepClient hc hs
  | clock k now =>
    obtain ⟨c, hc, hs⟩ := Option.bind_eq_some_iff.mp hs
    exact h.stepClock hc hs
  | acquires k =>
    obtain ⟨c, hc, hs⟩ := Option.bind_eq_some_iff.mp hs
    exact h.stepAcquires hc hs
  | timesOut k | lockFails k =>
    obtain ⟨c, hc, hs⟩ := Option.bind_eq_some_iff.mp hs
    exact h.stepLockFails hinv hc hs
  | backend k result =>
    obtain ⟨c, hc, hs⟩ := Option.bind_eq_some_iff.mp hs
    exact h.stepBackend hc hs
  | unlock k ok =>
    cases ok with
    | false => exact (hok k rfl).elim
    | true =>
      obtain ⟨c, hc, hs⟩ := Option.bind_eq_some_iff.mp hs
      exact h.stepUnlock hinv hc hs

/-- Every way out of `with_crypto_service` gives the mutex back: unless an
unlock fails, a call that waits for the mutex can have it exactly when no
call is between its lock and its unlock. -/
theorem can_acquire_iff {s : State} {as : List Action} (h : Steps State.step Unlocks init as s)
    {k m : Nat} {started : UInt64} {c : Client} (hc : s.clients[k]? = some c)
    (hpc : c.pc = .locking started m) :
    (State.step s (.acquires k)).isSome ↔ ∀ c' ∈ s.clients, c'.held = none := by
  obtain ⟨hinv, howned⟩ : Inv s ∧ Owned s :=
    h.invariant (I := fun s => Inv s ∧ Owned s) ⟨inv_init, owned_init⟩
      fun _ _ _ hI hok hs => ⟨hI.1.step hs, hI.2.step hI.1 hok hs⟩
  obtain ⟨owner, creator, hmutex⟩ := hinv.used hc (m := m) (by rw [Client.mutex, hpc])
  have hservice := hinv.client k c m hc (by rw [Client.mutex, hpc])
  have henabled : (State.step s (.acquires k)).isSome ↔ owner = none := by
    simp only [State.step, hc, Option.bind_some, State.stepAcquires, hpc, hmutex]
    cases owner <;> simp
  rw [henabled]
  constructor
  · rintro rfl c' hc'
    obtain ⟨j, hj⟩ := List.mem_iff_getElem?.mp hc'
    cases hm : c'.held with
    | none => rfl
    | some m' =>
      obtain ⟨creator', hM⟩ := hinv.held j c' m' hj hm
      have hs' := hinv.client j c' m' hj (mutex_of_held hm)
      rw [hservice, Option.some_inj] at hs'
      rw [← hs', hmutex] at hM
      cases hM
  · intro hfree
    cases owner with
    | none => rfl
    | some j =>
      obtain ⟨c', hc', hm⟩ := howned m j creator true hmutex
      rw [hfree c' (List.mem_of_getElem? hc')] at hm
      cases hm

/-- The machine without failing unlocks. -/
instance (s : State) (a : Action) : Decidable (Unlocks s a) :=
  match a with
  | .unlock k false => isFalse fun h => h k rfl
  | .unlock _ true | .install | .call _ | .create _ _ | .installer _ | .destroy _ _ | .client _
  | .clock _ _ | .acquires _ | .timesOut _ | .lockFails _ | .backend _ _ =>
      isTrue fun _ h => by cases h

/-- A hash waits while the cipher call works. -/
def waitingRun : List Action := cipherRun ++ [.call .hash, .client 1, .clock 1 6, .client 1]

theorem can_acquire_iff_hash : ∃ s, ((State.step s (.acquires 1)).isSome ↔
    ∀ c' ∈ s.clients, c'.held = none) ∧ s.clients.length = 2 :=
  have hrun : Steps State.step Unlocks init waitingRun _ := Steps.of_run_guarded rfl
  ⟨_, can_acquire_iff hrun (k := 1) (m := 0) rfl rfl, rfl⟩

/-! ## §6 What a step does to a call -/

/-- The call has not yet loaded the pointer. -/
def Client.preparing (c : Client) : Bool :=
  match c.pc with
  | .counting _ | .starting | .loading _ => true
  | .locking _ _ | .operating _ _ | .unlocking _ _ _ | .timing _ _ | .recording _ _ | .returned _ => false

/-- The step `a` takes call `k` from `c` to `c'`. -/
def Client.Goes (a : Action) (k : Nat) (c c' : Client) : Prop :=
  match c.pc with
  | .counting _ | .starting => c'.preparing = true
  | .loading started => (∃ m, c'.pc = .locking started m) ∨ ∃ error, c' = c.answered started (.error error)
  | .locking started m =>
      a = .acquires k ∧ c'.pc = .operating started m ∨ ∃ error, c' = c.answered started (.error error)
  | .operating started m => ∃ result, a = .backend k result ∧ c'.pc = .unlocking started m result
  | .unlocking started _ result => ∃ ok, c' = c.answered started (unlocked result ok)
  | .timing _ result | .recording _ result => ∃ todo, c'.pc = Client.recordingPc todo result
  | .returned _ => False

theorem preparing_countingPc (c : Client) (op : Operation) (todo made : List Update)
    (spent : UInt32) :
    Client.preparing ⟨c.operation, Client.countingPc op todo, made, spent⟩ = true := by
  unfold Client.countingPc Client.afterCounting Client.preparing
  split_ifs <;> rfl

theorem clients_touch (s : State) (m : Nat) : (s.touch m).clients = s.clients := by
  unfold State.touch
  split <;> rfl

/-- Where the call that moves stands afterwards. -/
theorem goes_of_set {a : Action} {k : Nat} {cs cs' : List Client} {c : Client} (c' : Client)
    (hc : cs[k]? = some c) (hcs : cs' = cs.set k c') (hop : c'.operation = c.operation)
    (hgoes : Client.Goes a k c c') :
    ∀ (j : Nat) (d : Client), cs[j]? = some d → ∃ d', cs'[j]? = some d' ∧ d'.operation = d.operation ∧
      (d' = d ∨ Client.Goes a j d d') := by
  intro j d hd
  subst hcs
  by_cases hj : k = j
  · subst hj
    rw [hc, Option.some_inj] at hd
    subst hd
    exact ⟨c', List.getElem?_set_self (List.getElem?_eq_some_iff.mp hc).1, hop, Or.inr hgoes⟩
  · exact ⟨d, (List.getElem?_set_ne hj).trans hd, rfl, Or.inl rfl⟩

/-- A call stays or goes on from its place, and is never forgotten. -/
theorem step_client {s s' : State} {a : Action} (hs : State.step s a = some s') :
    ∀ (j : Nat) (d : Client), s.clients[j]? = some d → ∃ d', s'.clients[j]? = some d' ∧
      d'.operation = d.operation ∧ (d' = d ∨ Client.Goes a j d d') := by
  have same : s'.clients = s.clients → ∀ (j : Nat) (d : Client), s.clients[j]? = some d →
      ∃ d', s'.clients[j]? = some d' ∧ d'.operation = d.operation ∧ (d' = d ∨ Client.Goes a j d d') :=
    fun heq j d hd => ⟨d, by rw [heq, hd], rfl, Or.inl rfl⟩
  cases a with
  | install =>
    cases hs
    exact same rfl
  | call op =>
    cases hs
    intro j d hd
    exact ⟨d, (List.getElem?_append_left (List.getElem?_eq_some_iff.mp hd).1).trans hd, rfl, Or.inl rfl⟩
  | create i ok =>
    rw [State.step] at hs
    split at hs
    · cases hs
      refine same ?_
      cases ok <;> rfl
    · cases hs
  | installer i =>
    obtain ⟨p, hp, hs⟩ := Option.bind_eq_some_iff.mp hs
    refine same ?_
    cases p with
    | creating | destroying | returned => cases hs
    | storage m =>
      cases hs
      split <;> rfl
    | cell m =>
      simp only [State.stepInstaller] at hs
      split at hs <;> (cases hs; rfl)
    | publishing m =>
      cases hs
      rfl
  | destroy i ok =>
    rw [State.step] at hs
    split at hs
    · rename_i m hp
      cases hs
      refine same ?_
      unfold destroyMutex
      dsimp only
      split
      · split
        · exact clients_touch s m
        · exact clients_touch s m
      · exact clients_touch s m
    · cases hs
  | client k =>
    obtain ⟨c, hc, hs⟩ := Option.bind_eq_some_iff.mp hs
    unfold State.stepClient at hs
    split at hs
    · rename_i u todo hpc
      cases hs
      refine goes_of_set _ hc rfl rfl ?_
      rw [Client.Goes, hpc]
      exact preparing_countingPc ..
    · rename_i u todo result hpc
      cases hs
      refine goes_of_set _ hc rfl rfl ?_
      rw [Client.Goes, hpc]
      exact ⟨todo, rfl⟩
    · rename_i started hpc
      split at hs
      · cases hs
        refine goes_of_set _ hc rfl rfl ?_
        rw [Client.Goes, hpc]
        exact Or.inr ⟨_, rfl⟩
      · rename_i m _
        cases hs
        refine goes_of_set _ hc rfl rfl ?_
        rw [Client.Goes, hpc]
        exact Or.inl ⟨m, rfl⟩
    all_goals cases hs
  | clock k now =>
    obtain ⟨c, hc, hs⟩ := Option.bind_eq_some_iff.mp hs
    unfold State.stepClock at hs
    split at hs
    · rename_i hpc
      cases hs
      refine goes_of_set _ hc rfl rfl ?_
      rw [Client.Goes, hpc]
      rfl
    · rename_i started result hpc
      cases hs
      refine goes_of_set _ hc rfl rfl ?_
      rw [Client.Goes, hpc]
      exact ⟨_, rfl⟩
    all_goals cases hs
  | acquires k =>
    obtain ⟨c, hc, hs⟩ := Option.bind_eq_some_iff.mp hs
    unfold State.stepAcquires at hs
    split at hs
    · rename_i started m hpc
      split at hs
      · cases hs
        refine goes_of_set _ hc rfl rfl ?_
        rw [Client.Goes, hpc]
        exact Or.inl ⟨rfl, rfl⟩
      · cases hs
    all_goals cases hs
  | timesOut k | lockFails k =>
    obtain ⟨c, hc, hs⟩ := Option.bind_eq_some_iff.mp hs
    unfold State.stepLockFails at hs
    split at hs
    · rename_i started m hpc
      have hset : ∀ c', ((s.touch m).gotoClient k c').clients = s.clients.set k c' := by
        intro c'
        rw [State.gotoClient, clients_touch]
      cases hs
      refine goes_of_set _ hc (hset _) rfl ?_
      rw [Client.Goes, hpc]
      exact Or.inr ⟨_, rfl⟩
    all_goals cases hs
  | backend k result =>
    obtain ⟨c, hc, hs⟩ := Option.bind_eq_some_iff.mp hs
    unfold State.stepBackend at hs
    split at hs
    · rename_i started m hpc
      cases hs
      refine goes_of_set _ hc rfl rfl ?_
      rw [Client.Goes, hpc]
      exact ⟨result, rfl, rfl⟩
    all_goals cases hs
  | unlock k ok =>
    obtain ⟨c, hc, hs⟩ := Option.bind_eq_some_iff.mp hs
    unfold State.stepUnlock at hs
    split at hs
    · rename_i started m result hpc
      have hgoes : Client.Goes (.unlock k ok) k c (c.answered started (unlocked result ok)) := by
        rw [Client.Goes, hpc]
        exact ⟨ok, rfl⟩
      refine goes_of_set (c.answered started (unlocked result ok)) hc ?_ rfl hgoes
      have hafter : ((s.touch m).gotoClient k (c.answered started (unlocked result ok))).clients =
          s.clients.set k (c.answered started (unlocked result ok)) := by
        rw [State.gotoClient, clients_touch]
      dsimp only at hs
      split at hs
      · cases hs
        split <;> exact hafter
      · cases hs
        exact hafter
    all_goals cases hs

end HisiRiscv.Crypto.Service
