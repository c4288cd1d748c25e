/-
HisiRiscv.Supplicant.PortTheorems — the port is installed once.

Only the call that has taken the port from FREE to INSTALLING gives it its
next state, and it alone writes the context; so the context of a READY port
is what the call that published READY has written, for ever. All this is
one induction over the run. The results of a call are those its answers
explain; a call that comes to a READY port compares its name with the
installed one, unless `try_init` fails.

  §1 The stored name.
  §2 What a step does to the port.
  §3 The invariant.
  §4 Main results.
-/
import HisiRiscv.Lib.Ledger
import HisiRiscv.Supplicant.Port

namespace HisiRiscv.Supplicant.Port

open HisiRiscv.Machine

/-! ## §1 The stored name -/

/-- An accepted name is stored in front of at least one zero, and has none itself. -/
theorem initialize_ifname {ctx : DriverContext} {ifname : List UInt8}
    (h : DriverContext.initialize ifname = some ctx) :
    0 ∉ ifname ∧ ∃ m, ctx.ifname.toList = ifname ++ List.replicate (m + 1) 0 := by
  unfold DriverContext.initialize at h
  split at h
  · cases h
  · rename_i hvalid
    cases h
    obtain ⟨-, hlen, hzero⟩ : _ ∧ _ ∧ _ := by simpa only [not_or] using hvalid
    refine ⟨fun hmem => hzero (List.contains_iff_mem.mpr hmem),
      ifnameCapacity - ifname.length - 1, ?_⟩
    rw [ByteBuffer.toList_copyAt _ _ _ (by omega), Vector.toList_replicate, List.take_zero,
      List.nil_append, List.drop_replicate]
    congr 2
    omega

/-- The stored name matches itself alone. -/
theorem initialize_matches {ctx : DriverContext} {ifname : List UInt8}
    (h : DriverContext.initialize ifname = some ctx) (other : List UInt8) :
    ctx.matches other = true ↔ other = ifname := by
  obtain ⟨hzero, m, hstored⟩ := initialize_ifname h
  have hpos : ctx.ifname.toList.findIdx? (· == 0) = some ifname.length := by
    rw [hstored, List.findIdx?_append, List.findIdx?_eq_none_iff.mpr, List.replicate_succ,
      List.findIdx?_cons]
    · simp
    · intro b hb
      have hne : b ≠ 0 := fun h0 => hzero (h0 ▸ hb)
      simpa using hne
  unfold DriverContext.matches
  rw [hpos, Option.any_some, hstored, List.take_left, beq_iff_eq, eq_comm]

theorem comparison_eq_ok {ε : Type} {ctx : DriverContext} {ifname : List UInt8}
    (h : DriverContext.initialize ifname = some ctx) (other : List UInt8) :
    (State.comparison ctx other : Outcome ε) = .ok () ↔ other = ifname := by
  rw [← initialize_matches h]
  unfold State.comparison
  split
  · rename_i hmatches
    exact ⟨fun _ => hmatches, fun _ => rfl⟩
  · rename_i hdiffers
    exact ⟨nofun, fun hmatches => absurd hmatches hdiffers⟩

/-! ## §2 What a step does to the port -/

section Touched

variable {ε : Type}

/-- What a call that goes from `pc` to `pc'` may do to the port and the context. -/
inductive Touched (s t : State ε) (pc pc' : Pc ε) : Prop
  | same (hexcl : pc'.exclusive = pc.exclusive) (hport : t.port = s.port)
      (hcontext : t.context = s.context)
  | claimed (hpc : pc.exclusive = false) (hpc' : pc'.exclusive = true) (hfree : s.port = portFree)
      (hport : t.port = portInstalling) (hcontext : t.context = s.context)
  | written (hpc : pc.exclusive = true) (hpc' : pc'.exclusive = true) (hport : t.port = s.port)
  | published (v : UInt8) (hpc : pc.exclusive = true) (hpc' : pc'.exclusive = false)
      (hport : t.port = v) (hleft : v ≠ portInstalling) (hready : v = portReady → pc = .publish)
      (hpoisoned : v = portPoisoned → ∃ install rollback, pc = .poison install rollback)
      (hcontext : t.context = s.context)

/-- The call gives up and lets the next one try. -/
theorem Touched.freed {s t : State ε} {pc pc' : Pc ε} (hpc : pc.exclusive = true)
    (hpc' : pc'.exclusive = false) (hport : t.port = portFree) (hcontext : t.context = s.context) :
    Touched s t pc pc' :=
  .published portFree hpc hpc' hport (by decide) (fun h => absurd h (by decide))
    (fun h => absurd h (by decide)) hcontext

/-- What a step of the system does to the port. -/
structure Transition (s : State ε) (act : Action ε) (t : State ε) : Prop where
  /-- READY and POISONED are final, and so is the context then -/
  final : s.port = portReady ∨ s.port = portPoisoned → t.port = s.port ∧ t.context = s.context
  /-- READY is published by a call whose installs have both returned 0 -/
  published : t.port = portReady → s.port ≠ portReady →
    ∃ k c, act = .step k ∧ s.calls[k]? = some c ∧ c.answers.osInstall = some 0 ∧
      c.answers.driverInstall = some 0
  /-- POISONED is published by a call whose uninstall has failed -/
  spoiled : t.port = portPoisoned → s.port ≠ portPoisoned →
    ∃ k c rollback, act = .step k ∧ s.calls[k]? = some c ∧ rollback ≠ 0 ∧
      c.answers.osUninstall = some rollback

theorem Transition.same {s t : State ε} {act : Action ε} (hport : t.port = s.port)
    (hcontext : t.context = s.context) : Transition s act t where
  final _ := ⟨hport, hcontext⟩
  published h hne := absurd (hport.symm.trans h) hne
  spoiled h hne := absurd (hport.symm.trans h) hne

end Touched

/-! ## §3 The invariant -/

/-- `try_init` succeeded; what the C functions answered. -/
def Answers.asked {ε : Type} (osInstall driverInstall osUninstall : Option Int32) : Answers ε :=
  ⟨some (.ok ()), osInstall, driverInstall, osUninstall⟩

/-- The hooks the call has left installed: an install that returns 0 installs them, and an
uninstall that returns 0 removes the OS hooks. -/
def Answers.hooks {ε : Type} (a : Answers ε) : Bool :=
  a.osInstall == some 0 && a.osUninstall != some 0 || a.driverInstall == some 0

/-- The answers that lead to a result. -/
def Answers.Explain {ε : Type} (a : Answers ε) : Outcome ε → Prop
  | .ok () => a = .asked .none .none .none ∨ a = .asked (some 0) (some 0) .none
  | .error (.runtime e) => a = ⟨some (.error e), .none, .none, .none⟩
  | .error .invalidInterfaceName | .error .busy | .error .poisoned | .error .interfaceConflict =>
      a = .asked .none .none .none
  | .error (.abi code) =>
      code ≠ 0 ∧ (a = .asked (some code) .none .none ∨ a = .asked (some 0) (some code) (some 0))
  | .error (.rollback install rollback) =>
      install ≠ 0 ∧ rollback ≠ 0 ∧ a = .asked (some 0) (some install) (some rollback)

section Inv

variable {ε : Type} {s t : State ε}

/-- The call has the answers it needs to be where it is. -/
def Call.Explained (c : Call ε) : Prop :=
  match c.pc with
  | .tryInit => c.answers = .none
  | .load | .compareName | .compareExchange | .initContext | .refuse | .osInstall =>
      c.answers = .asked none none none
  | .abandon code => code ≠ 0 ∧ c.answers = .asked (some code) none none
  | .driverInstall => c.answers = .asked (some 0) none none
  | .publish => c.answers = .asked (some 0) (some 0) none
  | .osUninstall install => install ≠ 0 ∧ c.answers = .asked (some 0) (some install) none
  | .restore install => install ≠ 0 ∧ c.answers = .asked (some 0) (some install) (some 0)
  | .poison install rollback =>
      install ≠ 0 ∧ rollback ≠ 0 ∧ c.answers = .asked (some 0) (some install) (some rollback)
  | .returned result => c.answers.Explain result

/-- The call has written the context and may yet publish it. -/
def Pc.stored : Pc ε → Bool
  | osInstall | driverInstall | publish => true
  | tryInit | load | compareName | compareExchange | initContext | refuse | abandon _ | osUninstall _
  | restore _ | poison _ _ | returned _ => false

/-- Where a call can be that came to a READY port. -/
def Pc.Late (ctx : DriverContext) (ifname : List UInt8) : Pc ε → Prop
  | tryInit | load | compareName => True
  | returned result => (∃ e, result = .error (.runtime e)) ∨ result = State.comparison ctx ifname
  | compareExchange | initContext | refuse | osInstall | abandon _ | driverInstall | publish
  | osUninstall _ | restore _ | poison _ _ => False

structure State.CallOk (s : State ε) (c : Call ε) : Prop where
  explained : c.Explained
  stored : c.pc.stored = true → DriverContext.initialize c.ifname = some s.context
  reading : c.pc = .compareName → s.port = portReady
  late : c.late = true → s.port = portReady ∧ c.pc.Late s.context c.ifname
  ok : c.pc = .returned (.ok ()) → s.port = portReady ∧ s.context.matches c.ifname = true

/-- The call has installed the port. -/
structure State.Installer (s : State ε) (c : Call ε) : Prop where
  returned : c.pc = .returned (.ok ())
  answers : c.answers = .asked (some 0) (some 0) none
  stored : DriverContext.initialize c.ifname = some s.context

structure Inv (s : State ε) : Prop where
  /-- as many calls own the port as its state says -/
  owner : s.calls.countP (fun c => c.pc.exclusive) = (s.port == portInstalling).toNat
  call : ∀ c ∈ s.calls, s.CallOk c
  installer : s.port = portReady → ∃ c ∈ s.calls, s.Installer c

theorem inv_init : Inv (init : State ε) where
  owner := rfl
  call _ hc := absurd hc List.not_mem_nil
  installer h := absurd (show portFree = portReady from h) (by decide)

theorem Pc.exclusive_of_stored {pc : Pc ε} (h : pc.stored = true) : pc.exclusive = true := by
  cases pc <;> first | rfl | cases h

/-- A step that keeps a READY port, and the context of the call if it owns the port. -/
theorem State.CallOk.mono {c : Call ε} (h : s.CallOk c)
    (hready : s.port = portReady → t.port = portReady ∧ t.context = s.context)
    (howned : c.pc.exclusive = true → t.context = s.context) : t.CallOk c where
  explained := h.explained
  stored hstored := by
    rw [howned (Pc.exclusive_of_stored hstored)]
    exact h.stored hstored
  reading hpc := (hready (h.reading hpc)).1
  late hlate := by
    obtain ⟨hport, hpc⟩ := h.late hlate
    obtain ⟨hport', hcontext⟩ := hready hport
    exact ⟨hport', hcontext ▸ hpc⟩
  ok hpc := by
    obtain ⟨hport, hmatches⟩ := h.ok hpc
    obtain ⟨hport', hcontext⟩ := hready hport
    exact ⟨hport', hcontext ▸ hmatches⟩

theorem State.CallOk.congr {c : Call ε} (h : s.CallOk c) (hport : t.port = s.port)
    (hcontext : t.context = s.context) : t.CallOk c :=
  h.mono (fun hready => ⟨hport.trans hready, hcontext⟩) fun _ => hcontext

theorem Inv.installing (h : Inv s) {c : Call ε} (hc : c ∈ s.calls) (hexcl : c.pc.exclusive = true) :
    s.port = portInstalling := by
  have hpos : 0 < s.calls.countP (fun c => c.pc.exclusive) := List.countP_pos_iff.mpr ⟨c, hc, hexcl⟩
  rw [h.owner] at hpos
  by_contra hport
  rw [beq_eq_false_iff_ne.mpr hport] at hpos
  exact Nat.lt_irrefl 0 hpos

/-- Nobody else owns the port. -/
theorem Inv.alone (h : Inv s) {j k : Nat} {c c' : Call ε} (hk : s.calls[k]? = some c)
    (hj : s.calls[j]? = some c') (hexcl : c.pc.exclusive = true) (hexcl' : c'.pc.exclusive = true) :
    j = k := by
  refine Ledger.index_unique_of_countP (p := fun c => c.pc.exclusive) ?_ hj hk hexcl' hexcl
  rw [h.owner]
  exact Bool.toNat_le _

/-- Whoever moves, READY and POISONED are final. -/
theorem Inv.final (h : Inv s) {c : Call ε} (hc : c ∈ s.calls) {pc' : Pc ε}
    (ht : Touched s t c.pc pc') (hport : s.port = portReady ∨ s.port = portPoisoned) :
    t.port = s.port ∧ t.context = s.context := by
  have hfree : s.port ≠ portFree := by
    rcases hport with hport | hport <;> rw [hport] <;> decide
  have hinstalling : s.port ≠ portInstalling := by
    rcases hport with hport | hport <;> rw [hport] <;> decide
  cases ht with
  | same _ hport' hcontext => exact ⟨hport', hcontext⟩
  | claimed _ _ hclaim => exact absurd hclaim hfree
  | written hpc | published _ hpc => exact absurd (h.installing hc hpc) hinstalling

theorem Inv.ready (h : Inv s) {c : Call ε} (hc : c ∈ s.calls) {pc' : Pc ε}
    (ht : Touched s t c.pc pc') (hport : s.port = portReady) :
    t.port = portReady ∧ t.context = s.context := by
  obtain ⟨hport', hcontext⟩ := h.final hc ht (.inl hport)
  exact ⟨hport'.trans hport, hcontext⟩

/-- The owners of the port after a step. -/
theorem Inv.owner_set (h : Inv s) {k : Nat} {c d : Call ε} (hk : s.calls[k]? = some c)
    (ht : Touched s t c.pc d.pc) :
    (s.calls.set k d).countP (fun c => c.pc.exclusive) = (t.port == portInstalling).toNat := by
  have hcount := Ledger.countP_set_toNat (fun c => c.pc.exclusive) hk d
  rw [h.owner] at hcount
  have hinstalling := h.installing (List.mem_of_getElem? hk)
  cases ht with
  | same hexcl hport _ =>
    rw [hexcl] at hcount
    rw [hport]
    exact Nat.add_right_cancel hcount
  | claimed hpc hpc' hfree hport _ =>
    rw [hpc, hpc', hfree] at hcount
    rw [hport]
    exact hcount
  | written hpc hpc' hport =>
    rw [hpc, hpc'] at hcount
    rw [hport]
    exact Nat.add_right_cancel hcount
  | published v hpc hpc' hport hleft _ _ _ =>
    rw [hpc, hpc', hinstalling hpc] at hcount
    rw [hport, beq_eq_false_iff_ne.mpr hleft]
    exact Nat.add_right_cancel hcount

/-- A step of one call. -/
theorem Inv.move (h : Inv s) {k : Nat} {c d : Call ε} (hk : s.calls[k]? = some c)
    (hcalls : t.calls = s.calls.set k d) (ht : Touched s t c.pc d.pc) (hd : t.CallOk d)
    (hrunning : c.pc ≠ .returned (.ok ())) (hpublish : c.pc = .publish → t.Installer d) : Inv t := by
  have hmem := List.mem_of_getElem? hk
  refine ⟨?_, fun e he => ?_, fun hport => ?_⟩
  · rw [hcalls]
    exact h.owner_set hk ht
  · rw [hcalls] at he
    obtain ⟨j, hj⟩ := List.mem_iff_getElem?.mp he
    rcases Ledger.getElem?_set_cases hj with ⟨-, rfl⟩ | ⟨hne, hj'⟩
    · exact hd
    · refine (h.call e (List.mem_of_getElem? hj')).mono (h.ready hmem ht) fun hexcl => ?_
      cases ht with
      | same _ _ hcontext | claimed _ _ _ _ hcontext | published _ _ _ _ _ _ _ hcontext =>
        exact hcontext
      | written hpc => exact absurd (h.alone hk hj' hpc hexcl) hne
  · rw [hcalls]
    have hkept : s.port = portReady → ∃ c ∈ s.calls.set k d, t.Installer c := by
      intro hready
      obtain ⟨e, he, hinst⟩ := h.installer hready
      have hne : e ≠ c := by
        rintro rfl
        exact hrunning hinst.returned
      refine ⟨e, Ledger.mem_set_of_ne hk he hne, hinst.returned, hinst.answers, ?_⟩
      rw [(h.ready hmem ht hready).2]
      exact hinst.stored
    cases ht with
    | same _ hport' _ | written _ _ hport' => exact hkept (hport'.symm.trans hport)
    | claimed _ _ _ hport' _ =>
      rw [hport'] at hport
      exact absurd hport (by decide)
    | published v _ _ hport' _ hready _ _ =>
      have hlt : k < s.calls.length := (List.getElem?_eq_some_iff.mp hk).1
      exact ⟨d, List.mem_set hlt d, hpublish (hready (hport'.symm.trans hport))⟩

/-- What the step does to the port. -/
theorem Inv.transition (h : Inv s) {k : Nat} {c : Call ε} {pc' : Pc ε} (hk : s.calls[k]? = some c)
    (ht : Touched s t c.pc pc') : Transition s (.step k) t := by
  have hmem := List.mem_of_getElem? hk
  have hexplained := (h.call c hmem).explained
  refine ⟨h.final hmem ht, fun hport hne => ?_, fun hport hne => ?_⟩
  · cases ht with
    | same _ hport' _ | written _ _ hport' => exact absurd (hport'.symm.trans hport) hne
    | claimed _ _ _ hport' _ =>
      rw [hport'] at hport
      exact absurd hport (by decide)
    | published v _ _ hport' _ hready _ _ =>
      rw [Call.Explained, hready (hport'.symm.trans hport)] at hexplained
      exact ⟨k, c, rfl, hk, congrArg Answers.osInstall hexplained,
        congrArg Answers.driverInstall hexplained⟩
  · cases ht with
    | same _ hport' _ | written _ _ hport' => exact absurd (hport'.symm.trans hport) hne
    | claimed _ _ _ hport' _ =>
      rw [hport'] at hport
      exact absurd hport (by decide)
    | published v _ _ hport' _ _ hpoisoned _ =>
      obtain ⟨install, rollback, hpc⟩ := hpoisoned (hport'.symm.trans hport)
      rw [Call.Explained, hpc] at hexplained
      obtain ⟨-, hrollback, hanswers⟩ := hexplained
      exact ⟨k, c, rollback, rfl, hk, hrollback, congrArg Answers.osUninstall hanswers⟩

theorem afterLoad_not_exclusive (port : UInt8) :
    (State.afterLoad port : Pc ε).exclusive = false := by
  unfold State.afterLoad
  split_ifs <;> rfl

/-- A call that loads the state. -/
theorem State.CallOk.load {c : Call ε} (h : s.CallOk c) (hpc : c.pc = .load) :
    s.CallOk { c with late := c.late || s.port == portReady, pc := State.afterLoad s.port } := by
  have hexplained := h.explained
  rw [Call.Explained, hpc] at hexplained
  have hlate : (c.late || s.port == portReady) = true → s.port = portReady := by
    intro hlate
    rcases (Bool.or_eq_true ..).mp hlate with hlate | hnow
    · exact (h.late hlate).1
    · exact beq_iff_eq.mp hnow
  unfold State.afterLoad
  split_ifs with hready hinstalling hpoisoned hfree
  · exact ⟨hexplained, nofun, fun _ => hready, fun h' => ⟨hready, trivial⟩, nofun⟩
  all_goals exact ⟨hexplained, nofun, nofun, fun h' => absurd (hlate h') hready, nofun⟩

/-- A call that compares its name with the stored one. -/
theorem State.CallOk.compareName {c : Call ε} (h : s.CallOk c) (hpc : c.pc = .compareName) :
    s.CallOk { c with pc := .returned (State.comparison s.context c.ifname) } := by
  have hexplained := h.explained
  rw [Call.Explained, hpc] at hexplained
  have hready := h.reading hpc
  unfold State.comparison
  split
  · rename_i hmatches
    refine ⟨.inl hexplained, nofun, nofun, fun _ => ⟨hready, .inr ?_⟩, fun _ => ⟨hready, hmatches⟩⟩
    rw [State.comparison, if_pos hmatches]
  · rename_i hdiffers
    refine ⟨hexplained, nofun, nofun, fun _ => ⟨hready, .inr ?_⟩, nofun⟩
    rw [State.comparison, if_neg hdiffers]

theorem inv_stepCall (h : Inv s) {k : Nat} {c : Call ε} (hk : s.calls[k]? = some c)
    (hs : s.stepCall k c = some t) : Inv t ∧ Transition s (.step k) t := by
  have hc := h.call c (List.mem_of_getElem? hk)
  have key : ∀ d : Call ε, t.calls = s.calls.set k d → Touched s t c.pc d.pc → t.CallOk d →
      c.pc ≠ .returned (.ok ()) → (c.pc = .publish → t.Installer d) →
      Inv t ∧ Transition s (.step k) t := fun d hcalls ht hd hrunning hpublish =>
    ⟨h.move hk hcalls ht hd hrunning hpublish, h.transition hk ht⟩
  obtain ⟨ifname, late, answers, pc⟩ := c
  cases pc with
  | load =>
    cases hs
    exact key _ rfl (.same (afterLoad_not_exclusive _) rfl rfl) ((hc.load rfl).congr rfl rfl) nofun
      nofun
  | compareName =>
    cases hs
    exact key _ rfl (.same rfl rfl rfl) ((hc.compareName rfl).congr rfl rfl) nofun nofun
  | compareExchange =>
    simp only [State.stepCall] at hs
    split at hs
    · rename_i hfree
      cases hs
      exact key _ rfl (.claimed rfl rfl hfree rfl rfl)
        ⟨hc.explained, nofun, nofun, fun h' => (hc.late h').2.elim, nofun⟩ nofun nofun
    · cases hs
      exact key _ rfl (.same rfl rfl rfl)
        ⟨hc.explained, nofun, nofun, fun h' => (hc.late h').2.elim, nofun⟩ nofun nofun
  | initContext =>
    simp only [State.stepCall] at hs
    split at hs
    · cases hs
      exact key _ rfl (.same rfl rfl rfl)
        ⟨hc.explained, nofun, nofun, fun h' => (hc.late h').2.elim, nofun⟩ nofun nofun
    · rename_i context hinitialized
      cases hs
      exact key _ rfl (.written rfl rfl rfl)
        ⟨hc.explained, fun _ => hinitialized, nofun, fun h' => (hc.late h').2.elim, nofun⟩ nofun nofun
  | refuse =>
    cases hs
    exact key _ rfl (.freed rfl rfl rfl rfl)
      ⟨hc.explained, nofun, nofun, fun h' => (hc.late h').2.elim, nofun⟩ nofun nofun
  | abandon code =>
    cases hs
    obtain ⟨hcode, hanswers⟩ := hc.explained
    exact key _ rfl (.freed rfl rfl rfl rfl)
      ⟨⟨hcode, .inl hanswers⟩, nofun, nofun, fun h' => (hc.late h').2.elim, nofun⟩ nofun nofun
  | publish =>
    cases hs
    have hstored := hc.stored rfl
    exact key _ rfl
      (.published portReady rfl rfl rfl (by decide) (fun _ => rfl) (fun h' => absurd h' (by decide))
        rfl)
      ⟨.inr hc.explained, nofun, nofun, fun h' => (hc.late h').2.elim,
        fun _ => ⟨rfl, (initialize_matches hstored ifname).mpr rfl⟩⟩
      nofun fun _ => ⟨rfl, hc.explained, hstored⟩
  | restore install =>
    cases hs
    obtain ⟨hcode, hanswers⟩ := hc.explained
    exact key _ rfl (.freed rfl rfl rfl rfl)
      ⟨⟨hcode, .inr hanswers⟩, nofun, nofun, fun h' => (hc.late h').2.elim, nofun⟩ nofun nofun
  | poison install rollback =>
    cases hs
    exact key _ rfl
      (.published portPoisoned rfl rfl rfl (by decide) (fun h' => absurd h' (by decide))
        (fun _ => ⟨install, rollback, rfl⟩) rfl)
      ⟨hc.explained, nofun, nofun, fun h' => (hc.late h').2.elim, nofun⟩ nofun nofun
  | tryInit | osInstall | driverInstall | osUninstall _ | returned _ => cases hs

/-- A step that only tells a call something. -/
theorem Inv.goto (h : Inv s) {k : Nat} {c c' : Call ε} {pc : Pc ε} (hk : s.calls[k]? = some c)
    (hexcl : pc.exclusive = c.pc.exclusive) (hc' : s.CallOk { c' with pc })
    (hrunning : c.pc ≠ .returned (.ok ())) (hpublish : c.pc ≠ .publish) : Inv (s.goto k c' pc) :=
  h.move hk rfl (.same hexcl rfl rfl) (hc'.congr rfl rfl) hrunning fun h' => absurd h' hpublish

/-- `try_init` answers. -/
theorem inv_stepTryInit (h : Inv s) {k : Nat} {c : Call ε} {result : Except ε Unit}
    (hk : s.calls[k]? = some c) (hs : s.stepTryInit k c result = some t) :
    Inv t ∧ ∀ act, Transition s act t := by
  have hc := h.call c (List.mem_of_getElem? hk)
  obtain ⟨ifname, late, answers, pc⟩ := c
  cases pc with
  | tryInit =>
    cases hs
    refine ⟨?_, fun act => .same rfl rfl⟩
    obtain rfl : answers = .none := hc.explained
    cases result with
    | ok u =>
      exact h.goto hk rfl ⟨rfl, nofun, nofun, fun h' => ⟨(hc.late h').1, trivial⟩, nofun⟩ nofun nofun
    | error e =>
      exact h.goto hk rfl
        ⟨rfl, nofun, nofun, fun h' => ⟨(hc.late h').1, .inl ⟨e, rfl⟩⟩, nofun⟩ nofun nofun
  | load | compareName | compareExchange | initContext | refuse | osInstall | abandon _
  | driverInstall | publish | osUninstall _ | restore _ | poison _ _ | returned _ => cases hs

/-- A C function answers. -/
theorem inv_stepAnswer (h : Inv s) {k : Nat} {c : Call ε} {code : Int32}
    (hk : s.calls[k]? = some c) (hs : s.stepAnswer k c code = some t) :
    Inv t ∧ ∀ act, Transition s act t := by
  have hc := h.call c (List.mem_of_getElem? hk)
  obtain ⟨ifname, late, answers, pc⟩ := c
  cases pc with
  | osInstall =>
    cases hs
    refine ⟨?_, fun act => .same rfl rfl⟩
    obtain rfl : answers = .asked none none none := hc.explained
    split
    · rename_i hcode
      exact h.goto hk rfl
        ⟨⟨hcode, rfl⟩, nofun, nofun, fun h' => (hc.late h').2.elim, nofun⟩ nofun nofun
    · rename_i hcode
      obtain rfl := not_not.mp hcode
      exact h.goto hk rfl
        ⟨rfl, fun _ => hc.stored rfl, nofun, fun h' => (hc.late h').2.elim, nofun⟩ nofun nofun
  | driverInstall =>
    cases hs
    refine ⟨?_, fun act => .same rfl rfl⟩
    obtain rfl : answers = .asked (some 0) none none := hc.explained
    split
    · rename_i hcode
      obtain rfl := hcode
      exact h.goto hk rfl
        ⟨rfl, fun _ => hc.stored rfl, nofun, fun h' => (hc.late h').2.elim, nofun⟩ nofun nofun
    · rename_i hcode
      exact h.goto hk rfl
        ⟨⟨hcode, rfl⟩, nofun, nofun, fun h' => (hc.late h').2.elim, nofun⟩ nofun nofun
  | osUninstall install =>
    cases hs
    refine ⟨?_, fun act => .same rfl rfl⟩
    obtain ⟨hinstall, hanswers⟩ := hc.explained
    obtain rfl : answers = .asked (some 0) (some install) none := hanswers
    split
    · rename_i hcode
      obtain rfl := hcode
      exact h.goto hk rfl
        ⟨⟨hinstall, rfl⟩, nofun, nofun, fun h' => (hc.late h').2.elim, nofun⟩ nofun nofun
    · rename_i hcode
      exact h.goto hk rfl
        ⟨⟨hinstall, hcode, rfl⟩, nofun, nofun, fun h' => (hc.late h').2.elim, nofun⟩ nofun nofun
  | tryInit | load | compareName | compareExchange | initContext | refuse | abandon _ | publish
  | restore _ | poison _ _ | returned _ => cases hs

/-- **The state word is a lock**, and READY and POISONED close it for good. -/
theorem inv_step (h : Inv s) {act : Action ε} (hs : step s act = some t) :
    Inv t ∧ Transition s act t := by
  cases act with
  | prepareUpstreamSupplicantPort ifname =>
    cases hs
    refine ⟨⟨?_, fun c hc => ?_, fun hport => ?_⟩, .same rfl rfl⟩
    · rw [List.countP_append, h.owner]
      rfl
    · rcases List.mem_append.mp hc with hc | hc
      · exact (h.call c hc).congr rfl rfl
      · obtain rfl := List.mem_singleton.mp hc
        exact ⟨rfl, nofun, nofun, fun h' => ⟨beq_iff_eq.mp h', trivial⟩, nofun⟩
    · obtain ⟨c, hc, hinst⟩ := h.installer hport
      exact ⟨c, List.mem_append_left _ hc, hinst.returned, hinst.answers, hinst.stored⟩
  | tryInit k result =>
    obtain ⟨c, hk, hs⟩ := Option.bind_eq_some_iff.mp hs
    obtain ⟨hinv, htrans⟩ := inv_stepTryInit h hk hs
    exact ⟨hinv, htrans _⟩
  | answer k code =>
    obtain ⟨c, hk, hs⟩ := Option.bind_eq_some_iff.mp hs
    obtain ⟨hinv, htrans⟩ := inv_stepAnswer h hk hs
    exact ⟨hinv, htrans _⟩
  | step k =>
    obtain ⟨c, hk, hs⟩ := Option.bind_eq_some_iff.mp hs
    exact inv_stepCall h hk hs

theorem inv_reachable (h : Reachable step init s) : Inv s :=
  h.invariant inv_init fun _ _ _ ht hs => (inv_step ht hs).1

/-- An error other than Rollback leaves no hooks. -/
theorem Call.Explained.hooks_eq_false {c : Call ε} (h : c.Explained)
    {e : UpstreamSupplicantPortError ε} (hpc : c.pc = .returned (.error e))
    (he : ∀ install rollback, e ≠ .rollback install rollback) : c.answers.hooks = false := by
  rw [Call.Explained, hpc] at h
  cases e with
  | runtime e =>
    rw [show c.answers = ⟨some (.error e), none, none, none⟩ from h]
    rfl
  | invalidInterfaceName | busy | poisoned | interfaceConflict =>
    rw [show c.answers = .asked none none none from h]
    rfl
  | abi code =>
    obtain ⟨hcode, hanswers | hanswers⟩ := h
    · simp [hanswers, Answers.asked, Answers.hooks, hcode]
    · simp [hanswers, Answers.asked, Answers.hooks, hcode]
  | rollback install rollback => exact absurd rfl (he install rollback)

/-- A late call whose `try_init` succeeds returns what the comparison says. -/
theorem State.CallOk.result_eq {c : Call ε} (h : s.CallOk c) (hlate : c.late = true)
    (htry : c.answers.tryInit = some (.ok ())) {result : Outcome ε} (hpc : c.pc = .returned result) :
    result = State.comparison s.context c.ifname := by
  have hresult := (h.late hlate).2
  rw [hpc] at hresult
  rcases hresult with ⟨e, rfl⟩ | hresult
  · have hexplained := h.explained
    rw [Call.Explained, hpc] at hexplained
    rw [show c.answers = ⟨some (.error e), none, none, none⟩ from hexplained] at htry
    cases htry
  · exact hresult

/-! ## §4 Main results -/

/-- The context is not written while a name is compared with it. -/
theorem context_not_shared (h : Reachable step init s) {c c' : Call ε} (hc : c ∈ s.calls)
    (hc' : c' ∈ s.calls) (hpc : c.pc = .compareName) : c'.pc ≠ .initContext := by
  intro hpc'
  have hinv := inv_reachable h
  have hinstalling := hinv.installing hc' (hpc' ▸ rfl)
  rw [(hinv.call c hc).reading hpc] at hinstalling
  exact absurd hinstalling (by decide)

/-- **The port is installed once.** At most one call owns the port; READY is published
after both installs and POISONED after a failed uninstall, and both are final, as the
name is; the calls that return Ok have the installed name, a late one returns Ok
exactly if it has, unless `try_init` fails, and an error other than Rollback leaves no
hooks. -/
theorem port_installed_once (h : Reachable step init s) :
    s.calls.countP (fun c => c.pc.exclusive) ≤ 1 ∧
      (∀ act t, step s act = some t → Transition s act t) ∧
      (s.port = portReady → ∃ installer ∈ s.calls, s.Installer installer ∧ ∀ c ∈ s.calls,
        (c.pc = .returned (.ok ()) → c.ifname = installer.ifname) ∧
          (c.late = true → c.answers.tryInit = some (.ok ()) → ∀ result, c.pc = .returned result →
            (result = .ok () ↔ c.ifname = installer.ifname))) ∧
      ∀ c ∈ s.calls, ∀ e, c.pc = .returned (.error e) →
        (∀ install rollback, e ≠ .rollback install rollback) → c.answers.hooks = false := by
  have hinv := inv_reachable h
  refine ⟨?_, fun act t hs => (inv_step hinv hs).2, fun hport => ?_, fun c hc e hpc he => ?_⟩
  · rw [hinv.owner]
    exact Bool.toNat_le _
  · obtain ⟨c₀, hc₀, hinstaller⟩ := hinv.installer hport
    refine ⟨c₀, hc₀, hinstaller, fun c hc => ⟨fun hpc => ?_, fun hlate htry result hpc => ?_⟩⟩
    · exact (initialize_matches hinstaller.stored _).mp ((hinv.call c hc).ok hpc).2
    · rw [(hinv.call c hc).result_eq hlate htry hpc]
      exact comparison_eq_ok hinstaller.stored _
  · exact (hinv.call c hc).explained.hooks_eq_false hpc he

end Inv

/-- A call installs the port for an interface; then another one begins. -/
def sampleRun (ifname : List UInt8) (result : Except Unit Unit) : List (Action Unit) :=
  [.prepareUpstreamSupplicantPort [119, 48], .tryInit 0 (.ok ()), .step 0, .step 0, .step 0,
    .answer 0 0, .answer 0 0, .step 0, .prepareUpstreamSupplicantPort ifname, .tryInit 1 result]

/-- The second call comes with another name. -/
theorem port_installed_once_sample : ∃ s : State Unit,
    s.calls.map Call.pc = [.returned (.ok ()), .returned (.error .interfaceConflict)] ∧
      ∃ installer ∈ s.calls, s.Installer installer := by
  have hrun : (run step init (sampleRun [119] (.ok ()) ++ [.step 1, .step 1])).map
      (fun s => (s.port, s.calls.map Call.pc)) =
        some (portReady, [.returned (.ok ()), .returned (.error .interfaceConflict)]) := by
    decide +kernel
  obtain ⟨s, hs, hfinal⟩ := Option.map_eq_some_iff.mp hrun
  obtain ⟨hport, hpcs⟩ := Prod.mk.inj hfinal
  obtain ⟨installer, hmem, hinstaller, -⟩ :=
    (port_installed_once ⟨_, Steps.of_run hs⟩).2.2.1 hport
  exact ⟨s, hpcs, installer, hmem, hinstaller⟩

/-- A late call with the installed name fails if `try_init` does. -/
theorem port_refused_by_runtime :
    ¬ ∀ s : State Unit, Reachable step init s → s.port = portReady →
      ∃ installer ∈ s.calls, s.Installer installer ∧ ∀ c ∈ s.calls, c.late = true →
        ∀ result, c.pc = .returned result → (result = .ok () ↔ c.ifname = installer.ifname) := by
  intro hclaim
  have hrun : (run step init (sampleRun [119, 48] (.error ()))).map
      (fun s => (s.port, s.calls)) = some (portReady,
        [⟨[119, 48], false, .asked (some 0) (some 0) none, .returned (.ok ())⟩,
          ⟨[119, 48], true, ⟨some (.error ()), none, none, none⟩,
            .returned (.error (.runtime ()))⟩]) := by
    decide +kernel
  obtain ⟨s, hs, hfinal⟩ := Option.map_eq_some_iff.mp hrun
  obtain ⟨hport, hcalls⟩ := Prod.mk.inj hfinal
  obtain ⟨installer, hmem, -, hresults⟩ := hclaim s ⟨_, Steps.of_run hs⟩ hport
  rw [hcalls] at hmem hresults
  have hname : installer.ifname = [119, 48] := by
    simp only [List.mem_cons, List.not_mem_nil, or_false] at hmem
    rcases hmem with rfl | rfl <;> rfl
  have hresult := hresults _ (List.mem_cons_of_mem _ (List.mem_singleton_self _)) rfl _ rfl
  exact absurd (hresult.mpr hname.symm) (by decide)

end HisiRiscv.Supplicant.Port
