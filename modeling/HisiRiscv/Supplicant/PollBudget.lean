/-
HisiRiscv.Supplicant.PollBudget — a poll stays within its work budget.

The runner keeps one of the budget for `hisi_wpa_poll`, spends the rest on events and frames,
and grants hostap what is left, but at least one. `Tally` counts along a run what
the current or last poll has fed and what it has granted; the invariant is
that what has been fed and what is left of `rx_budget` make up `rx_grant`. What is counted is
what the lanes enter as fed, and the frames.

  §1 The tally of a poll.
  §2 The invariant.
  §3 The step.
  §4 The ledgers of the lanes.
  §5 Main result.
-/
import HisiRiscv.Supplicant.Drain

namespace HisiRiscv.Supplicant.Poll

open HisiRiscv.Machine

variable {sys : RadioSys}

/-! ## §1 The tally of a poll -/

/-- The budget that `hisi_wpa_poll` is called with: `rx_budget.max(1)`. -/
def hisiWpaPollGrant (budget : ℕ) : ℕ := max budget 1

/-- The events that the lanes have fed. -/
def eventsFed (lanes : (k : QueueKind) → Lane (k.layout sys)) : ℕ :=
  (lanes .mgmt).fed.length + (lanes .scan).fed.length + (lanes .link).fed.length +
    (lanes .externalAuth).fed.length

structure Tally where
  workBudget : UInt32
  /-- what the lanes had fed before the poll -/
  fedBefore : ℕ
  /-- events and frames fed to hostap -/
  fed : ℕ
  /-- the frames among them -/
  frames : ℕ
  /-- the budget of `hisi_wpa_poll` -/
  granted : ℕ
  /-- the work that it reports -/
  native : ℕ
  deriving DecidableEq

def Tally.start (workBudget : UInt32) (fedBefore : ℕ) : Tally := ⟨workBudget, fedBefore, 0, 0, 0, 0⟩

def Tally.after (t : Tally) (s : State sys) : Action → Tally
  | .poll workBudget => .start workBudget (eventsFed s.lanes)
  | .advance _ =>
      match s.pc with
      | .feed _ _ _ => { t with fed := t.fed + 1 }
      | .feedEapol _ _ => { t with fed := t.fed + 1, frames := t.frames + 1 }
      | _ => t
  | .hostapReturns result =>
      match s.pc with
      | .hostap _ budget =>
          { t with granted := hisiWpaPollGrant budget, native := result.workCompleted.toNat }
      | _ => t
  | _ => t

def tallied (s : State sys × Tally) (act : Action) : Option (State sys × Tally) :=
  (step s.1 act).map fun s' => (s', s.2.after s.1 act)

/-- `hisi_wpa_poll` performs and reports at most what it is granted. -/
def WithinGrant (s : State sys × Tally) : Action → Prop
  | .hostapReturns result =>
      ∀ rxGrant budget, s.1.pc = .hostap rxGrant budget →
        result.workCompleted.toNat ≤ hisiWpaPollGrant budget
  | _ => True

/-- The work of a poll that has returned this result. -/
structure Tally.Accounted (t : Tally) (result : PollResult) : Prop where
  fed_le : t.fed ≤ t.workBudget.toNat - 1
  granted_eq : t.granted = max 1 (t.workBudget.toNat - 1 - t.fed)
  within : t.fed + t.native ≤ t.workBudget.toNat
  reported : result.workCompleted.toNat = t.fed + t.native

/-! ## §2 The invariant -/

/-- `rx_grant` and `rx_budget`, within a poll. -/
def Pc.spends : Pc → Option (ℕ × ℕ)
  | .idle | .discard => none
  | .overflow _ rxGrant => some (rxGrant, rxGrant)
  | .take _ rxGrant budget | .clear rxGrant budget | .feed _ rxGrant budget
  | .swap rxGrant budget | .receive rxGrant budget | .feedEapol rxGrant budget
  | .hostap rxGrant budget => some (rxGrant, budget)

/-- The rest of this iteration will cost one. -/
def Pc.owes : Pc → Bool
  | .clear _ _ | .feed _ _ _ | .receive _ _ | .feedEapol _ _ => true
  | _ => false

structure Budgeted (s : State sys) (t : Tally) : Prop where
  positive : t.workBudget.toNat ≠ 0
  spends : ∀ rxGrant budget, s.pc.spends = some (rxGrant, budget) →
    rxGrant = t.workBudget.toNat - 1 ∧ t.fed + budget = rxGrant ∧ (s.pc.owes → budget ≠ 0)
  within : s.pc.spends.isSome → s.returned = none
  done : ∀ result, s.returned = some (.ok result) → t.Accounted result

section Steps

variable {s s' : State sys} {t t' : Tally} {rxGrant budget rest : ℕ} {act : Action}

/-- What does not move the runner. -/
theorem Budgeted.congr (h : Budgeted s t) (hpc : s'.pc = s.pc)
    (hreturned : s'.returned = s.returned) : Budgeted s' t := by
  constructor
  · exact h.positive
  · rw [hpc]
    exact h.spends
  · rw [hpc, hreturned]
    exact h.within
  · rw [hreturned]
    exact h.done

/-- The poll returns an error. -/
theorem Budgeted.fail (h : Budgeted s t) (hpc : s'.pc = .idle) {e : NativeSupplicantError}
    (hreturned : s'.returned = some (.error e)) (hwork : t'.workBudget = t.workBudget) :
    Budgeted s' t' where
  positive := by
    rw [hwork]
    exact h.positive
  spends _ _ heq := by
    rw [hpc] at heq
    cases heq
  within hsome := by
    rw [hpc] at hsome
    cases hsome
  done result heq := by
    rw [hreturned] at heq
    cases heq

/-- The runner goes on with this much spent. -/
theorem Budgeted.go (h : Budgeted s t) (hs : s.pc.spends = some (rxGrant, budget))
    (hpc : s'.pc.spends = some (rxGrant, rest)) (hreturned : s'.returned = s.returned)
    (hwork : t'.workBudget = t.workBudget) (hfed : t'.fed + rest = t.fed + budget)
    (howes : s'.pc.owes → rest ≠ 0) : Budgeted s' t' := by
  obtain ⟨hgrant, hsum, -⟩ := h.spends rxGrant budget hs
  have hnone : s'.returned = none := by
    rw [hreturned]
    exact h.within (by rw [hs]; rfl)
  constructor
  · rw [hwork]
    exact h.positive
  · intro g b heq
    rw [hpc] at heq
    cases heq
    rw [hwork]
    exact ⟨hgrant, hfed.trans hsum, howes⟩
  · exact fun _ => hnone
  · intro result heq
    rw [hnone] at heq
    cases heq

/-! ## §3 The step -/

theorem budgeted_take (h : Budgeted s t) {k : QueueKind} (hpc : s.pc = .take k rxGrant budget) :
    Budgeted (s.stepTake k rxGrant budget) t := by
  have hs : s.pc.spends = some (rxGrant, budget) := by rw [hpc]; rfl
  have hafter : Budgeted { s with pc := State.afterLoop k rxGrant budget } t := by
    refine h.go hs ?_ rfl rfl rfl ?_
    · cases k <;> rfl
    · cases k <;> exact fun heq => by cases heq
  rw [State.stepTake]
  split
  · exact hafter
  · rename_i hbudget
    split
    · exact hafter
    · dsimp only
      split
      · exact h.go hs rfl rfl rfl rfl fun _ => hbudget
      · exact h.fail rfl rfl rfl
      · exact h.go hs rfl rfl rfl rfl fun _ => hbudget

/-- A feed costs one. -/
theorem budgeted_feed (h : Budgeted s t) {k : QueueKind} (hpc : s.pc = .feed k rxGrant budget)
    (status : Int32) :
    Budgeted (s.stepFeed k rxGrant budget status) { t with fed := t.fed + 1 } := by
  have hs : s.pc.spends = some (rxGrant, budget) := by rw [hpc]; rfl
  obtain ⟨-, -, howes⟩ := h.spends rxGrant budget hs
  have hpos : budget ≠ 0 := howes (by rw [hpc]; rfl)
  rw [State.stepFeed]
  split
  · exact h.fail rfl rfl rfl
  · refine h.go hs rfl rfl rfl ?_ fun heq => by cases heq
    dsimp only
    omega

theorem budgeted_swap (h : Budgeted s t) (hpc : s.pc = .swap rxGrant budget) :
    Budgeted (s.stepSwap rxGrant budget) t := by
  have hs : s.pc.spends = some (rxGrant, budget) := by rw [hpc]; rfl
  rw [State.stepSwap]
  split
  · rename_i hdrain
    exact h.go hs rfl rfl rfl rfl fun _ => hdrain.1
  · exact h.go hs rfl rfl rfl rfl fun heq => by cases heq

theorem budgeted_receive (h : Budgeted s t) (hpc : s.pc = .receive rxGrant budget) (status : Int32)
    (length : UInt32) (frame : Vector UInt8 maxEapolRxFrameLen) :
    Budgeted (s.stepReceive rxGrant budget status length frame) t := by
  have hs : s.pc.spends = some (rxGrant, budget) := by rw [hpc]; rfl
  obtain ⟨-, -, howes⟩ := h.spends rxGrant budget hs
  have hpos : budget ≠ 0 := howes (by rw [hpc]; rfl)
  rw [State.stepReceive]
  split
  · exact h.fail rfl rfl rfl
  · exact h.go hs rfl rfl rfl rfl fun heq => by cases heq
  · split
    · exact h.go hs rfl rfl rfl rfl fun _ => hpos
    · exact h.fail rfl rfl rfl

theorem budgeted_feedEapol (h : Budgeted s t) (hpc : s.pc = .feedEapol rxGrant budget)
    (status : Int32) :
    Budgeted (s.stepFeedEapol rxGrant budget status)
      { t with fed := t.fed + 1, frames := t.frames + 1 } := by
  have hs : s.pc.spends = some (rxGrant, budget) := by rw [hpc]; rfl
  obtain ⟨-, -, howes⟩ := h.spends rxGrant budget hs
  have hpos : budget ≠ 0 := howes (by rw [hpc]; rfl)
  rw [State.stepFeedEapol]
  split
  · exact h.fail rfl rfl rfl
  · split
    · refine h.go hs rfl rfl rfl ?_ fun heq => by cases heq
      dsimp only
      omega
    · rename_i hrest
      refine h.go hs rfl rfl rfl ?_ fun _ => hrest
      dsimp only
      omega

theorem budgeted_advance (h : Budgeted s t) {status : Int32} (hs : s.advance status = some s') :
    Budgeted s' (t.after s (.advance status)) := by
  cases hpc : s.pc with
  | idle | receive | hostap =>
    simp only [State.advance, hpc] at hs
    cases hs
  | overflow k g =>
    have hg : s.pc.spends = some (g, g) := by rw [hpc]; rfl
    simp only [State.advance, hpc] at hs
    simp only [Tally.after, hpc]
    split at hs
    · cases hs
      exact h.fail rfl rfl rfl
    · cases hs
      refine h.go hg ?_ rfl rfl rfl ?_
      · cases k <;> rfl
      · cases k <;> exact fun heq => by cases heq
  | take k g b =>
    simp only [State.advance, hpc] at hs
    cases hs
    simp only [Tally.after, hpc]
    exact budgeted_take h hpc
  | clear g b =>
    have hg : s.pc.spends = some (g, b) := by rw [hpc]; rfl
    obtain ⟨-, -, howes⟩ := h.spends g b hg
    simp only [State.advance, hpc] at hs
    simp only [Tally.after, hpc]
    split at hs
    · cases hs
      exact h.fail rfl rfl rfl
    · cases hs
      exact h.go hg rfl rfl rfl rfl fun _ => howes (by rw [hpc]; rfl)
  | feed k g b =>
    simp only [State.advance, hpc] at hs
    cases hs
    simp only [Tally.after, hpc]
    exact budgeted_feed h hpc status
  | swap g b =>
    simp only [State.advance, hpc] at hs
    cases hs
    simp only [Tally.after, hpc]
    exact budgeted_swap h hpc
  | feedEapol g b =>
    simp only [State.advance, hpc] at hs
    cases hs
    simp only [Tally.after, hpc]
    exact budgeted_feedEapol h hpc status
  | discard =>
    simp only [State.advance, hpc] at hs
    simp only [Tally.after, hpc]
    split at hs
    · cases hs
      exact h.congr rfl rfl
    · cases hs
      refine ⟨h.positive, ?_, ?_, h.done⟩
      · exact fun _ _ heq => by cases heq
      · exact fun heq => by cases heq

theorem Tally.after_of_not_polls (t : Tally) (h : act.polls = false) : t.after s act = t := by
  cases act with
  | poll | advance | receive | hostapReturns => cases h
  | enqueueMgmtRx | enqueueExternalAuth | enqueueScanResult | enqueueScanDone
  | enqueueAssociateResult | enqueueDisconnect | eapolNotify | beginScanCacheCapture
  | cancelScanCacheCapture | startScan | scanIoctlReturns | setPort => rfl

/-- `account_poll_work` does not saturate. -/
theorem toNat_accountPollWork {result : PollResult} {W : ℕ} (hW : W < 2 ^ 32)
    (hsum : result.workCompleted.toNat + (rxGrant - budget) ≤ W) :
    (accountPollWork result rxGrant budget).workCompleted.toNat =
      result.workCompleted.toNat + (rxGrant - budget) := by
  have hlt : result.workCompleted.toNat + (rxGrant - budget) < UInt32.size := hsum.trans_lt hW
  rw [accountPollWork, Nat.min_eq_left (by omega), UInt32.toNat_ofNat_of_lt' hlt]

/-- `hisi_wpa_poll` returns. -/
theorem budgeted_hostap (h : Budgeted s t) {result : PollResult}
    (hpc : s.pc = .hostap rxGrant budget)
    (hgrant : result.workCompleted.toNat ≤ hisiWpaPollGrant budget) :
    Budgeted (s.return_ (if (accountPollWork result rxGrant budget).status = 0 then
        .ok (accountPollWork result rxGrant budget)
      else .error (.pollFailed (accountPollWork result rxGrant budget).status)))
      { t with granted := hisiWpaPollGrant budget, native := result.workCompleted.toNat } := by
  obtain ⟨hrx, hsum, -⟩ := h.spends rxGrant budget (by rw [hpc]; rfl)
  have hpositive := h.positive
  have hW := t.workBudget.toNat_lt
  have hbudget : hisiWpaPollGrant budget = max 1 (t.workBudget.toNat - 1 - t.fed) := by
    rw [hisiWpaPollGrant]
    omega
  constructor
  · exact hpositive
  · exact fun _ _ heq => by cases heq
  · exact fun heq => by cases heq
  · intro r hr
    replace hr := Option.some.inj hr
    split at hr
    · cases hr
      have hreported : (accountPollWork result rxGrant budget).workCompleted.toNat =
          result.workCompleted.toNat + (rxGrant - budget) :=
        toNat_accountPollWork hW (by omega)
      constructor
      · dsimp only
        omega
      · exact hbudget
      · dsimp only
        omega
      · dsimp only
        omega
    · cases hr

theorem budgeted_poll (h : s.returned = none) (hpc : s.pc = .overflow .mgmt (t.workBudget.toNat - 1))
    (hwork : t.workBudget ≠ 0) (hfed : t.fed = 0) : Budgeted s t where
  positive hzero := hwork (UInt32.toNat.inj hzero)
  spends rxGrant budget heq := by
    rw [hpc] at heq
    cases heq
    rw [hpc, hfed]
    exact ⟨rfl, Nat.zero_add _, fun heq => by cases heq⟩
  within _ := h
  done result heq := by
    rw [h] at heq
    cases heq

theorem budgeted_step (h : Budgeted s t) (hok : WithinGrant (s, t) act)
    (hs : step s act = some s') : Budgeted s' (t.after s act) := by
  cases step_cases hs with
  | refuse hact =>
    rw [t.after_of_not_polls hact]
    exact h
  | announce e hact =>
    rw [t.after_of_not_polls hact]
    exact h.congr rfl rfl
  | resultRefused | resultQueued | resultTruncated | scanDone | notify | beginCapture | startScan
  | ioctlReturn | setPort => exact h.congr rfl rfl
  | poll _ hwork => exact budgeted_poll rfl rfl hwork rfl
  | cancelCapture =>
    refine ⟨h.positive, ?_, ?_, h.done⟩
    · exact fun _ _ heq => by cases heq
    · exact fun heq => by cases heq
  | advance hs => exact budgeted_advance h hs
  | @receive status length frame _ _ hpc => exact budgeted_receive h hpc status length frame
  | @hostapReturn result result' rxGrant budget hpc hresult =>
    have hbudgeted := budgeted_hostap h hpc (hok rxGrant budget hpc)
    simp only [Tally.after, hpc, hresult]
    exact hbudgeted

end Steps

/-! ## §4 The ledgers of the lanes -/

section Ledgers

variable {s s' : State sys} {t : Tally} {rxGrant budget n : ℕ} {act : Action} {k : QueueKind}
  {lane : Lane (k.layout sys)}

theorem eventsFed_update (lanes : (k : QueueKind) → Lane (k.layout sys))
    (h : lane.fed.length = (lanes k).fed.length + n) :
    eventsFed (Function.update lanes k lane) = eventsFed lanes + n := by
  cases k with
  | scan | link | externalAuth | mgmt =>
    simp only [eventsFed, Function.update_self, ne_eq, reduceCtorEq, not_false_eq_true,
      Function.update_of_ne, h]
    omega

/-- The event before a feed is under its guard. -/
def Guarded (s : State sys) : Prop := ∀ k, s.pc.guards k = true → (s.lanes k).guard.isSome = true

/-- The step keeps the guards and feeds `n` events. -/
structure Feeds (s s' : State sys) (n : ℕ) : Prop where
  guarded : Guarded s'
  fed : eventsFed s'.lanes = eventsFed s.lanes + n

theorem Feeds.same (h : Guarded s) (hlanes : s'.lanes = s.lanes)
    (hpc : ∀ k, s'.pc.guards k = true → s.pc.guards k = true) : Feeds s s' 0 where
  guarded k hk := by
    rw [hlanes]
    exact h k (hpc k hk)
  fed := by rw [hlanes, Nat.add_zero]

theorem Feeds.update (h : Guarded s) (hlanes : s'.lanes = Function.update s.lanes k lane)
    (hfed : lane.fed.length = (s.lanes k).fed.length + n)
    (hguard : s'.pc.guards k = true → lane.guard.isSome = true)
    (hpc : ∀ k', k' ≠ k → s'.pc.guards k' = true → s.pc.guards k' = true) : Feeds s s' n where
  guarded k' hk' := by
    rw [hlanes]
    by_cases heq : k' = k
    · subst heq
      rw [Function.update_self]
      exact hguard hk'
    · rw [Function.update_of_ne heq]
      exact h k' (hpc k' heq hk')
  fed := by rw [hlanes, eventsFed_update _ hfed]

/-- The runner goes on with no event under a guard. -/
theorem Feeds.release (h : Guarded s) (hlanes : s'.lanes = Function.update s.lanes k lane)
    (hfed : lane.fed.length = (s.lanes k).fed.length + n) (hpc : ∀ k', s'.pc.guards k' = false) :
    Feeds s s' n := by
  refine .update h hlanes hfed (fun hk' => ?_) fun k' _ hk' => ?_
  · rw [hpc k] at hk'
    cases hk'
  · rw [hpc k'] at hk'
    cases hk'

theorem length_fed_of_ne (lane : Lane (k.layout sys)) {fate : Fate} (h : fate ≠ .fed) :
    (lane.dropGuard fate).fed.length = lane.fed.length := by
  rw [Lane.dropGuard]
  split
  · rfl
  · cases fate with
    | fed => exact absurd rfl h
    | discarded | lost => rfl

theorem length_fed_fed (h : lane.guard.isSome = true) :
    (lane.dropGuard .fed).fed.length = lane.fed.length + 1 := by
  obtain ⟨i, hi⟩ := Option.isSome_iff_exists.mp h
  simp only [Lane.dropGuard, hi, Lane.held, List.length_append, List.length_singleton]

theorem dropGuard_setLane (s : State sys) (lane : Lane (k.layout sys)) (fate : Fate) :
    (s.setLane k lane).dropGuard k fate = s.setLane k (lane.dropGuard fate) := by
  rw [State.dropGuard, State.setLane_self, State.setLane, State.setLane, State.setLane,
    Function.update_idem]

theorem feeds_take (h : Guarded s) (hpc : s.pc = .take k rxGrant budget) :
    Feeds s (s.stepTake k rxGrant budget) 0 := by
  have hafter : Feeds s { s with pc := State.afterLoop k rxGrant budget } 0 := by
    refine .same h rfl fun k' hk' => ?_
    cases k <;> cases hk'
  rw [State.stepTake]
  split
  · exact hafter
  · cases ht : (s.lanes k).takeOldest with
    | none => exact hafter
    | some lane =>
      obtain ⟨i, -, rfl⟩ := Option.map_eq_some_iff.mp ht
      dsimp only
      split
      · rename_i hroute
        obtain ⟨e, -, hclear⟩ := Option.map_eq_some_iff.mp hroute
        obtain rfl := route_clear hclear
        refine .update h rfl rfl (fun _ => rfl) fun k' hne hk' => ?_
        exact absurd (eq_of_beq hk') hne
      · rw [dropGuard_setLane]
        exact .release h rfl (length_fed_of_ne _ (by simp)) fun _ => rfl
      · refine .update h rfl rfl (fun _ => rfl) fun k' hne hk' => ?_
        exact absurd (eq_of_beq hk').symm hne

/-- Before the feed of an event. -/
def Pc.events : Pc → ℕ
  | .feed _ _ _ => 1
  | _ => 0

theorem feeds_feed (h : Guarded s) (hpc : s.pc = .feed k rxGrant budget) (status : Int32) :
    Feeds s (s.stepFeed k rxGrant budget status) 1 := by
  have hguard : (s.lanes k).guard.isSome = true := h k (by rw [hpc]; exact beq_self_eq_true k)
  rw [State.stepFeed]
  split
  · exact .release h rfl (length_fed_fed hguard) fun _ => rfl
  · exact .release h rfl (length_fed_fed hguard) fun _ => rfl

theorem feeds_advance (h : Guarded s) {status : Int32} (hs : s.advance status = some s') :
    Feeds s s' s.pc.events := by
  cases hpc : s.pc with
  | idle | receive | hostap =>
    simp only [State.advance, hpc] at hs
    cases hs
  | overflow k g =>
    simp only [State.advance, hpc] at hs
    split at hs
    · rename_i delta lane hover
      cases hs
      rw [Lane.overflow] at hover
      split at hover
      · cases hover
      · cases hover
        exact .release h rfl rfl fun _ => rfl
    · cases hs
      refine .same h rfl fun k' hk' => ?_
      cases k <;> cases hk'
  | take k g b =>
    simp only [State.advance, hpc] at hs
    cases hs
    exact feeds_take h hpc
  | clear g b =>
    simp only [State.advance, hpc] at hs
    split at hs
    · cases hs
      exact .release h rfl (length_fed_of_ne _ (by simp)) fun _ => rfl
    · cases hs
      refine .same h rfl fun k' hk' => ?_
      rw [hpc]
      exact beq_iff_eq.mpr (eq_of_beq hk').symm
  | feed k g b =>
    simp only [State.advance, hpc] at hs
    cases hs
    exact feeds_feed h hpc status
  | swap g b =>
    simp only [State.advance, hpc] at hs
    cases hs
    rw [State.stepSwap]
    split
    · exact .same h rfl fun _ hk' => by cases hk'
    · exact .same h rfl fun _ hk' => by cases hk'
  | feedEapol g b =>
    simp only [State.advance, hpc] at hs
    cases hs
    rw [State.stepFeedEapol]
    split
    · exact .same h rfl fun _ hk' => by cases hk'
    · split
      · exact .same h rfl fun _ hk' => by cases hk'
      · exact .same h rfl fun _ hk' => by cases hk'
  | discard =>
    simp only [State.advance, hpc] at hs
    split at hs
    · rename_i lane ht
      cases hs
      obtain ⟨i, -, rfl⟩ := Option.map_eq_some_iff.mp ht
      rw [dropGuard_setLane]
      refine .release h rfl (length_fed_of_ne _ (by simp)) fun k' => ?_
      change s.pc.guards k' = false
      rw [hpc]
      rfl
    · cases hs
      exact .same h rfl fun _ hk' => by cases hk'

theorem feeds_receive (h : Guarded s) (status : Int32) (length : UInt32)
    (frame : Vector UInt8 maxEapolRxFrameLen) :
    Feeds s (s.stepReceive rxGrant budget status length frame) 0 := by
  rw [State.stepReceive]
  split
  · exact .same h rfl fun _ hk' => by cases hk'
  · exact .same h rfl fun _ hk' => by cases hk'
  · split
    · exact .same h rfl fun _ hk' => by cases hk'
    · exact .same h rfl fun _ hk' => by cases hk'

/-- What is fed is in the ledgers or a frame. -/
structure Entered (s : State sys) (t : Tally) : Prop where
  guarded : Guarded s
  fed : eventsFed s.lanes + t.frames = t.fedBefore + t.fed

theorem Feeds.entered (h : Feeds s s' 0) (he : Entered s t) : Entered s' t :=
  ⟨h.guarded, by rw [h.fed, Nat.add_zero]; exact he.fed⟩

theorem entered_advance (h : Entered s t) {status : Int32} (hs : s.advance status = some s') :
    Entered s' (t.after s (.advance status)) := by
  have hfeeds := feeds_advance h.guarded hs
  have hfed := hfeeds.fed
  have hentered := h.fed
  refine ⟨hfeeds.guarded, ?_⟩
  cases hpc : s.pc with
  | idle | overflow | take | clear | feed | swap | receive | feedEapol | hostap | discard =>
    rw [hpc] at hfed
    simp only [Pc.events] at hfed
    simp only [Tally.after, hpc]
    omega

theorem entered_poll {k : QueueKind} {workBudget : UInt32} (hpc : s.pc = .overflow k n) :
    Entered s (.start workBudget (eventsFed s.lanes)) where
  guarded k' hk' := by
    rw [hpc] at hk'
    cases hk'
  fed := rfl

theorem entered_step (h : Entered s t) (hs : step s act = some s') : Entered s' (t.after s act) := by
  have hmove := step_cases hs
  cases hmove with
  | refuse hact =>
    rw [t.after_of_not_polls hact]
    exact h
  | announce e hact =>
    rw [t.after_of_not_polls hact]
    refine Feeds.entered ?_ h
    exact .update h.guarded rfl rfl (h.guarded _) fun _ _ hk' => hk'
  | resultRefused | resultQueued | scanDone =>
    refine Feeds.entered ?_ h
    exact .update h.guarded rfl rfl (h.guarded .scan) fun _ _ hk' => hk'
  | resultTruncated | notify | beginCapture | startScan | ioctlReturn | setPort =>
    refine Feeds.entered ?_ h
    exact .same h.guarded rfl fun _ hk' => hk'
  | poll => exact entered_poll rfl
  | cancelCapture =>
    refine Feeds.entered ?_ h
    exact .same h.guarded rfl fun _ hk' => by cases hk'
  | advance hs => exact entered_advance h hs
  | receive => exact (feeds_receive h.guarded _ _ _).entered h
  | @hostapReturn result result' rxGrant budget hpc =>
    simp only [Tally.after, hpc]
    exact ⟨fun _ hk' => (by cases hk'), h.fed⟩

end Ledgers

/-! ## §5 Main result -/

/-- **A poll stays within its work budget.** From any state in which a poll begins, in every run
in which `hisi_wpa_poll` keeps to its grant, whenever the last poll has returned a result:
what it fed and what it granted hostap is within its work budget, and the result reports it. What
it fed is what the lanes have entered as fed since it began, and frames. -/
theorem poll_within_budget (s₀ : State sys) {s₁ : State sys} {workBudget : UInt32}
    (h0 : step s₀ (.poll workBudget) = some s₁) {as : List Action} {s : State sys × Tally}
    (h : Steps tallied WithinGrant (s₁, .start workBudget (eventsFed s₁.lanes)) as s)
    {result : PollResult} (hresult : s.1.returned = some (.ok result)) :
    s.2.Accounted result ∧ eventsFed s.1.lanes + s.2.frames = s.2.fedBefore + s.2.fed := by
  have hbegin : Budgeted s₁ (.start workBudget (eventsFed s₁.lanes)) ∧
      Entered s₁ (.start workBudget (eventsFed s₁.lanes)) := by
    simp only [step] at h0
    split at h0
    · rename_i hidle
      cases h0
      exact ⟨budgeted_poll rfl rfl hidle.2.2 rfl, entered_poll rfl⟩
    · cases h0
  have hinv := h.invariant (I := fun s => Budgeted s.1 s.2 ∧ Entered s.1 s.2) hbegin
    fun s act s' hI hok hs => by
      obtain ⟨u, hu, rfl⟩ := Option.map_eq_some_iff.mp hs
      exact ⟨budgeted_step hI.1 hok hu, entered_step hI.2 hu⟩
  exact ⟨hinv.1.done result hresult, hinv.2.fed⟩

instance (s : State sys × Tally) (act : Action) : Decidable (WithinGrant s act) :=
  match act with
  | .hostapReturns result =>
    match hpc : s.1.pc with
    | .hostap _ budget =>
      decidable_of_iff (result.workCompleted.toNat ≤ hisiWpaPollGrant budget)
        ⟨fun hle _ _ heq => by rw [hpc] at heq; cases heq; exact hle, fun h => h _ _ hpc⟩
    | .idle | .overflow _ _ | .take _ _ _ | .clear _ _ | .feed _ _ _ | .swap _ _ | .receive _ _
    | .feedEapol _ _ | .discard => .isTrue fun _ _ heq => by rw [hpc] at heq; cases heq
  | .enqueueMgmtRx _ _ _ | .enqueueExternalAuth _ _ _ _ _ _ | .enqueueScanResult _ _
  | .enqueueScanDone _ | .enqueueAssociateResult _ _ _ _ _ | .enqueueDisconnect _ _ | .eapolNotify
  | .poll _ | .beginScanCacheCapture | .cancelScanCacheCapture | .startScan | .scanIoctlReturns _
  | .advance _ | .receive _ _ _ | .setPort _ => .isTrue trivial

/-- A disconnect waits when a poll begins. -/
def disconnected : State ⟨2304, 1⟩ := ((init ⟨2304, 1⟩).enqueueDisconnect 3 []).1

def eapolFrame : Vector UInt8 maxEapolRxFrameLen :=
  ByteBuffer.copyAt (Vector.replicate maxEapolRxFrameLen 0) 12 [0x88, 0x8e]

/-- Of a budget of four one goes to the disconnect, two to hostap, which uses one; the second poll
feeds another disconnect and a frame. -/
def twoPolls : List Action :=
  List.replicate 11 (.advance 0) ++ [.hostapReturns ⟨0, 1⟩, .enqueueDisconnect 3 [], .eapolNotify,
    .poll 4] ++ List.replicate 11 (.advance 0) ++ [.receive 0 15 eapolFrame, .advance 0,
    .receive 0xffff 0 eapolFrame, .hostapReturns ⟨0, 1⟩]

theorem poll_within_budget_sample :
    ∃ s : State ⟨2304, 1⟩, s.returned = some (.ok ⟨0, 3⟩) ∧
      Tally.Accounted ⟨4, 1, 2, 1, 1, 1⟩ ⟨0, 3⟩ ∧ eventsFed s.lanes = 2 := by
  have hrun : (run (guarded tallied WithinGrant) (disconnected.startPoll 4, Tally.start 4 0)
      twoPolls).map (fun s => (s.2, s.1.returned)) =
      some (⟨4, 1, 2, 1, 1, 1⟩, some (.ok ⟨0, 3⟩)) := by
    decide +kernel
  obtain ⟨s, hs, hlast⟩ := Option.map_eq_some_iff.mp hrun
  obtain ⟨htally, hreturned⟩ := Prod.mk.inj hlast
  obtain ⟨haccounted, hentered⟩ := poll_within_budget disconnected rfl (Steps.of_run_guarded hs)
    hreturned
  rw [htally] at haccounted hentered
  exact ⟨s.1, hreturned, haccounted, Nat.add_right_cancel hentered⟩

end HisiRiscv.Supplicant.Poll
