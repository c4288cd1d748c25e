/-
HisiRiscv.Supplicant.EapolNotification — when an EAPOL notification
survives a poll.

`poll` takes `EAPOL_PENDING` down before it looks at the budget. If the
receive loops have used the budget up, or the grant was zero, it does not
drain and nothing sets the flag again; and `drain_eapol` sets it again
when the budget runs out but not when it returns an error. In every run
whose polls avoid the two (`Heeded`), a notification ends in a read of the
empty driver queue or stays pending.

  §1 The property and the condition.
  §2 The invariant.
  §3 Main results.
-/
import HisiRiscv.Supplicant.Poll

namespace HisiRiscv.Supplicant.Poll

open HisiRiscv.Machine

variable {sys : RadioSys}

/-! ## §1 The property and the condition -/

/-- A notification was pending when the poll began, or has arrived since the
driver queue was last read empty. -/
def State.owes (s : State sys) : Prop := s.pendingAtStart = true ∨ s.arrived = true

/-- When a poll has returned, what it owed has been drained or is pending. -/
def NotificationKept (s : State sys) : Prop :=
  s.returned.isSome → s.owes → s.drained = true ∨ s.eapolPending = true

/-- The receive of a frame makes `drain_eapol` return an error. -/
def receiveFails (status : Int32) (length : UInt32) (frame : Vector UInt8 maxEapolRxFrameLen) : Bool :=
  match classifyEapolReceive status with
  | .error _ => true
  | .ok false => false
  | .ok true => !eapolFrameValid length frame

/-- The swap comes when the budget is used up. -/
def Pc.swapsSpent : Pc → Bool
  | .swap _ budget => budget == 0
  | _ => false

def Pc.feedsEapol : Pc → Bool
  | .feedEapol _ _ => true
  | _ => false

/-- A pending notification meets a budget at the swap, and `drain_eapol` does
not return an error while one is owed and not pending again. -/
def Heeded (s : State sys) : Action → Prop
  | .advance status =>
      (s.pc.swapsSpent = true → s.eapolPending = false) ∧
        (s.pc.feedsEapol = true → status ≠ 0 → s.owes → s.eapolPending = true)
  | .receive status length frame =>
      receiveFails status length frame = true → s.owes → s.eapolPending = true
  | _ => True

instance (s : State sys) : Decidable s.owes := inferInstanceAs (Decidable (_ ∨ _))

instance (s : State sys) : (act : Action) → Decidable (Heeded s act)
  | .advance status => inferInstanceAs (Decidable
      ((s.pc.swapsSpent = true → s.eapolPending = false) ∧
        (s.pc.feedsEapol = true → status ≠ 0 → s.owes → s.eapolPending = true)))
  | .receive status length frame => inferInstanceAs (Decidable
      (receiveFails status length frame = true → s.owes → s.eapolPending = true))
  | .enqueueMgmtRx _ _ _ | .enqueueExternalAuth _ _ _ _ _ _ | .enqueueScanResult _ _
  | .enqueueScanDone _ | .enqueueAssociateResult _ _ _ _ _ | .enqueueDisconnect _ _ | .eapolNotify
  | .poll _ | .beginScanCacheCapture | .cancelScanCacheCapture | .startScan | .scanIoctlReturns _
  | .hostapReturns _ | .setPort _ => inferInstanceAs (Decidable True)

/-! ## §2 The invariant -/

/-- What is known about the flag at each program point. -/
def Flagged (s : State sys) : Prop :=
  match s.pc with
  | .idle | .discard => NotificationKept s ∧ (s.arrived = true → s.eapolPending = true)
  | .overflow _ _ | .take _ _ _ | .clear _ _ | .feed _ _ _ | .swap _ _ =>
      s.returned = none ∧ (s.owes → s.eapolPending = true)
  | .receive _ _ | .feedEapol _ _ => s.returned = none
  | .hostap _ _ =>
      s.returned = none ∧ (s.owes → s.drained = true ∨ s.eapolPending = true) ∧
        (s.arrived = true → s.eapolPending = true)

section Steps

variable {s t : State sys}

/-- A poll returns with what it owed drained or pending. -/
theorem flagged_return (howes : s.owes → s.drained = true ∨ s.eapolPending = true)
    (harrived : s.arrived = true → s.eapolPending = true)
    (result : Except NativeSupplicantError PollResult) : Flagged (s.return_ result) :=
  ⟨fun _ => howes, harrived⟩

/-- The program points in front of the swap. -/
def Pc.receiving : Pc → Bool
  | .overflow _ _ | .take _ _ _ | .clear _ _ | .feed _ _ _ | .swap _ _ => true
  | .idle | .discard | .receive _ _ | .feedEapol _ _ | .hostap _ _ => false

theorem flagged_receiving (hpc : s.pc.receiving = true) :
    Flagged s ↔ s.returned = none ∧ (s.owes → s.eapolPending = true) := by
  unfold Flagged
  split <;> first | exact Iff.rfl | simp_all [Pc.receiving]

/-- Up to the swap the flag stays as it is, wherever the receive loops go. -/
theorem flagged_loops (h : Flagged s) (hpc : s.pc.receiving = true) {status : Int32}
    (hswap : ∀ rxGrant budget, s.pc ≠ .swap rxGrant budget) (hs : s.advance status = some t) :
    Flagged t := by
  obtain ⟨hreturned, howes⟩ := (flagged_receiving hpc).mp h
  have hgoto : ∀ {u : State sys}, u.pc.receiving = true → u.returned = s.returned →
      u.pendingAtStart = s.pendingAtStart → u.arrived = s.arrived →
      u.eapolPending = s.eapolPending → Flagged u := by
    intro u hu h₁ h₂ h₃ h₄
    rw [flagged_receiving hu, h₁, State.owes, h₂, h₃, h₄]
    exact ⟨hreturned, howes⟩
  have hreturn : ∀ (u : State sys) result, u.pendingAtStart = s.pendingAtStart →
      u.arrived = s.arrived → u.eapolPending = s.eapolPending → Flagged (u.return_ result) := by
    intro u result h₂ h₃ h₄
    refine flagged_return (fun hu => Or.inr ?_) (fun hu => ?_) result
    · rw [h₄]
      rw [State.owes, h₂, h₃] at hu
      exact howes hu
    · rw [h₄]
      rw [h₃] at hu
      exact howes (Or.inr hu)
  cases hpc' : s.pc with
  | idle | discard | receive | feedEapol | hostap =>
    rw [hpc'] at hpc
    cases hpc
  | swap rxGrant budget => exact absurd hpc' (hswap rxGrant budget)
  | overflow k rxGrant =>
    simp only [State.advance, hpc'] at hs
    split at hs
    · cases hs
      exact hreturn _ _ rfl rfl rfl
    · cases hs
      exact hgoto (by cases k <;> rfl) rfl rfl rfl rfl
  | take k rxGrant budget =>
    simp only [State.advance, hpc'] at hs
    cases hs
    have hafter : (State.afterLoop k rxGrant budget).receiving = true := by cases k <;> rfl
    rw [State.stepTake]
    split
    · exact hgoto hafter rfl rfl rfl rfl
    · split
      · exact hgoto hafter rfl rfl rfl rfl
      · dsimp only
        split
        · exact hgoto rfl rfl rfl rfl rfl
        · exact hreturn _ _ rfl rfl rfl
        · exact hgoto rfl rfl rfl rfl rfl
  | clear rxGrant budget =>
    simp only [State.advance, hpc'] at hs
    split at hs
    · cases hs
      exact hreturn _ _ rfl rfl rfl
    · cases hs
      exact hgoto rfl rfl rfl rfl rfl
  | feed k rxGrant budget =>
    simp only [State.advance, hpc'] at hs
    cases hs
    rw [State.stepFeed]
    split
    · exact hreturn _ _ rfl rfl rfl
    · exact hgoto rfl rfl rfl rfl rfl

/-- The swap: a pending notification is drained, and without one nothing is owed. -/
theorem flagged_swap (h : Flagged s) {rxGrant budget : Nat} (hpc : s.pc = .swap rxGrant budget)
    (hok : s.pc.swapsSpent = true → s.eapolPending = false) : Flagged (s.stepSwap rxGrant budget) := by
  obtain ⟨hreturned, howes⟩ := (flagged_receiving (by rw [hpc]; rfl)).mp h
  rw [State.stepSwap]
  split
  · exact hreturned
  · rename_i hskip
    have hquiet : s.eapolPending = false := by
      by_contra hpending
      rw [Bool.not_eq_false] at hpending
      refine hskip ⟨fun hspent => ?_, Or.inl hpending⟩
      rw [hok (by rw [hpc, hspent]; rfl)] at hpending
      cases hpending
    have hnone : ¬ s.owes := fun ho => by
      rw [howes ho] at hquiet
      cases hquiet
    exact ⟨hreturned, fun ho => absurd ho hnone, fun ha => absurd (Or.inr ha) hnone⟩

theorem flagged_advance (h : Flagged s) {status : Int32} (hok : Heeded s (.advance status))
    (hs : s.advance status = some t) : Flagged t := by
  cases hpc : s.pc with
  | idle | receive | hostap =>
    simp only [State.advance, hpc] at hs
    cases hs
  | overflow | take | clear | feed =>
    exact flagged_loops h (by rw [hpc]; rfl) (by rw [hpc]; nofun) hs
  | swap rxGrant budget =>
    simp only [State.advance, hpc] at hs
    cases hs
    exact flagged_swap h hpc hok.1
  | feedEapol rxGrant budget =>
    simp only [State.advance, hpc] at hs
    cases hs
    have hfails := hok.2 (by rw [hpc]; rfl)
    simp only [Flagged, hpc] at h
    rw [State.stepFeedEapol]
    split
    · rename_i hstatus
      exact flagged_return (fun ho => Or.inr (hfails hstatus ho))
        (fun ha => hfails hstatus (Or.inr ha)) _
    · split
      · exact ⟨h, fun _ => Or.inr rfl, fun _ => rfl⟩
      · exact h
  | discard =>
    simp only [Flagged, hpc] at h
    simp only [State.advance, hpc] at hs
    split at hs
    · cases hs
      simp only [Flagged, State.dropGuard, State.setLane, hpc]
      exact h
    · cases hs
      exact h

/-- A change that leaves the program counter and the flag alone. -/
theorem flagged_congr (h : Flagged s) (h₁ : t.pc = s.pc) (h₂ : t.returned = s.returned)
    (h₃ : t.eapolPending = s.eapolPending) (h₄ : t.arrived = s.arrived)
    (h₅ : t.pendingAtStart = s.pendingAtStart) (h₆ : t.drained = s.drained) : Flagged t := by
  unfold Flagged NotificationKept State.owes at h ⊢
  rw [h₁, h₂, h₃, h₄, h₅, h₆]
  exact h

theorem flagged_receive (h : Flagged s) {rxGrant budget : Nat} {status : Int32} {length : UInt32}
    {frame : Vector UInt8 maxEapolRxFrameLen} (hpc : s.pc = .receive rxGrant budget)
    (hok : Heeded s (.receive status length frame)) :
    Flagged (s.stepReceive rxGrant budget status length frame) := by
  simp only [Flagged, hpc] at h
  simp only [Heeded, receiveFails] at hok
  rw [State.stepReceive]
  split <;> rename_i hclass <;> rw [hclass] at hok
  · exact flagged_return (fun ho => Or.inr (hok rfl ho)) (fun ha => hok rfl (Or.inr ha)) _
  · exact ⟨h, fun _ => Or.inl rfl, fun heq => by cases heq⟩
  · split
    · exact h
    · rename_i hvalid
      have hfails := hok (by simp [hvalid])
      exact flagged_return (fun ho => Or.inr (hfails ho)) (fun ha => hfails (Or.inr ha)) _

/-- A notification sets the flag. -/
theorem flagged_notify (h : Flagged s) : Flagged { s with eapolPending := true, arrived := true } := by
  unfold Flagged at h ⊢
  dsimp only
  split <;> rename_i hpc <;> rw [hpc] at h
  · exact ⟨fun _ _ => Or.inr rfl, fun _ => rfl⟩
  · exact ⟨fun _ _ => Or.inr rfl, fun _ => rfl⟩
  · exact ⟨h.1, fun _ => rfl⟩
  · exact ⟨h.1, fun _ => rfl⟩
  · exact ⟨h.1, fun _ => rfl⟩
  · exact ⟨h.1, fun _ => rfl⟩
  · exact ⟨h.1, fun _ => rfl⟩
  · exact h
  · exact h
  · exact ⟨h.1, fun _ => Or.inr rfl, fun _ => rfl⟩

/-- A poll begins with the flag telling what is owed. -/
theorem flagged_poll (h : Flagged s) (hidle : s.pc = .idle) (workBudget : UInt32) :
    Flagged (s.startPoll workBudget) := by
  simp only [Flagged, hidle] at h
  refine ⟨rfl, fun ho => ?_⟩
  rcases ho with ho | ho
  · exact ho
  · exact h.2 ho

theorem flagged_step {act : Action} (h : Flagged s) (hok : Heeded s act)
    (hs : step s act = some t) : Flagged t := by
  cases step_cases hs with
  | refuse | announce | resultRefused => exact h
  | resultQueued | resultTruncated | scanDone | beginCapture | startScan | ioctlReturn | setPort =>
    exact flagged_congr h rfl rfl rfl rfl rfl rfl
  | notify => exact flagged_notify h
  | @poll workBudget hidle => exact flagged_poll h hidle workBudget
  | cancelCapture hidle =>
    simp only [Flagged, hidle] at h
    exact h
  | advance hs => exact flagged_advance h hok hs
  | receive hpc => exact flagged_receive h hpc hok
  | hostapReturn hpc =>
    simp only [Flagged, hpc] at h
    exact flagged_return h.2.1 h.2.2 _

end Steps

/-! ## §3 Main results -/

theorem Flagged.kept {s : State sys} (h : Flagged s) : NotificationKept s := by
  unfold Flagged at h
  split at h
  · exact h.1
  · exact h.1
  · exact fun hret => by simp [h.1] at hret
  · exact fun hret => by simp [h.1] at hret
  · exact fun hret => by simp [h.1] at hret
  · exact fun hret => by simp [h.1] at hret
  · exact fun hret => by simp [h.1] at hret
  · exact fun hret => by simp [h] at hret
  · exact fun hret => by simp [h] at hret
  · exact fun hret => by simp [h.1] at hret

/-- **No notification is lost.** In every run in which a pending notification
meets a budget at the swap and `drain_eapol` returns no error while one is owed,
every poll that has returned has drained what it owed or left it pending. -/
theorem notifications_kept (sys : RadioSys) {as : List Action} {s : State sys}
    (h : Steps step Heeded (init sys) as s) : NotificationKept s :=
  (h.invariant (I := Flagged) ⟨nofun, nofun⟩ fun _ _ _ hI hok hs => flagged_step hI hok hs).kept

/-- A notification, and a poll of work budget `n` up to the swap. -/
def notifiedRun (n : UInt32) : List Action :=
  [.eapolNotify, .poll n] ++ List.replicate 9 (.advance 0)

/-- With a budget the notification is drained. -/
theorem notifications_kept_sample :
    ∃ s : State ⟨2304, 1⟩, s.returned.isSome ∧ s.drained = true ∧ NotificationKept s := by
  have hrun : (run (guarded step Heeded) (init ⟨2304, 1⟩)
      (notifiedRun 8 ++ [.receive 0xffff 0 (Vector.replicate _ 0), .hostapReturns ⟨0, 0⟩])).map
      (fun s => (s.returned.isSome, s.drained)) = some (true, true) := by decide +kernel
  obtain ⟨s, hs, hlast⟩ := Option.map_eq_some_iff.mp hrun
  obtain ⟨hreturned, hdrained⟩ := Prod.mk.inj hlast
  exact ⟨s, hreturned, hdrained, notifications_kept ⟨2304, 1⟩ (Steps.of_run_guarded hs)⟩

/-- A work budget of one leaves nothing for the drain, and the flag is down. -/
theorem notification_lost :
    ¬ ∀ (sys : RadioSys) (s : State sys), Reachable step (init sys) s → NotificationKept s := by
  intro h
  have hrun : (run step (init ⟨2304, 1⟩) (notifiedRun 1 ++ [.hostapReturns ⟨0, 0⟩])).map
      (fun s => (s.returned.isSome, s.arrived, s.drained, s.eapolPending)) =
      some (true, true, false, false) := by decide +kernel
  obtain ⟨s, hs, hlast⟩ := Option.map_eq_some_iff.mp hrun
  obtain ⟨hreturned, hlast⟩ := Prod.mk.inj hlast
  obtain ⟨harrived, hlast⟩ := Prod.mk.inj hlast
  obtain ⟨hdrained, hpending⟩ := Prod.mk.inj hlast
  rcases h ⟨2304, 1⟩ s ⟨_, Steps.of_run hs⟩ hreturned (Or.inr harrived) with hd | hp
  · rw [hdrained] at hd
    cases hd
  · rw [hpending] at hp
    cases hp

end HisiRiscv.Supplicant.Poll
