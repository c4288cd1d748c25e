/-
HisiRiscv.Netif.Tokens — at most one token a scratch buffer.

A claim is one bit that does not say whose it is. `consume` clears it, and
so does the drop of the token a moment later; if another task has claimed
the buffer in between, its claim is gone, and a third one gets a token for
the same buffer. In a run where no drop after `consume` meets such a
claim, the bit says exactly whether someone has the buffer.

  §1 The condition.
  §2 The invariant.
  §3 Main results.
-/
import HisiRiscv.Lib.Ledger
import HisiRiscv.Netif.Device

namespace HisiRiscv.Netif

open HisiRiscv.Machine

/-! ## §1 The condition -/

/-- When a token is dropped after `consume`, no one has claimed its buffer. -/
def DropsUnclaimed (s : State) : Action → Prop
  | .rx k => s.rxTokens[k]? = some .cleared → s.rxClaimed = false
  | .tx k => s.txTokens[k]? = some .cleared → s.txClaimed = false
  | .push _ | .takeReceived _ | .reset | .setTxSink _ | .receive | .transmit | .call _
  | .rxConsume _ | .rxDrop _ | .txConsume _ _ | .txFill _ _ | .txDrop _ => True

instance decidableDropsUnclaimed (s : State) : (a : Action) → Decidable (DropsUnclaimed s a)
  | .rx k => inferInstanceAs (Decidable (s.rxTokens[k]? = some .cleared → s.rxClaimed = false))
  | .tx k => inferInstanceAs (Decidable (s.txTokens[k]? = some .cleared → s.txClaimed = false))
  | .push _ | .takeReceived _ | .reset | .setTxSink _ | .receive | .transmit | .call _
  | .rxConsume _ | .rxDrop _ | .txConsume _ _ | .txFill _ _ | .txDrop _ =>
      inferInstanceAs (Decidable True)

/-! ## §2 The invariant -/

/-- How many calls and tokens have the receive buffer. -/
def State.rxOwners (s : State) : Nat :=
  s.receives.countP Receive.holdsRx + s.rxTokens.countP RxFrame.isLive

def State.txOwners (s : State) : Nat :=
  s.receives.countP Receive.holdsTx + s.txTokens.countP TxBuf.isLive

/-- The claims count the owners. -/
structure Exact (s : State) : Prop where
  rx : s.rxOwners = s.rxClaimed.toNat
  tx : s.txOwners = s.txClaimed.toNat

section Exact

variable {s t : State}

theorem exact_init : Exact init := ⟨rfl, rfl⟩

/-- Only the bridge and the history change. -/
theorem Exact.congr (h : Exact s) (hreceives : t.receives = s.receives)
    (hrx : t.rxTokens = s.rxTokens) (htx : t.txTokens = s.txTokens)
    (hrxClaimed : t.rxClaimed = s.rxClaimed) (htxClaimed : t.txClaimed = s.txClaimed) :
    Exact t := by
  refine ⟨?_, ?_⟩
  · unfold State.rxOwners
    rw [hreceives, hrx, hrxClaimed]
    exact h.rx
  · unfold State.txOwners
    rw [hreceives, htx, htxClaimed]
    exact h.tx

/-- A step of a call. -/
theorem Exact.receive (h : Exact s) {k : Nat} {r r' : Receive} (hk : s.receives[k]? = some r)
    (hreceives : t.receives = s.receives.set k r') (hrxTokens : t.rxTokens = s.rxTokens)
    (htxTokens : t.txTokens = s.txTokens)
    (hrx : t.rxClaimed.toNat + r.holdsRx.toNat = s.rxClaimed.toNat + r'.holdsRx.toNat)
    (htx : t.txClaimed.toNat + r.holdsTx.toNat = s.txClaimed.toNat + r'.holdsTx.toNat) :
    Exact t := by
  have hrxCount := Ledger.countP_set_toNat Receive.holdsRx hk r'
  have htxCount := Ledger.countP_set_toNat Receive.holdsTx hk r'
  have hrxOwners := h.rx
  have htxOwners := h.tx
  unfold State.rxOwners at hrxOwners
  unfold State.txOwners at htxOwners
  refine ⟨?_, ?_⟩
  · unfold State.rxOwners
    rw [hreceives, hrxTokens]
    omega
  · unfold State.txOwners
    rw [hreceives, htxTokens]
    omega

/-- A step of an `RxFrame`. -/
theorem Exact.rxToken (h : Exact s) {k : Nat} {token token' : RxFrame}
    (hk : s.rxTokens[k]? = some token) (hrxTokens : t.rxTokens = s.rxTokens.set k token')
    (hreceives : t.receives = s.receives) (htxTokens : t.txTokens = s.txTokens)
    (htx : t.txClaimed = s.txClaimed)
    (hrx : t.rxClaimed.toNat + token.isLive.toNat = s.rxClaimed.toNat + token'.isLive.toNat) :
    Exact t := by
  have hcount := Ledger.countP_set_toNat RxFrame.isLive hk token'
  have howners := h.rx
  unfold State.rxOwners at howners
  refine ⟨?_, ?_⟩
  · unfold State.rxOwners
    rw [hreceives, hrxTokens]
    omega
  · unfold State.txOwners
    rw [hreceives, htxTokens, htx]
    exact h.tx

/-- A step of a `TxBuf`. -/
theorem Exact.txToken (h : Exact s) {k : Nat} {token token' : TxBuf}
    (hk : s.txTokens[k]? = some token) (htxTokens : t.txTokens = s.txTokens.set k token')
    (hreceives : t.receives = s.receives) (hrxTokens : t.rxTokens = s.rxTokens)
    (hrx : t.rxClaimed = s.rxClaimed)
    (htx : t.txClaimed.toNat + token.isLive.toNat = s.txClaimed.toNat + token'.isLive.toNat) :
    Exact t := by
  have hcount := Ledger.countP_set_toNat TxBuf.isLive hk token'
  have howners := h.tx
  unfold State.txOwners at howners
  refine ⟨?_, ?_⟩
  · unfold State.rxOwners
    rw [hreceives, hrxTokens, hrx]
    exact h.rx
  · unfold State.txOwners
    rw [hreceives, htxTokens]
    omega

theorem claimed_of_owner {n m : Nat} {claimed : Bool} (h : n + m = claimed.toNat)
    (howner : 0 < n ∨ 0 < m) : claimed = true := by
  cases claimed with
  | true => rfl
  | false =>
    rw [Bool.toNat_false] at h
    omega

theorem Exact.rxClaimed_of_live (h : Exact s) {token : RxFrame} (hmem : token ∈ s.rxTokens)
    (hlive : token.isLive = true) : s.rxClaimed = true :=
  claimed_of_owner h.rx (.inr (List.countP_pos_iff.mpr ⟨token, hmem, hlive⟩))

theorem Exact.txClaimed_of_live (h : Exact s) {token : TxBuf} (hmem : token ∈ s.txTokens)
    (hlive : token.isLive = true) : s.txClaimed = true :=
  claimed_of_owner h.tx (.inr (List.countP_pos_iff.mpr ⟨token, hmem, hlive⟩))

theorem Exact.rxClaimed_of_holds (h : Exact s) {r : Receive} (hmem : r ∈ s.receives)
    (hholds : r.holdsRx = true) : s.rxClaimed = true :=
  claimed_of_owner h.rx (.inl (List.countP_pos_iff.mpr ⟨r, hmem, hholds⟩))

theorem Exact.txClaimed_of_holds (h : Exact s) {r : Receive} (hmem : r ∈ s.receives)
    (hholds : r.holdsTx = true) : s.txClaimed = true :=
  claimed_of_owner h.tx (.inl (List.countP_pos_iff.mpr ⟨r, hmem, hholds⟩))

/-- A live token is dropped. -/
theorem Exact.dropRx (h : Exact s) {k : Nat} {token : RxFrame} (hk : s.rxTokens[k]? = some token)
    (hlive : token.isLive = true) {token' : RxFrame} (hdead : token'.isLive = false)
    (hrxTokens : t.rxTokens = s.rxTokens.set k token') (hreceives : t.receives = s.receives)
    (htxTokens : t.txTokens = s.txTokens) (htx : t.txClaimed = s.txClaimed)
    (hrx : t.rxClaimed = false) : Exact t := by
  refine h.rxToken hk hrxTokens hreceives htxTokens htx ?_
  rw [h.rxClaimed_of_live (List.mem_of_getElem? hk) hlive, hlive, hdead, hrx]
  rfl

theorem Exact.dropTx (h : Exact s) {k : Nat} {token : TxBuf} (hk : s.txTokens[k]? = some token)
    (hlive : token.isLive = true) {token' : TxBuf} (hdead : token'.isLive = false)
    (htxTokens : t.txTokens = s.txTokens.set k token') (hreceives : t.receives = s.receives)
    (hrxTokens : t.rxTokens = s.rxTokens) (hrx : t.rxClaimed = s.rxClaimed)
    (htx : t.txClaimed = false) : Exact t := by
  refine h.txToken hk htxTokens hreceives hrxTokens hrx ?_
  rw [h.txClaimed_of_live (List.mem_of_getElem? hk) hlive, hlive, hdead, htx]
  rfl

/-- The claims of a `receive` that found a frame go to its tokens. -/
theorem Exact.handOver (h : Exact s) {k len : Nat} (hk : s.receives[k]? = some .popping)
    (hreceives : t.receives = s.receives.set k .returned)
    (hrxTokens : t.rxTokens = s.rxTokens ++ [RxFrame.live len])
    (htxTokens : t.txTokens = s.txTokens ++ [TxBuf.live]) (hrx : t.rxClaimed = s.rxClaimed)
    (htx : t.txClaimed = s.txClaimed) : Exact t := by
  have hrxCount : (s.receives.set k .returned).countP Receive.holdsRx + 1 =
      s.receives.countP Receive.holdsRx := Ledger.countP_set_toNat Receive.holdsRx hk .returned
  have htxCount : (s.receives.set k .returned).countP Receive.holdsTx + 1 =
      s.receives.countP Receive.holdsTx := Ledger.countP_set_toNat Receive.holdsTx hk .returned
  have hrxNew : (s.rxTokens ++ [RxFrame.live len]).countP RxFrame.isLive =
      s.rxTokens.countP RxFrame.isLive + 1 := List.countP_append
  have htxNew : (s.txTokens ++ [TxBuf.live]).countP TxBuf.isLive =
      s.txTokens.countP TxBuf.isLive + 1 := List.countP_append
  have hrxOwners := h.rx
  have htxOwners := h.tx
  unfold State.rxOwners at hrxOwners
  unfold State.txOwners at htxOwners
  refine ⟨?_, ?_⟩
  · unfold State.rxOwners
    rw [hreceives, hrxTokens, hrx, hrxNew]
    omega
  · unfold State.txOwners
    rw [hreceives, htxTokens, htx, htxNew]
    omega

theorem exact_stepReceive (h : Exact s) {k : Nat} {r : Receive} (hk : s.receives[k]? = some r)
    (hs : s.stepReceive k r = some t) : Exact t := by
  have hmem := List.mem_of_getElem? hk
  cases r with
  | entered =>
    simp only [State.stepReceive] at hs
    split at hs
    · cases hs
      exact h.receive hk rfl rfl rfl rfl rfl
    · rename_i hfree
      cases hs
      refine h.receive hk rfl rfl rfl ?_ rfl
      rw [Bool.not_eq_true _ |>.mp hfree]
      rfl
  | claimed =>
    simp only [State.stepReceive] at hs
    split at hs
    · cases hs
      exact h.receive hk rfl rfl rfl rfl rfl
    · rename_i hfree
      cases hs
      refine h.receive hk rfl rfl rfl rfl ?_
      rw [Bool.not_eq_true _ |>.mp hfree]
      rfl
  | rollingBack =>
    cases hs
    refine h.receive hk rfl rfl rfl ?_ rfl
    rw [h.rxClaimed_of_holds hmem rfl]
    rfl
  | popping =>
    simp only [State.stepReceive] at hs
    split at hs
    · cases hs
      exact h.receive hk rfl rfl rfl rfl rfl
    · cases hs
      exact h.handOver hk rfl rfl rfl rfl rfl
  | emptied =>
    cases hs
    refine h.receive hk rfl rfl rfl ?_ ?_
    · rw [h.rxClaimed_of_holds hmem rfl]
      rfl
    · rw [h.txClaimed_of_holds hmem rfl]
      rfl
  | returned => cases hs

theorem exact_stepRx (h : Exact s) {k : Nat} {token : RxFrame} (hk : s.rxTokens[k]? = some token)
    (hok : DropsUnclaimed s (.rx k)) (hs : s.stepRx k token = some t) : Exact t := by
  cases token with
  | reading len =>
    cases hs
    exact h.dropRx hk rfl rfl rfl rfl rfl rfl rfl
  | cleared =>
    cases hs
    refine h.rxToken hk rfl rfl rfl rfl ?_
    rw [hok hk]
    rfl
  | live | dropped => cases hs

theorem exact_stepTx (h : Exact s) {k : Nat} {token : TxBuf} (hk : s.txTokens[k]? = some token)
    (hok : DropsUnclaimed s (.tx k)) (hs : s.stepTx k token = some t) : Exact t := by
  cases token with
  | writing len | sinking len sink =>
    cases hs
    exact h.txToken hk rfl rfl rfl rfl rfl
  | emitting len =>
    cases hs
    refine h.txToken hk rfl rfl rfl rfl ?_
    split <;> rfl
  | clearing =>
    cases hs
    exact h.dropTx hk rfl rfl rfl rfl rfl rfl rfl
  | cleared =>
    cases hs
    refine h.txToken hk rfl rfl rfl rfl ?_
    rw [hok hk]
    rfl
  | live | dropped => cases hs

/-- **A claim is kept by its owner**, as long as no drop after `consume` finds the
buffer claimed. -/
theorem exact_step (h : Exact s) {act : Action} (hok : DropsUnclaimed s act)
    (hs : step s act = some t) : Exact t := by
  cases act with
  | push frame =>
    cases hs
    unfold State.push
    split
    · exact h.congr rfl rfl rfl rfl rfl
    · split <;> exact h.congr rfl rfl rfl rfl rfl
  | takeReceived out =>
    cases hs
    unfold State.takeReceived
    split
    · exact h
    · exact h.congr rfl rfl rfl rfl rfl
  | reset | setTxSink =>
    cases hs
    exact h.congr rfl rfl rfl rfl rfl
  | receive =>
    cases hs
    have hrx := h.rx
    have htx := h.tx
    refine ⟨?_, ?_⟩
    · unfold State.rxOwners at hrx ⊢
      rw [List.countP_append]
      exact hrx
    · unfold State.txOwners at htx ⊢
      rw [List.countP_append]
      exact htx
  | transmit =>
    simp only [step] at hs
    split at hs
    · cases hs
      exact h
    · rename_i hfree
      cases hs
      refine ⟨h.rx, ?_⟩
      have hnew : (s.txTokens ++ [TxBuf.live]).countP TxBuf.isLive =
          s.txTokens.countP TxBuf.isLive + 1 := List.countP_append
      have htx := h.tx
      unfold State.txOwners at htx ⊢
      rw [Bool.not_eq_true _ |>.mp hfree, Bool.toNat_false] at htx
      dsimp only
      rw [hnew, Bool.toNat_true]
      omega
  | call k =>
    obtain ⟨r, hk, hs⟩ := Option.bind_eq_some_iff.mp hs
    exact exact_stepReceive h hk hs
  | rxConsume k =>
    obtain ⟨token, hk, hs⟩ := Option.bind_eq_some_iff.mp hs
    cases token with
    | live len =>
      cases hs
      exact h.rxToken hk rfl rfl rfl rfl rfl
    | reading | cleared | dropped => cases hs
  | rx k =>
    obtain ⟨token, hk, hs⟩ := Option.bind_eq_some_iff.mp hs
    exact exact_stepRx h hk hok hs
  | rxDrop k =>
    obtain ⟨token, hk, hs⟩ := Option.bind_eq_some_iff.mp hs
    cases token with
    | live len =>
      cases hs
      exact h.dropRx hk rfl rfl rfl rfl rfl rfl rfl
    | reading | cleared | dropped => cases hs
  | txConsume k len =>
    obtain ⟨token, hk, hs⟩ := Option.bind_eq_some_iff.mp hs
    cases token with
    | live =>
      cases hs
      exact h.txToken hk rfl rfl rfl rfl rfl
    | writing | emitting | sinking | clearing | cleared | dropped => cases hs
  | txFill k data =>
    obtain ⟨token, hk, hs⟩ := Option.bind_eq_some_iff.mp hs
    cases token with
    | writing len =>
      obtain ⟨-, hs⟩ := Option.ite_none_right_eq_some.mp hs
      cases hs
      exact h.congr rfl rfl rfl rfl rfl
    | live | emitting | sinking | clearing | cleared | dropped => cases hs
  | tx k =>
    obtain ⟨token, hk, hs⟩ := Option.bind_eq_some_iff.mp hs
    exact exact_stepTx h hk hok hs
  | txDrop k =>
    obtain ⟨token, hk, hs⟩ := Option.bind_eq_some_iff.mp hs
    cases token with
    | live =>
      cases hs
      exact h.dropTx hk rfl rfl rfl rfl rfl rfl rfl
    | writing | emitting | sinking | clearing | cleared | dropped => cases hs

/-! ## §3 Main results -/

/-- **Tokens are exclusive.** In a run where no drop after `consume` finds the
buffer claimed, a scratch buffer has at most one live token, which has it
claimed, and no call writes a buffer that has a live token. -/
theorem tokens_exclusive {as : List Action} {s : State} (h : Steps step DropsUnclaimed init as s) :
    s.rxTokens.countP RxFrame.isLive ≤ 1 ∧ s.txTokens.countP TxBuf.isLive ≤ 1 ∧
      (∀ token ∈ s.rxTokens, token.isLive = true → s.rxClaimed = true) ∧
      (∀ token ∈ s.txTokens, token.isLive = true → s.txClaimed = true) ∧
      (.popping ∈ s.receives → ∀ token ∈ s.rxTokens, token.isLive = false) := by
  have hinv := h.invariant exact_init fun _ _ _ ht hok hs => exact_step ht hok hs
  have hrx : s.receives.countP Receive.holdsRx + s.rxTokens.countP RxFrame.isLive ≤ 1 :=
    hinv.rx.trans_le (Bool.toNat_le _)
  have htx : s.receives.countP Receive.holdsTx + s.txTokens.countP TxBuf.isLive ≤ 1 :=
    hinv.tx.trans_le (Bool.toNat_le _)
  refine ⟨by omega, by omega, fun _ => hinv.rxClaimed_of_live, fun _ => hinv.txClaimed_of_live,
    fun hpopping token htoken => Bool.eq_false_iff.mpr fun hlive => ?_⟩
  have hcall : 0 < s.receives.countP Receive.holdsRx :=
    List.countP_pos_iff.mpr ⟨.popping, hpopping, rfl⟩
  have htokens : 0 < s.rxTokens.countP RxFrame.isLive :=
    List.countP_pos_iff.mpr ⟨token, htoken, hlive⟩
  omega

end Exact

/-- Two calls receive at the same time, and one of them gets the first frame; a third call meets
the token that is being consumed, a fourth one the transmit token, and the fifth one gets the second
frame. -/
def overlapping : List Action :=
  [.push [1, 2, 3], .push [4, 5], .receive, .receive, .call 0, .call 1, .call 0, .call 0,
    .rxConsume 0, .txConsume 0 2, .txFill 0 [8, 9], .receive, .call 2, .rx 0, .rx 0, .receive,
    .call 3, .tx 0, .call 3, .tx 0, .call 3, .receive, .call 4, .tx 0, .tx 0, .call 4, .call 4,
    .rxConsume 1]

theorem tokens_exclusive_sample : ∃ s : State,
    (s.rxTokens, s.txTokens) = ([.dropped, .reading 2], [.dropped, .live]) ∧
      s.rxClaimed = true ∧ s.txClaimed = true := by
  have hrun : (run (guarded step DropsUnclaimed) init overlapping).map
      (fun s => (s.rxTokens, s.txTokens)) =
      some ([.dropped, .reading 2], [.dropped, .live]) := by decide +kernel
  obtain ⟨s, hs, htokens⟩ := Option.map_eq_some_iff.mp hrun
  obtain ⟨-, -, hrx, htx, -⟩ := tokens_exclusive (Steps.of_run_guarded hs)
  refine ⟨s, htokens, hrx (.reading 2) ?_ rfl, htx .live ?_ rfl⟩
  · rw [(Prod.mk.inj htokens).1]
    exact List.mem_cons_of_mem _ List.mem_cons_self
  · rw [(Prod.mk.inj htokens).2]
    exact List.mem_cons_of_mem _ List.mem_cons_self

/-- The first token is dropped after the second was taken, and the third is for the
same buffer. -/
theorem tokens_shared :
    ¬ ∀ s : State, Reachable step init s → s.txTokens.countP TxBuf.isLive ≤ 1 := by
  intro h
  have hrun : (run step init [.transmit, .txConsume 0 4, .tx 0, .tx 0, .tx 0, .transmit, .tx 0,
      .transmit]).map State.txTokens = some [.dropped, .live, .live] := by decide +kernel
  obtain ⟨s, hs, htokens⟩ := Option.map_eq_some_iff.mp hrun
  have hcount := h s ⟨_, Steps.of_run hs⟩
  rw [htokens] at hcount
  exact absurd hcount (by decide)

end HisiRiscv.Netif
