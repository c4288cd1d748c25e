/-
HisiRiscv.Crypto.ContentionOrder — the order of the two sessions in the
contention self test.

The holder raises `start` only while it holds the crypto service, and the
waiter asks for the service only once it has got `start`. So when the
waiter's call gets in, the closure of the holder has returned and the
mutex has been given back. The waiter can still find that the holder was
not releasing: then the holder had to give up early, because it could not
yield or did not see the waiter.

  §1 Calls of the service.
  §2 The invariant.
  §3 Steps of the service.
  §4 Steps of the parties.
  §5 Main results.
-/
import HisiRiscv.Crypto.ContentionTheorems

namespace HisiRiscv.Crypto.Contention

open HisiRiscv.Machine
open HisiRiscv.Ledger
open Service (CryptoError Result Client failed)
open Semaphore (usable permitsOf)
open State

/-! ## §1 Calls of the service -/

/-- The call has got the mutex, unless it has failed since. -/
def passed (c : Client) : Bool :=
  match c.pc with
  | .operating _ _ | .unlocking _ _ _ => true
  | .timing _ result | .recording _ result | .returned result => !failed result
  | .counting _ | .starting | .loading _ | .locking _ _ => false

theorem passed_answered (c : Client) (started : UInt64) (result : Result) :
    passed (c.answered started result) = !failed result := by
  unfold Client.answered Client.goto Client.recordingPc passed
  split_ifs <;> rfl

/-- A call gets the mutex only by acquiring it. -/
theorem passed_of_goes {a : Service.Action} {k : Nat} {c c' : Client} (h : Client.Goes a k c c')
    (hpass : passed c' = true) :
    passed c = true ∨ a = .acquires k ∧ ∃ started m, c'.pc = .operating started m := by
  unfold Client.Goes at h
  split at h
  · rename_i hpc
    unfold Client.preparing at h
    unfold passed at hpass
    split at h <;> simp_all
  · rename_i hpc
    unfold Client.preparing at h
    unfold passed at hpass
    split at h <;> simp_all
  · rcases h with ⟨m, hpc'⟩ | ⟨error, rfl⟩
    · rw [passed, hpc'] at hpass
      cases hpass
    · rw [passed_answered] at hpass
      cases hpass
  · rename_i started m hpc
    rcases h with ⟨rfl, hpc'⟩ | ⟨error, rfl⟩
    · exact Or.inr ⟨rfl, started, m, hpc'⟩
    · rw [passed_answered] at hpass
      cases hpass
  · rename_i hpc
    exact Or.inl (by rw [passed, hpc])
  · rename_i hpc
    exact Or.inl (by rw [passed, hpc])
  · rename_i started result hpc
    obtain ⟨todo, hpc'⟩ := h
    refine Or.inl ?_
    unfold passed at hpass ⊢
    rw [hpc'] at hpass
    rw [hpc]
    unfold Client.recordingPc at hpass
    split_ifs at hpass <;> exact hpass
  · rename_i todo result hpc
    obtain ⟨todo', hpc'⟩ := h
    refine Or.inl ?_
    unfold passed at hpass ⊢
    rw [hpc'] at hpass
    rw [hpc]
    unfold Client.recordingPc at hpass
    split_ifs at hpass <;> exact hpass
  · exact h.elim

theorem finished_of_goes {a : Service.Action} {k : Nat} {c c' : Client}
    (h : Client.Goes a k c c') : c.finished = false := by
  unfold Client.Goes at h
  unfold Client.finished
  split at h <;> simp_all

/-- The call of the holder, which counts nothing, returns with its unlock. -/
theorem finished_answered {c : Client} (hop : c.operation = .contentionHolder) (started : UInt64)
    (result : Result) : (c.answered started result).finished = true := by
  rw [Client.answered, hop]
  cases failed result <;> rfl

/-- A closure answers from its place in the service. -/
theorem step_backend {s s' : Service.State} {k : Nat} {result : Result}
    (hs : s.step (.backend k result) = some s') :
    ∃ c started m, s.clients[k]? = some c ∧ c.pc = .operating started m ∧
      s'.clients = s.clients.set k (c.goto (.unlocking started m result)) := by
  obtain ⟨c, hc, hs⟩ := Option.bind_eq_some_iff.mp hs
  unfold Service.State.stepBackend at hs
  split at hs
  · rename_i started m hpc
    cases hs
    exact ⟨c, started, m, hc, hpc, rfl⟩
  all_goals cases hs

/-! ## §2 The invariant -/

/-- The holder could not yield, or did not see the waiter. -/
def gaveUp (result : Result) : Prop :=
  result = .error (contentionRuntimeError 2) ∨ result = .error (contentionRuntimeError 3)

def Holder.inClosure (h : Holder) : Bool :=
  match h.pc with
  | .leaving | .tail _ => false
  | .entered | .calling | .yielding | .checking | .observing | .hashing | .releasing _ _ => true

def releasing (context : Option Context) : Prop := ∃ c, context = some c ∧ c.holderReleasing ≠ 0

structure HolderOk (cs : List Client) (context : Option Context) (h : Holder) : Prop where
  fresh : h.client = none → h.raised = false
  pending : h.inClosure = true → h.closure = none
  calling : h.pc = .entered ∨ h.pc = .calling → h.raised = false
  client : ∀ k, h.client = some k → ∃ c, cs[k]? = some c ∧ c.operation = .contentionHolder ∧
    (h.raised = true → h.closure = none → ∃ started m, c.pc = .operating started m) ∧
    ∀ result, h.closure = some result → (∃ started m, c.pc = .unlocking started m result) ∨
      c.finished = true
  released : h.raised = true → ∀ result, h.closure = some result →
    releasing context ∨ gaveUp result

/-- A holder has raised `start`. -/
def Raised (hs : List Holder) : Prop := ∃ h ∈ hs, h.raised = true

/-- The session of the holder is over: its closure has returned and the mutex is given back. -/
def SessionOver (cs : List Client) (hs : List Holder) : Prop :=
  ∃ h ∈ hs, h.raised = true ∧ h.closure.isSome = true ∧
    ∃ k c, h.client = some k ∧ cs[k]? = some c ∧ c.finished = true

structure WaiterOk (cs : List Client) (hs : List Holder) (w : Waiter) : Prop where
  started : w.started = true → Raised hs
  soon : w.pc = .attempting ∨ w.pc = .arrived → w.started = true
  client : ∀ k, w.client = some k → w.started = true ∧ ∃ c, cs[k]? = some c ∧
    c.operation = .cipher ∧ (passed c = true → SessionOver cs hs)
  comparing : ∀ sameBlock, w.pc = .comparing sameBlock → SessionOver cs hs
  early : w.early = true → ∃ h ∈ hs, ∃ result, h.closure = some result ∧ gaveUp result

structure Order (s : State) : Prop where
  holders : ∀ h ∈ s.holders, HolderOk s.service.clients s.context h
  waiters : ∀ w ∈ s.waiters, WaiterOk s.service.clients s.holders w
  /-- A permit of `start` comes from a holder. -/
  signalled : ∀ t ∈ s.tests, 0 < permitsOf t.start → Raised s.holders

theorem order_init : Order init := ⟨fun _ h => (nomatch h), fun _ h => (nomatch h), fun _ h => (nomatch h)⟩

/-! ## §3 Steps of the service -/

section ServiceStep

variable {sv sv' : Service.State} {a : Service.Action}

theorem HolderOk.service {context : Option Context} {h : Holder} (hok : HolderOk sv.clients context h)
    (hs : sv.step a = some sv') (hforeign : ∀ k result, a = .backend k result → h.client ≠ some k) :
    HolderOk sv'.clients context h where
  fresh := hok.fresh
  pending := hok.pending
  calling := hok.calling
  released := hok.released
  client k hk := by
    obtain ⟨c, hc, hop, hoperating, hclosed⟩ := hok.client k hk
    obtain ⟨c', hc', hop', hgoes⟩ := Service.step_client hs k c hc
    refine ⟨c', hc', hop'.trans hop, fun hraised hnone => ?_, fun result hresult => ?_⟩
    · obtain ⟨started, m, hpc⟩ := hoperating hraised hnone
      rcases hgoes with rfl | hgoes
      · exact ⟨started, m, hpc⟩
      · rw [Client.Goes, hpc] at hgoes
        obtain ⟨result, ha, -⟩ := hgoes
        exact (hforeign k result ha hk).elim
    · rcases hclosed result hresult with ⟨started, m, hpc⟩ | hfin
      · rcases hgoes with rfl | hgoes
        · exact Or.inl ⟨started, m, hpc⟩
        · rw [Client.Goes, hpc] at hgoes
          obtain ⟨ok, rfl⟩ := hgoes
          exact Or.inr (finished_answered hop ..)
      · rcases hgoes with rfl | hgoes
        · exact Or.inr hfin
        · rw [finished_of_goes hgoes] at hfin
          cases hfin

theorem SessionOver.service {hs : List Holder} (h : SessionOver sv.clients hs)
    (hstep : sv.step a = some sv') : SessionOver sv'.clients hs := by
  obtain ⟨hd, hmem, hraised, hclosure, k, c, hk, hc, hfin⟩ := h
  obtain ⟨c', hc', -, rfl | hgoes⟩ := Service.step_client hstep k c hc
  · exact ⟨hd, hmem, hraised, hclosure, k, c', hk, hc', hfin⟩
  · rw [finished_of_goes hgoes] at hfin
    cases hfin

/-- Another call can get in only when the session of the holder is over. -/
theorem sessionOver_of_held {hs : List Holder} {context : Option Context} (hinv : Service.Inv sv)
    (hholders : ∀ h ∈ hs, HolderOk sv.clients context h) (hraised : Raised hs) {k m : Nat}
    {c : Client} (hc : sv.clients[k]? = some c) (hop : c.operation = .cipher)
    (hheld : c.held = some m) : SessionOver sv.clients hs := by
  obtain ⟨hd, hmem, hr⟩ := hraised
  have hok := hholders hd hmem
  -- a holder whose call holds the mutex would be this call
  have hother : ∀ k' c' m', hd.client = some k' → sv.clients[k']? = some c' →
      c'.operation = .contentionHolder → c'.held = some m' → False := by
    intro k' c' m' _ hc' hop' hheld'
    have hkk := hinv.exclusive hc hc' hheld hheld'
    rw [hkk, hc', Option.some_inj] at hc
    rw [hc, hop] at hop'
    cases hop'
  cases hk : hd.client with
  | none =>
    rw [hok.fresh hk] at hr
    cases hr
  | some k' =>
    obtain ⟨c', hc', hop', hoperating, hclosed⟩ := hok.client k' hk
    cases hclosure : hd.closure with
    | none =>
      obtain ⟨started, m', hpc⟩ := hoperating hr hclosure
      exact (hother k' c' m' hk hc' hop' (by rw [Client.held, hpc])).elim
    | some result =>
      rcases hclosed result hclosure with ⟨started, m', hpc⟩ | hfin
      · exact (hother k' c' m' hk hc' hop' (by rw [Client.held, hpc])).elim
      · exact ⟨hd, hmem, hr, by rw [hclosure]; rfl, k', c', hk, hc', hfin⟩

theorem WaiterOk.service {hs : List Holder} {context : Option Context} {w : Waiter}
    (hok : WaiterOk sv.clients hs w) (hinv : Service.Inv sv') (hstep : sv.step a = some sv')
    (hholders : ∀ h ∈ hs, HolderOk sv'.clients context h) : WaiterOk sv'.clients hs w where
  started := hok.started
  soon := hok.soon
  early := hok.early
  comparing b hb := (hok.comparing b hb).service hstep
  client k hk := by
    obtain ⟨hstarted, c, hc, hop, hover⟩ := hok.client k hk
    obtain ⟨c', hc', hop', hgoes⟩ := Service.step_client hstep k c hc
    refine ⟨hstarted, c', hc', hop'.trans hop, fun hpass => ?_⟩
    rcases hgoes with rfl | hgoes
    · exact (hover hpass).service hstep
    · rcases passed_of_goes hgoes hpass with hpass | ⟨-, started, m, hpc⟩
      · exact (hover hpass).service hstep
      · exact sessionOver_of_held hinv hholders (hok.started hstarted) hc' (hop'.trans hop)
          (m := m) (by rw [Client.held, hpc])

end ServiceStep

theorem Order.stepService {s s' : State} (h : Order s) (hinv : Inv s) {a : Service.Action}
    (hforeign : s.foreign a = true) (hs : s.stepService a = some s') : Order s' := by
  obtain ⟨sv', hstep, rfl⟩ := Option.map_eq_some_iff.mp hs
  have hholders : ∀ hd ∈ s.holders, HolderOk sv'.clients s.context hd := by
    intro hd hmem
    refine (h.holders hd hmem).service hstep fun k result ha hk => ?_
    subst ha
    have := List.all_eq_true.mp hforeign hd hmem
    simp [hk] at this
  exact ⟨hholders, fun w hw => (h.waiters w hw).service (hinv.service.step hstep) hstep hholders,
    h.signalled⟩

/-! ## §4 Steps of the parties -/

theorem eq_singleton {α : Type*} {l : List α} {i : Nat} {x : α} (hlen : l.length ≤ 1)
    (hx : l[i]? = some x) : l = [x] ∧ i = 0 := by
  match l, i with
  | [y], 0 => exact ⟨by rw [Option.some_inj.mp hx], rfl⟩
  | [y], i + 1 => cases hx
  | [], i => cases hx
  | y :: z :: l, i => simp at hlen

/-- Nothing that the order speaks of changes. -/
theorem Order.congr {s s' : State} (h : Order s) (hservice : s'.service = s.service)
    (hcontext : releasing s.context → releasing s'.context) (hholders : s'.holders = s.holders)
    (hwaiters : s'.waiters = s.waiters)
    (hsignalled : ∀ t ∈ s'.tests, 0 < permitsOf t.start → Raised s.holders) : Order s' where
  holders hd hmem := by
    rw [hholders] at hmem
    have hok := h.holders hd hmem
    rw [hservice]
    exact ⟨hok.fresh, hok.pending, hok.calling, hok.client, fun hr result hresult =>
      (hok.released hr result hresult).imp_left hcontext⟩
  waiters w hw := by
    rw [hservice, hholders]
    exact h.waiters w (hwaiters ▸ hw)
  signalled t ht hpos := by
    rw [hholders]
    exact hsignalled t ht hpos

theorem Order.updateContext {s : State} (h : Order s) {f : Context → Context}
    (hf : ∀ c, c.holderReleasing ≠ 0 → (f c).holderReleasing ≠ 0) : Order (s.updateContext f) := by
  refine h.congr rfl ?_ rfl rfl h.signalled
  rintro ⟨c, hc, hne⟩
  exact ⟨f c, by rw [State.updateContext, hc]; rfl, hf c hne⟩

theorem Order.gotoTest {s : State} (h : Order s) {i : Nat} {t' : Test}
    (ht' : 0 < permitsOf t'.start → Raised s.holders) : Order (s.gotoTest i t') := by
  refine h.congr rfl id rfl rfl fun t ht hpos => ?_
  rcases mem_set_cases ht with rfl | ht
  · exact ht' hpos
  · exact h.signalled t ht hpos

theorem Order.touch {s : State} (h : Order s) (handle : Handle) (sem : Option Semaphore) :
    Order (s.touch handle sem) := by
  unfold State.touch
  split_ifs
  · exact h
  · exact h.congr rfl id rfl rfl h.signalled

theorem holders_touch (s : State) (handle : Handle) (sem : Option Semaphore) :
    (s.touch handle sem).holders = s.holders := by
  unfold State.touch
  split_ifs <;> rfl

theorem one_ne_zero : (1 : UInt32) ≠ 0 := by decide

theorem up_of_ne {sem : Option Semaphore} {reply : Reply} (h : reply ≠ .ok) :
    Semaphore.up sem reply = sem := if_neg fun hand => h hand.1

/-- Only a holder raises `start`. -/
theorem Order.up {s : State} (h : Order s) {handle : Handle} {reply : Reply}
    (hraised : handle.role = .start → reply = .ok → Raised s.holders) :
    Order (s.up handle reply) := by
  unfold State.up
  split
  · rename_i t ht
    refine (h.touch _ _).gotoTest fun hpos => ?_
    rw [holders_touch]
    by_cases hreply : reply = .ok
    · cases hrole : handle.role with
      | start => exact hraised hrole hreply
      | done =>
        rw [hrole] at hpos
        exact h.signalled t (List.mem_of_getElem? ht) hpos
    · rw [up_of_ne hreply] at hpos
      refine h.signalled t (List.mem_of_getElem? ht) ?_
      cases hrole : handle.role <;> (rw [hrole] at hpos; exact hpos)
  · exact h.touch _ _

/-- The only holder goes on; what its closure has returned stays. -/
theorem Order.goHolder {s s' : State} (h : Order s) {hd : Holder} (hd' : Holder) (hone : s.holders = [hd])
    (hone' : s'.holders = [hd']) (hwaiters : s'.waiters = s.waiters)
    (hok : HolderOk s'.service.clients s'.context hd')
    (hraised : hd.raised = true → hd'.raised = true)
    (hclosed : hd.closure.isSome = true → hd'.closure = hd.closure ∧ hd'.client = hd.client ∧
      s'.service.clients = s.service.clients)
    (hcipher : ∀ (k : Nat) (c : Client), s.service.clients[k]? = some c → c.operation = .cipher →
      s'.service.clients[k]? = some c)
    (hsignalled : ∀ t ∈ s'.tests, 0 < permitsOf t.start →
      hd'.raised = true ∨ ∃ u ∈ s.tests, 0 < permitsOf u.start) : Order s' := by
  have hR : Raised s.holders → Raised s'.holders := by
    rintro ⟨d, hd₁, hr⟩
    rw [hone, List.mem_singleton] at hd₁
    subst hd₁
    exact ⟨hd', by rw [hone']; exact List.mem_singleton_self _, hraised hr⟩
  have hS : SessionOver s.service.clients s.holders → SessionOver s'.service.clients s'.holders := by
    rintro ⟨d, hd₁, hr, hsome, k, c, hk, hc, hfin⟩
    rw [hone, List.mem_singleton] at hd₁
    subst hd₁
    obtain ⟨hclosure, hclient, hcs⟩ := hclosed hsome
    exact ⟨hd', by rw [hone']; exact List.mem_singleton_self _, hraised hr, by rwa [hclosure], k, c,
      by rwa [hclient], by rwa [hcs], hfin⟩
  refine ⟨fun d hmem => ?_, fun w hw => ?_, fun t ht hpos => ?_⟩
  · rw [hone', List.mem_singleton] at hmem
    rwa [hmem]
  · have hw' := h.waiters w (hwaiters ▸ hw)
    refine ⟨fun hst => hR (hw'.started hst), hw'.soon, fun k hk => ?_, fun b hb => hS (hw'.comparing b hb),
      fun he => ?_⟩
    · obtain ⟨hst, c, hc, hop, hpass⟩ := hw'.client k hk
      exact ⟨hst, c, hcipher k c hc hop, hop, fun hp => hS (hpass hp)⟩
    · obtain ⟨d, hd₁, result, hresult, hgave⟩ := hw'.early he
      rw [hone, List.mem_singleton] at hd₁
      subst hd₁
      obtain ⟨hclosure, -, -⟩ := hclosed (by rw [hresult]; rfl)
      exact ⟨hd', by rw [hone']; exact List.mem_singleton_self _, result, by rw [hclosure, hresult], hgave⟩
  · rcases hsignalled t ht hpos with hr | ⟨u, hu, hpos'⟩
    · exact ⟨hd', by rw [hone']; exact List.mem_singleton_self _, hr⟩
    · exact hR (h.signalled u hu hpos')

/-- The holder goes on, and only its place changes. -/
theorem Order.placeHolder {s : State} (h : Order s) {hd : Holder} (hone : s.holders = [hd])
    {pc : HolderPc} (hin : Holder.inClosure { hd with pc } = true → hd.inClosure = true)
    (hcalling : pc = .entered ∨ pc = .calling → hd.raised = false) :
    Order (s.gotoHolder 0 { hd with pc }) := by
  have hok := h.holders hd (by rw [hone]; exact List.mem_singleton_self _)
  refine h.goHolder { hd with pc } hone (by rw [State.gotoHolder, hone]; rfl) rfl ?_ id
    (fun _ => ⟨rfl, rfl, rfl⟩)
    (fun k c hc _ => hc) fun t ht hpos => Or.inr ⟨t, ht, hpos⟩
  exact ⟨hok.fresh, fun hi => hok.pending (hin hi), hcalling, hok.client, hok.released⟩

/-- The closure of the holder returns. -/
theorem Order.answerHolder {s s' : State} (h : Order s) {hd : Holder} (hone : s.holders = [hd])
    {k : Nat} {result : Result} (hk : hd.client = some k) (hin : hd.inClosure = true)
    (hreleased : hd.raised = true → releasing s.context ∨ gaveUp result)
    (hs : s.answerHolder 0 hd k result = some s') : Order s' := by
  obtain ⟨s₁, hs₁, rfl⟩ := Option.map_eq_some_iff.mp hs
  obtain ⟨sv', hstep, rfl⟩ := Option.map_eq_some_iff.mp hs₁
  have hok := h.holders hd (by rw [hone]; exact List.mem_singleton_self _)
  have hnone := hok.pending hin
  obtain ⟨c, started, m, hc, hpc, hclients⟩ := step_backend hstep
  obtain ⟨c', hc', hop, -, -⟩ := hok.client k hk
  rw [hc, Option.some_inj] at hc'
  subst hc'
  refine h.goHolder { hd with pc := .leaving, closure := some result } hone
    (by rw [State.gotoHolder, hone]; rfl) rfl ?_ id (fun hsome => ?_) (fun j d hj hcipher => ?_)
    fun t ht hpos => Or.inr ⟨t, ht, hpos⟩
  · refine ⟨fun hfresh => ?_, fun hfalse => (by cases hfalse), fun hfalse => ?_, fun k' hk' => ?_,
      fun hr r hresult => ?_⟩
    · rw [hk] at hfresh
      cases hfresh
    · rcases hfalse with hfalse | hfalse <;> cases hfalse
    · rw [show hd.client = some k' from hk', Option.some_inj] at hk
      subst hk
      refine ⟨c.goto (.unlocking started m result), ?_, hop, fun _ hfalse => (by cases hfalse), ?_⟩
      · show sv'.clients[k']? = _
        rw [hclients]
        exact List.getElem?_set_self (List.getElem?_eq_some_iff.mp hc).1
      · intro r hr
        cases hr
        exact Or.inl ⟨started, m, rfl⟩
    · cases hresult
      exact hreleased hr
  · rw [hnone] at hsome
    cases hsome
  · show sv'.clients[j]? = _
    rw [hclients, List.getElem?_set_ne]
    · exact hj
    · rintro rfl
      rw [hc, Option.some_inj] at hj
      rw [← hj, hop] at hcipher
      cases hcipher

/-- A step of the end of a task that the order does not see. -/
theorem Order.stepTail {s s₁ : State} (h : Order s) {store : UInt32 → Context → Context}
    {complete : Tally → Tally} {codeOf : CryptoError → UInt32} {reply : Reply} {t t' : Tail}
    (hs : s.stepTail store complete codeOf reply t = some (s₁, t'))
    (hstore : ∀ value c, c.holderReleasing ≠ 0 → (store value c).holderReleasing ≠ 0) :
    Order s₁ ∧ s₁.holders = s.holders ∧ s₁.waiters = s.waiters := by
  cases t with
  | completing result =>
    cases hs
    split_ifs
    · exact ⟨h, rfl, rfl⟩
    · exact ⟨h.congr rfl id rfl rfl h.signalled, rfl, rfl⟩
  | storing result =>
    cases hs
    exact ⟨h.updateContext (hstore _), rfl, rfl⟩
  | signalling result =>
    obtain ⟨c, hc, hpair⟩ := Option.map_eq_some_iff.mp hs
    cases hpair
    exact ⟨h.up fun hrole => (by cases hrole), tasks_up ..⟩
  | finished result => cases hs

theorem clientOperates_eq {s : State} {k : Nat} (h : s.clientOperates k = true) :
    ∃ c started m, s.service.clients[k]? = some c ∧ c.pc = .operating started m := by
  unfold State.clientOperates State.clientPc at h
  split at h
  · rename_i started m hpc
    obtain ⟨c, hc, hpc⟩ := Option.map_eq_some_iff.mp hpc
    exact ⟨c, started, m, hc, hpc⟩
  · cases h

theorem clientResult_eq {s : State} {k : Nat} {result : Result}
    (h : s.clientResult k = some result) :
    ∃ c, s.service.clients[k]? = some c ∧ c.pc = .returned result := by
  unfold State.clientResult State.clientPc at h
  split at h
  · rename_i result' hpc
    obtain ⟨c, hc, hpc⟩ := Option.map_eq_some_iff.mp hpc
    cases h
    exact ⟨c, hc, hpc⟩
  · cases h

/-- The holder raises `start` while it holds the service. -/
theorem Order.raiseStart {s : State} (h : Order s) {hd : Holder} (hone : s.holders = [hd]) {k : Nat}
    (hk : hd.client = some k) (hpc : hd.pc = .calling) (hoperates : s.clientOperates k = true) :
    Order (s.gotoHolder 0 { hd with pc := .yielding, raised := true }) := by
  have hok := h.holders hd (by rw [hone]; exact List.mem_singleton_self _)
  have hnone := hok.pending (by rw [Holder.inClosure, hpc])
  refine h.goHolder { hd with pc := .yielding, raised := true } hone
    (by rw [State.gotoHolder, hone]; rfl) rfl ?_ (fun _ => rfl) (fun _ => ⟨rfl, rfl, rfl⟩)
    (fun k c hc _ => hc) fun t ht hpos => Or.inr ⟨t, ht, hpos⟩
  obtain ⟨c, started, m, hc, hcpc⟩ := clientOperates_eq hoperates
  refine ⟨fun hfresh => ?_, fun _ => hnone, fun hfalse => ?_, fun k' hk' => ?_,
    fun _ r hresult => ?_⟩
  · rw [show hd.client = none from hfresh] at hk
    cases hk
  · rcases hfalse with hfalse | hfalse <;> cases hfalse
  · rw [show hd.client = some k' from hk', Option.some_inj] at hk
    subst hk
    obtain ⟨c', hc', hop, -, -⟩ := hok.client k' hk'
    rw [hc, Option.some_inj] at hc'
    subst hc'
    refine ⟨c, hc, hop, fun _ _ => ⟨started, m, hcpc⟩, fun r hr => ?_⟩
    rw [show hd.closure = some r from hr] at hnone
    cases hnone
  · rw [show hd.closure = some r from hresult] at hnone
    cases hnone

theorem up_gotoHolder (s : State) (handle : Handle) (reply : Reply) (i : Nat) (hd : Holder) :
    (s.up handle reply).gotoHolder i hd = (s.gotoHolder i hd).up handle reply := by
  unfold State.up State.touch State.gotoHolder
  dsimp only
  split <;> split_ifs <;> rfl

theorem service_up (s : State) (handle : Handle) (reply : Reply) :
    (s.up handle reply).service = s.service ∧ (s.up handle reply).context = s.context := by
  unfold State.up State.touch
  split <;> split_ifs <;> exact ⟨rfl, rfl⟩

theorem Order.stepHolder {codeOf : CryptoError → UInt32} {s s' : State} (h : Order s) (hinv : Inv s)
    {i : Nat} {reply : Reply} {hd : Holder} (hi : s.holders[i]? = some hd)
    (hs : s.stepHolder codeOf i reply hd = some s') : Order s' := by
  obtain ⟨hone, rfl⟩ := eq_singleton hinv.lengths.1 hi
  have hok := h.holders hd (by rw [hone]; exact List.mem_singleton_self _)
  unfold State.stepHolder at hs
  split at hs
  · rename_i hpc
    obtain ⟨s₁, hs₁, rfl⟩ := Option.map_eq_some_iff.mp hs
    obtain ⟨sv', hstep, rfl⟩ := Option.map_eq_some_iff.mp hs₁
    cases hstep
    have hraised := hok.calling (Or.inl hpc)
    have hnone := hok.pending (by rw [Holder.inClosure, hpc])
    refine h.goHolder { hd with pc := .calling, client := some s.service.clients.length } hone
      (by rw [State.gotoHolder, hone]; rfl) rfl ?_ id (fun hsome => ?_) (fun k c hc _ => ?_)
      fun t ht hpos => Or.inr ⟨t, ht, hpos⟩
    · refine ⟨fun _ => hraised, fun _ => hnone, fun _ => hraised, fun k hk => ?_, fun hr => ?_⟩
      · cases hk
        refine ⟨Client.enter .contentionHolder, List.getElem?_concat_length, rfl, fun hr => ?_,
          fun r hr => ?_⟩
        · rw [show hd.raised = true from hr] at hraised
          cases hraised
        · rw [show hd.closure = some r from hr] at hnone
          cases hnone
      · rw [show hd.raised = true from hr] at hraised
        cases hraised
    · rw [hnone] at hsome
      cases hsome
    · exact (List.getElem?_append_left (List.getElem?_eq_some_iff.mp hc).1).trans hc
  · rename_i k hpc hk
    have hin : hd.inClosure = true := by rw [Holder.inClosure, hpc]
    have hraised := hok.calling (Or.inr hpc)
    split at hs
    · cases hs
      exact h.placeHolder hone (fun _ => hin) fun _ => hraised
    · split_ifs at hs with hoperates
      split at hs
      · rename_i c hc
        cases hs
        rw [up_gotoHolder]
        refine (h.raiseStart hone hk hpc hoperates).up fun _ _ => ?_
        exact ⟨_, by rw [State.gotoHolder, hone]; exact List.mem_singleton_self _, rfl⟩
      · rename_i c hreply hc
        have hup : Order (s.up ⟨c.test, .start⟩ _) := h.up fun _ hfalse => (hreply hfalse).elim
        refine hup.answerHolder (by rw [(tasks_up ..).1, hone]) hk hin (fun hr => ?_) hs
        rw [hraised] at hr
        cases hr
      · cases hs
  · rename_i k hpc hk
    have hin : hd.inClosure = true := by rw [Holder.inClosure, hpc]
    split at hs
    · cases hs
      exact h.placeHolder hone (fun _ => hin) (by simp)
    · exact h.answerHolder hone hk hin (fun _ => Or.inr (Or.inl rfl)) hs
    · exact h.answerHolder hone hk hin (fun _ => Or.inr (Or.inl rfl)) hs
  · rename_i k hpc hk
    have hin : hd.inClosure = true := by rw [Holder.inClosure, hpc]
    obtain ⟨value, -, hs⟩ := Option.bind_eq_some_iff.mp hs
    split_ifs at hs
    · exact h.answerHolder hone hk hin (fun _ => Or.inr (Or.inr rfl)) hs
    · cases hs
      exact h.placeHolder hone (fun _ => hin) (by simp)
  · rename_i k hpc hk
    have hin : hd.inClosure = true := by rw [Holder.inClosure, hpc]
    cases hs
    have hctx : Order (s.updateContext fun c => { c with contentionObserved := 1 }) :=
      h.updateContext fun _ hne => hne
    exact hctx.placeHolder hone (fun _ => hin) (by simp)
  · rename_i result sameDigest k hpc hk
    have hin : hd.inClosure = true := by rw [Holder.inClosure, hpc]
    have hctx : Order (s.updateContext fun c => { c with holderReleasing := 1 }) :=
      h.updateContext fun _ _ => one_ne_zero
    refine hctx.answerHolder hone hk hin (fun _ => Or.inl ?_) hs
    obtain ⟨c, hc⟩ := hinv.context_of_holder hi
    exact ⟨_, by rw [State.updateContext, hc]; rfl, one_ne_zero⟩
  · rename_i k hpc hk
    obtain ⟨result, -, rfl⟩ := Option.map_eq_some_iff.mp hs
    exact h.placeHolder hone (fun hfalse => (by cases hfalse)) (by simp)
  · rename_i t hpc
    obtain ⟨⟨s₁, t'⟩, hs₁, rfl⟩ := Option.map_eq_some_iff.mp hs
    obtain ⟨h₁, hholders, -⟩ := h.stepTail hs₁ fun _ _ hne => hne
    exact h₁.placeHolder (hholders.trans hone) (fun hfalse => (by cases hfalse)) (by simp)
  all_goals cases hs

theorem Order.stepHash {s s' : State} (h : Order s) (hinv : Inv s) {i : Nat} {result : Result}
    {sameDigest : Bool} {hd : Holder} (hi : s.holders[i]? = some hd)
    (hs : s.stepHash i result sameDigest hd = some s') : Order s' := by
  obtain ⟨hone, rfl⟩ := eq_singleton hinv.lengths.1 hi
  unfold State.stepHash at hs
  split at hs
  · rename_i hpc
    cases hs
    exact h.placeHolder hone (fun _ => by rw [Holder.inClosure, hpc]) (by simp)
  all_goals cases hs

theorem Order.gotoWaiter {s : State} (h : Order s) {i : Nat} {w' : Waiter}
    (hok : WaiterOk s.service.clients s.holders w') : Order (s.gotoWaiter i w') where
  holders := h.holders
  signalled := h.signalled
  waiters w hw := by
    rcases mem_set_cases hw with rfl | hw
    · exact hok
    · exact h.waiters w hw

/-- A waiter whose call is known and that is at a place without demands. -/
theorem WaiterOk.place {cs : List Client} {hs : List Holder} {w : Waiter} (h : WaiterOk cs hs w)
    {pc : WaiterPc} (hsoon : pc = .attempting ∨ pc = .arrived → w.started = true)
    (hcomparing : ∀ sameBlock, pc = .comparing sameBlock → SessionOver cs hs) :
    WaiterOk cs hs { w with pc } := ⟨h.started, hsoon, h.client, hcomparing, h.early⟩

theorem Order.waiterFails {s : State} (h : Order s) {i : Nat} {w : Waiter}
    (hok : WaiterOk s.service.clients s.holders w) (code : UInt32) :
    Order (s.waiterFails i w code) :=
  h.gotoWaiter (hok.place (by simp) (by simp))

/-- A permit that is taken was given by a holder. -/
theorem Order.down {s s' : State} (h : Order s) (hinv : Inv s) {c : Context}
    (hc : s.context = some c) (hlt : overs s.holders s.waiters < s.holders.length + s.waiters.length)
    {reply : Reply} (hs : s.down ⟨c.test, .start⟩ reply = some s') :
    Order s' ∧ s'.service = s.service ∧ s'.holders = s.holders ∧
      (reply = .ok → Raised s.holders) := by
  obtain ⟨t, ht, hwon, htasks, hu⟩ := hinv.alive hc hlt
  obtain ⟨sem, hsem, rfl⟩ := down_eq ⟨c.test, .start⟩ ht (hu .start) hs
  have hmem := List.mem_of_getElem? ht
  cases reply with
  | timesOut | fails =>
    cases hsem
    exact ⟨h.gotoTest fun hpos => h.signalled t hmem hpos, rfl, rfl, fun hfalse => (by cases hfalse)⟩
  | ok =>
    simp only [Semaphore.down] at hsem
    split_ifs at hsem with hpermit
    have hraised := h.signalled t hmem hpermit.2
    exact ⟨h.gotoTest fun _ => hraised, rfl, rfl, fun _ => hraised⟩

theorem Order.stepWaiter {codeOf : CryptoError → UInt32} {s s' : State} (h : Order s) (hinv : Inv s)
    {i : Nat} {reply : Reply} {w : Waiter} (hi : s.waiters[i]? = some w)
    (hs : s.stepWaiter codeOf i reply w = some s') : Order s' := by
  have hok := h.waiters w (List.mem_of_getElem? hi)
  unfold State.stepWaiter at hs
  split at hs
  · rename_i hpc
    have hlt : overs s.holders s.waiters < s.holders.length + s.waiters.length :=
      overs_lt_of_waiter hi (by rw [Waiter.over, hpc])
    obtain ⟨c, hc, hs⟩ := Option.bind_eq_some_iff.mp hs
    obtain ⟨s₁, hs₁, rfl⟩ := Option.map_eq_some_iff.mp hs
    obtain ⟨h₁, hservice, hholders, hraised⟩ := h.down hinv hc hlt hs₁
    rw [← hservice, ← hholders] at hok
    cases reply with
    | ok =>
      refine h₁.gotoWaiter ⟨fun _ => ?_, fun _ => rfl, fun k hk => ?_, fun b hb => ?_, hok.early⟩
      · rw [hholders]
        exact hraised rfl
      · exact ⟨rfl, (hok.client k hk).2⟩
      · cases hb
    | timesOut => exact h₁.waiterFails hok 6
    | fails => exact h₁.waiterFails hok 5
  · rename_i hpc
    cases hs
    have hctx : Order (s.updateContext fun c => { c with waiterAttempted := 1 }) :=
      h.updateContext fun _ hne => hne
    exact hctx.gotoWaiter (hok.place (fun _ => hok.soon (Or.inl hpc)) (by simp))
  · rename_i hpc
    obtain ⟨s₁, hs₁, rfl⟩ := Option.map_eq_some_iff.mp hs
    have h₁ := h.stepService hinv rfl hs₁
    obtain ⟨sv', hstep, rfl⟩ := Option.map_eq_some_iff.mp hs₁
    have hok₁ := h₁.waiters w (List.mem_of_getElem? hi)
    cases hstep
    refine h₁.gotoWaiter ⟨hok₁.started, by simp, fun k hk => ?_, by simp, hok₁.early⟩
    cases hk
    exact ⟨hok.soon (Or.inr hpc), Client.enter .cipher, List.getElem?_concat_length, rfl,
      fun hpass => (by cases hpass)⟩
  · rename_i hpc
    split at hs
    · cases hs
      exact h.gotoWaiter (hok.place (by simp) (by simp))
    all_goals cases hs
  · rename_i sameBlock hpc
    obtain ⟨value, hvalue, rfl⟩ := Option.map_eq_some_iff.mp hs
    split_ifs with hzero
    · refine h.waiterFails (w := { w with early := true })
        ⟨hok.started, fun hfalse => hok.soon hfalse, hok.client, hok.comparing, fun _ => ?_⟩ 7
      obtain ⟨hd, hmem, hraised, hsome, -⟩ := hok.comparing sameBlock hpc
      obtain ⟨result, hresult⟩ := Option.isSome_iff_exists.mp hsome
      refine ⟨hd, hmem, result, hresult, ?_⟩
      refine ((h.holders hd hmem).released hraised result hresult).resolve_left ?_
      rintro ⟨c, hc, hne⟩
      rw [State.load, hc, Option.map_some, Option.some_inj] at hvalue
      exact hne (hvalue.trans hzero)
    · exact h.gotoWaiter (hok.place (by simp) (by simp))
    · exact h.waiterFails hok 8
  · rename_i t hpc
    obtain ⟨⟨s₁, t'⟩, hs₁, rfl⟩ := Option.map_eq_some_iff.mp hs
    obtain ⟨h₁, hholders, hwaiters⟩ := h.stepTail hs₁ fun _ _ hne => hne
    have hok₁ := h₁.waiters w (by rw [hwaiters]; exact List.mem_of_getElem? hi)
    exact h₁.gotoWaiter (hok₁.place (by simp) (by simp))

theorem Order.stepCompare {s s' : State} (h : Order s) {i : Nat} {sameBlock : Bool} {w : Waiter}
    (hi : s.waiters[i]? = some w) (hs : s.stepCompare i sameBlock w = some s') : Order s' := by
  have hok := h.waiters w (List.mem_of_getElem? hi)
  unfold State.stepCompare at hs
  split at hs
  · rename_i hpc
    split at hs
    · rename_i v hresult
      cases hs
      refine h.gotoWaiter (hok.place (by simp) fun _ _ => ?_)
      obtain ⟨k, hk, hresult⟩ := Option.bind_eq_some_iff.mp hresult
      obtain ⟨c, hc, hcpc⟩ := clientResult_eq hresult
      obtain ⟨-, c', hc', -, hover⟩ := hok.client k hk
      rw [hc, Option.some_inj] at hc'
      subst hc'
      exact hover (by rw [passed, hcpc]; rfl)
    all_goals cases hs
  all_goals cases hs

/-- A new task, of which nothing is known, and a test that goes on. -/
theorem Order.spawn {s s' : State} (h : Order s) (hs : List Holder) (ws : List Waiter)
    (hservice : s'.service = s.service) (hcontext : s'.context = s.context)
    (hholders : s'.holders = s.holders ++ hs) (hwaiters : s'.waiters = s.waiters ++ ws)
    (hfresh : ∀ hd ∈ hs, hd = ⟨.entered, none, false, none⟩)
    (hfresh' : ∀ w ∈ ws, w = ⟨.entered, none, false, false⟩)
    (hsignalled : ∀ t ∈ s'.tests, 0 < permitsOf t.start → Raised s.holders) : Order s' := by
  have hR : Raised s.holders → Raised s'.holders := by
    rintro ⟨hd, hmem, hr⟩
    exact ⟨hd, by rw [hholders]; exact List.mem_append_left _ hmem, hr⟩
  have hS : SessionOver s.service.clients s.holders → SessionOver s'.service.clients s'.holders := by
    rintro ⟨hd, hmem, hrest⟩
    rw [hservice]
    exact ⟨hd, by rw [hholders]; exact List.mem_append_left _ hmem, hrest⟩
  refine ⟨fun hd hmem => ?_, fun w hw => ?_, fun t ht hpos => hR (hsignalled t ht hpos)⟩
  · rw [hholders] at hmem
    rw [hservice, hcontext]
    rcases List.mem_append.mp hmem with hmem | hmem
    · exact h.holders hd hmem
    · rw [hfresh hd hmem]
      exact ⟨fun _ => rfl, fun _ => rfl, fun _ => rfl, fun k hk => (nomatch hk),
        fun hr => (nomatch hr)⟩
  · rw [hwaiters] at hw
    rcases List.mem_append.mp hw with hw | hw
    · have hok := h.waiters w hw
      refine ⟨fun hst => hR (hok.started hst), hok.soon, fun k hk => ?_,
        fun b hb => hS (hok.comparing b hb), fun he => ?_⟩
      · obtain ⟨hst, c, hc, hop, hover⟩ := hok.client k hk
        exact ⟨hst, c, by rw [hservice, hc], hop, fun hp => hS (hover hp)⟩
      · obtain ⟨hd, hmem, hrest⟩ := hok.early he
        exact ⟨hd, by rw [hholders]; exact List.mem_append_left _ hmem, hrest⟩
    · rw [hfresh' w hw]
      exact ⟨fun hst => (nomatch hst), by simp, fun k hk => (nomatch hk), by simp,
        fun he => (nomatch he)⟩

theorem Order.stepTest {s s' : State} (h : Order s) {i : Nat} {reply : Reply} {t : Test}
    (ht : s.tests[i]? = some t) (hs : s.stepTest i reply t = some s') : Order s' := by
  have hmem := List.mem_of_getElem? ht
  -- the semaphore `start` of the test keeps its permits
  have hsame : ∀ {t' : Test}, permitsOf t'.start = permitsOf t.start →
      0 < permitsOf t'.start → Raised s.holders :=
    fun heq hpos => h.signalled t hmem (heq ▸ hpos)
  have htouch : ∀ {handle : Handle} {sem : Option Semaphore} {t' : Test},
      permitsOf t'.start = permitsOf t.start → Order ((s.touch handle sem).gotoTest i t') := by
    intro handle sem t' heq
    refine (h.touch handle sem).gotoTest fun hpos => ?_
    rw [holders_touch]
    exact hsame heq hpos
  have hset : ∀ {t' : Test}, permitsOf t'.start = permitsOf t.start →
      ∀ u ∈ s.tests.set i t', 0 < permitsOf u.start → Raised s.holders := by
    intro t' heq u hu hpos
    rcases mem_set_cases hu with rfl | hu
    · exact hsame heq hpos
    · exact h.signalled u hu hpos
  unfold State.stepTest at hs
  split at hs
  case h_1 =>
    cases hs
    split_ifs
    · exact h.gotoTest fun hpos => (by cases hpos)
    · exact h.gotoTest (hsame rfl)
  case h_2 =>
    cases hs
    split_ifs <;> exact h.gotoTest (hsame rfl)
  case h_3 | h_5 =>
    cases hs
    exact htouch (permitsOf_destroy ..)
  case h_4 =>
    split at hs <;> rename_i hc
    · cases hs
      refine h.congr rfl ?_ rfl rfl (hset rfl)
      rintro ⟨c, hc', -⟩
      rw [hc] at hc'
      cases hc'
    · cases hs
      exact h.gotoTest (hsame rfl)
  case h_6 | h_12 =>
    cases hs
    exact htouch rfl
  case h_7 =>
    cases hs
    split_ifs
    · refine h.spawn [⟨.entered, none, false, none⟩] [] rfl rfl rfl
        (List.append_nil _).symm (by simp) (by simp) (hset rfl)
    · exact h.gotoTest (hsame rfl)
  case h_8 =>
    cases hs
    split_ifs
    · refine h.spawn [] [⟨.entered, none, false, false⟩] rfl rfl
        (List.append_nil _).symm rfl (by simp) (by simp) (hset rfl)
    · exact h.gotoTest (hsame rfl)
  case h_9 =>
    obtain ⟨sem, -, rfl⟩ := Option.map_eq_some_iff.mp hs
    cases reply <;> exact htouch rfl
  case h_10 =>
    cases hs
    exact h.gotoTest (hsame rfl)
  case h_11 =>
    cases hs
    exact htouch (permitsOf_destroy ..)
  case h_13 | h_14 | h_15 =>
    obtain ⟨value, -, rfl⟩ := Option.map_eq_some_iff.mp hs
    exact h.gotoTest (hsame rfl)
  case h_16 | h_17 =>
    cases hs
    exact h.congr rfl id rfl rfl (hset rfl)
  case h_18 => cases hs

/-! ## §5 Main results -/

theorem Order.step {codeOf : CryptoError → UInt32} {s s' : State} {a : Action} (h : Order s)
    (hinv : Inv s) (hs : step codeOf s a = some s') : Order s' := by
  cases a with
  | service a =>
    rw [Contention.step] at hs
    split_ifs at hs with hforeign
    exact h.stepService hinv hforeign hs
  | test =>
    cases hs
    refine h.congr rfl id rfl rfl fun t ht hpos => ?_
    rcases List.mem_append.mp ht with ht | ht
    · exact h.signalled t ht hpos
    · rw [List.mem_singleton.mp ht] at hpos
      cases hpos
  | testStep i reply =>
    obtain ⟨t, ht, hs⟩ := Option.bind_eq_some_iff.mp hs
    exact h.stepTest ht hs
  | holder i reply =>
    obtain ⟨hd, hi, hs⟩ := Option.bind_eq_some_iff.mp hs
    exact h.stepHolder hinv hi hs
  | hash i result sameDigest =>
    obtain ⟨hd, hi, hs⟩ := Option.bind_eq_some_iff.mp hs
    exact h.stepHash hinv hi hs
  | waiter i reply =>
    obtain ⟨w, hi, hs⟩ := Option.bind_eq_some_iff.mp hs
    exact h.stepWaiter hinv hi hs
  | compare i sameBlock =>
    obtain ⟨w, hi, hs⟩ := Option.bind_eq_some_iff.mp hs
    exact h.stepCompare hi hs

theorem reachable_order {codeOf : CryptoError → UInt32} {s : State}
    (h : Reachable (Contention.step codeOf) init s) : Inv s ∧ Order s :=
  h.invariant (I := fun s => Inv s ∧ Order s) ⟨inv_init, order_init⟩
    fun _ _ _ hI hs => ⟨hI.1.step hs, hI.2.step hI.1 hs⟩

/-- The cipher call of the waiter gets into the service only after the
session of the holder: the closure of the holder has returned, its call
has given the mutex back, and the holder was releasing unless it gave up. -/
theorem waiter_after_holder {codeOf : CryptoError → UInt32} {s : State}
    (h : Reachable (Contention.step codeOf) init s) {w : Waiter} (hw : w ∈ s.waiters) {k : Nat}
    (hk : w.client = some k) {c : Client} (hc : s.service.clients[k]? = some c)
    (hpass : passed c = true) :
    ∃ hd ∈ s.holders, ∃ result, hd.closure = some result ∧
      (∃ k' c', hd.client = some k' ∧ s.service.clients[k']? = some c' ∧ c'.finished = true) ∧
      (releasing s.context ∨ gaveUp result) := by
  obtain ⟨-, horder⟩ := reachable_order h
  obtain ⟨-, c', hc', -, hover⟩ := (horder.waiters w hw).client k hk
  rw [hc, Option.some_inj] at hc'
  subst hc'
  obtain ⟨hd, hmem, hraised, hsome, hclient⟩ := hover hpass
  obtain ⟨result, hresult⟩ := Option.isSome_iff_exists.mp hsome
  exact ⟨hd, hmem, result, hresult, hclient,
    (horder.holders hd hmem).released hraised result hresult⟩

theorem waiter_after_holder_success :
    ∃ s : State, ∃ hd ∈ s.holders, ∃ result, hd.closure = some result ∧
      (∃ k c, hd.client = some k ∧ s.service.clients[k]? = some c ∧ c.finished = true) ∧
      (releasing s.context ∨ gaveUp result) :=
  have hrun : Reachable (Contention.step fun _ => 1) init _ := ⟨successRun, Steps.of_run rfl⟩
  ⟨_, waiter_after_holder hrun List.mem_cons_self rfl rfl rfl⟩

/-- The waiter finds `holder_releasing` unset only if the holder could not yield
or did not see the waiter. -/
theorem early_only_if_gaveUp {codeOf : CryptoError → UInt32} {s : State}
    (h : Reachable (Contention.step codeOf) init s) {w : Waiter} (hw : w ∈ s.waiters)
    (hearly : w.early = true) :
    ∃ hd ∈ s.holders, ∃ result, hd.closure = some result ∧ gaveUp result :=
  ((reachable_order h).2.waiters w hw).early hearly

/-- The holder cannot yield, and the waiter finds it not releasing. -/
def earlyRun : List Action :=
  [.service .install, .service (.create 0 true), .service (.installer 0), .service (.installer 0),
    .service (.installer 0), .test, .testStep 0 .ok, .testStep 0 .ok, .testStep 0 .ok,
    .testStep 0 .ok, .testStep 0 .ok, .holder 0 .ok, .service (.client 0), .service (.acquires 0),
    .holder 0 .ok, .holder 0 .fails, .service (.unlock 0 true), .waiter 0 .ok, .waiter 0 .ok,
    .waiter 0 .ok, .service (.client 1), .service (.clock 1 5), .service (.client 1),
    .service (.acquires 1), .service (.backend 1 (.ok .unit)), .service (.unlock 1 true),
    .service (.clock 1 9), .service (.client 1), .service (.client 1), .compare 0 true, .waiter 0 .ok]

theorem early_only_if_gaveUp_early :
    ∃ s : State, ∃ hd ∈ s.holders, ∃ result, hd.closure = some result ∧ gaveUp result :=
  have hrun : Reachable (Contention.step fun _ => 1) init _ := ⟨earlyRun, Steps.of_run rfl⟩
  ⟨_, early_only_if_gaveUp hrun List.mem_cons_self rfl⟩

end HisiRiscv.Crypto.Contention
