/-
HisiRiscv.Wifi.BackendLifecycle — a WS63 backend from its first `initialize` to its end.

`initialize` may be called again and again. It takes the tokens of the hardware out of the
backend, one after the other and for good, so that all but the first call that gets so far fail; what
may be done once per boot (the crypto service, the vendor memory, the vendor runtime, the hostap
context) is done at most once (`once_per_boot`). The context is created, used and destroyed as
its C functions ask for: no failure leaves it or its storage behind, nothing is done to it after it is
destroyed, and its storage is freed once, last (`context_protocol`).

Translation notes. This is the backend for the target with `upstream-supplicant-port`. The answers of
the runtime, of the vendor's and of the C functions are arguments; `codeOf` is `CryptoError::code`. The
calls that a control call makes on the context are listed without their arguments and results, and
any number of them in any order is a control call.

History variables: `results` lists what `initialize` has returned, `trace` the calls out of the crate.

  §1 Errors.
  §2 Calls out of the crate.
  §3 The parts of `initialize`.
  §4 The machine.
  §5 What is once, and in which order.
  §6 The parts.
  §7 The invariant.
  §8 Main results.
-/
import HisiRiscv.Crypto.Service
import HisiRiscv.Lib.Machine
import HisiRiscv.Wifi.Backend

namespace HisiRiscv.Wifi.BackendLifecycle

open HisiRiscv.Machine
open HisiRiscv.Crypto.Service (CryptoError)
open HisiRiscv.Wifi.Backend (BackendError RuntimeError low12 notInitialized runtimeCode)

/-! ## §1 Errors -/

/-- The errors of `Wifi::initialize`. -/
inductive WifiError where
  | runtime (e : RuntimeError)
  | alreadyInitialized
  | timebase (code : UInt32)
  /-- `Initialize`. -/
  | init (code : UInt32)
  | createStation (code : Int32)
  | registerEvents (code : Int32)
  | openStation (code : Int32)
  | supplicantPort
  deriving DecidableEq

/-- `map_error`, for these errors. -/
def mapError : WifiError → BackendError
  | .runtime e => ⟨.other, 0x20000000 ||| runtimeCode e⟩
  | .alreadyInitialized => ⟨.init, 2⟩
  | .timebase code => ⟨.other, code⟩
  | .init code => ⟨.init, code⟩
  | .createStation code | .registerEvents code | .openStation code => ⟨.other, code.toUInt32⟩
  | .supplicantPort => ⟨.init, 3⟩

/-- The errors of `NativeSupplicant::create`. -/
inductive CreateError where
  | port
  | invalidContextLayout
  | allocationFailed
  | createFailed
  | initializeFailed (status : Int32)
  | enableEapolFailed (status : Int32)
  deriving DecidableEq

/-- `map_native_error`, for these errors. -/
def mapCreateError (e : CreateError) : BackendError :=
  ⟨.init, 0x57320000 |||
    match e with
    | .port => 1
    | .invalidContextLayout => 2
    | .allocationFailed => 3
    | .createFailed => 4
    | .initializeFailed status => 0x1000 ||| low12 status
    | .enableEapolFailed status => 0x2000 ||| low12 status⟩

/-- A token that is not there any more. -/
def missing (code : UInt32) : BackendError := ⟨.init, code⟩

/-! ## §2 Calls out of the crate -/

/-- What a control call does with the context. -/
inductive ContextCall where
  | configure
  | connect
  | disconnect
  | feed
  | poll
  | nextEvent
  | diagnostic
  deriving DecidableEq

inductive Call where
  | mutexCreate
  | mutexDestroy
  | prepareVendorMemory
  | wifiInit
  | createNetdev
  | registerEvents
  | openStation
  | setTxSink
  /-- `allocate_zeroed`, when it returns storage, and `osal_kfree`. -/
  | allocate
  | free
  /-- `hisi_wpa_create`, and whether it returns a context. -/
  | create (created : Bool)
  /-- `hisi_wpa_init` and `IOCTL_ENABLE_EAPOL`, with their status. -/
  | init (status : Int32)
  | enableEapol (status : Int32)
  | context (call : ContextCall)
  | disableEapol
  | destroy
  deriving DecidableEq

/-! ## §3 The parts of `initialize` -/

/-- The two static cells. -/
structure Cells where
  storage : Bool
  service : Bool
  deriving DecidableEq

/-- `install_hardware_crypto`. A cell can be filled once. -/
def installHardwareCrypto (mutexCreated : Bool) (cells : Cells) :
    Except CryptoError Unit × Cells × List Call :=
  if !mutexCreated then (.error (.backend 0xffff1002), cells, [])
  else if cells.storage then (.error .invalidValue, cells, [.mutexCreate, .mutexDestroy])
  else if cells.service then (.error .invalidValue, { cells with storage := true }, [.mutexCreate, .mutexDestroy])
  else (.ok (), ⟨true, true⟩, [.mutexCreate])

inductive SelfTest where
  | pbkdf2
  | hash
  | p256
  | hashFaultRecovery
  | cipherFaultRecovery
  | cryptoContention
  deriving DecidableEq

structure Features where
  upstreamSupplicantWpa3 : Bool
  rfEloopDiag : Bool
  rfCryptoContentionDiag : Bool
  net : Bool

def selfTests (features : Features) : List SelfTest :=
  [.pbkdf2, .hash] ++ (if features.upstreamSupplicantWpa3 then [.p256] else []) ++
    (if features.rfEloopDiag then [.hashFaultRecovery, .cipherFaultRecovery] else []) ++
    if features.rfCryptoContentionDiag then [.cryptoContention] else []

structure WifiAnswers where
  requireRuntime : Option RuntimeError
  timebase : UInt32
  wifiInit : UInt32
  createNetdev : Int32
  /-- The name has a length that fits, and ends there. -/
  nameFits : Bool
  registerEvents : Int32
  openStation : Int32
  /-- `prepare_upstream_supplicant_port` returns `Ok`. -/
  preparePort : Bool

/-- `Wifi::initialize`; `claimed` is `WIFI_CLAIMED`. -/
def wifiInitialize (features : Features) (a : WifiAnswers) (claimed : Bool) : Except WifiError Unit × Bool × List Call :=
  match a.requireRuntime with
  | some e => (.error (.runtime e), claimed, [])
  | none =>
    if claimed then (.error .alreadyInitialized, true, [])
    else if a.timebase ≠ 0 then (.error (.timebase a.timebase), true, [.prepareVendorMemory])
    else if a.wifiInit ≠ 0 then (.error (.init a.wifiInit), true, [.prepareVendorMemory, .wifiInit])
    else if a.createNetdev ≠ 0 then
      (.error (.createStation a.createNetdev), true, [.prepareVendorMemory, .wifiInit, .createNetdev])
    else if !a.nameFits then
      (.error (.createStation (-1)), true, [.prepareVendorMemory, .wifiInit, .createNetdev])
    else if a.registerEvents ≠ 0 then
      (.error (.registerEvents a.registerEvents), true,
        [.prepareVendorMemory, .wifiInit, .createNetdev, .registerEvents])
    else if a.openStation ≠ 0 then
      (.error (.openStation a.openStation), true,
        [.prepareVendorMemory, .wifiInit, .createNetdev, .registerEvents, .openStation])
    else if !a.preparePort then
      (.error .supplicantPort, true,
        [.prepareVendorMemory, .wifiInit, .createNetdev, .registerEvents, .openStation])
    else
      (.ok (), true,
        [.prepareVendorMemory, .wifiInit, .createNetdev, .registerEvents, .openStation] ++
          if features.net then [.setTxSink] else [])

structure CreateAnswers where
  preparePort : Bool
  size : ℕ
  alignment : ℕ
  allocated : Bool
  created : Bool
  initialized : Int32
  enabled : Int32

/-- `valid_context_layout`; `usize` has four bytes. -/
def validContextLayout (size alignment : ℕ) : Bool :=
  size ≠ 0 && 4 ≤ alignment && alignment.isPowerOfTwo

/-- `NativeSupplicant::create`. -/
def createSupplicant (a : CreateAnswers) : Except CreateError Unit × List Call :=
  if !a.preparePort then (.error .port, [])
  else if !validContextLayout a.size a.alignment then (.error .invalidContextLayout, [])
  else if !a.allocated then (.error .allocationFailed, [])
  else if !a.created then (.error .createFailed, [.allocate, .create false, .free])
  else if a.initialized ≠ 0 then
    (.error (.initializeFailed a.initialized), [.allocate, .create true, .init a.initialized, .destroy, .free])
  else if a.enabled ≠ 0 then
    (.error (.enableEapolFailed a.enabled),
      [.allocate, .create true, .init 0, .enableEapol a.enabled, .destroy, .free])
  else (.ok (), [.allocate, .create true, .init 0, .enableEapol 0])

/-- `NativeSupplicant::drop`. -/
def dropSupplicant : List Call := [.disableEapol, .destroy, .free]

/-! ## §4 The machine -/

structure State where
  efuse : Bool
  km : Bool
  spacc : Bool
  pke : Bool
  trng : Bool
  wifi : Bool
  supplicant : Bool
  claimed : Bool
  cells : Cells
  /-- The backend is gone. -/
  dropped : Bool
  results : List (Except BackendError Unit)
  trace : List Call
  deriving DecidableEq

/-- `Ws63WifiBackend::new`, in a firmware that may have used the statics before. -/
def new (claimed : Bool) (cells : Cells) : State where
  efuse := true
  km := true
  spacc := true
  pke := true
  trng := true
  wifi := false
  supplicant := false
  claimed
  cells
  dropped := false
  results := []
  trace := []

structure InitializeAnswers where
  mutexCreated : Bool
  /-- The code of the error of a self test that fails. -/
  selfTest : SelfTest → Option UInt32
  wifi : WifiAnswers
  create : CreateAnswers

inductive Action where
  | initializeBackend (a : InitializeAnswers)
  /-- `scan`, `connect`, `disconnect` or `poll`. -/
  | control (calls : List ContextCall)
  | drop

namespace State

def called (s : State) (calls : List Call) : State := { s with trace := s.trace ++ calls }

/-- The five `take`s. -/
def takeTokens (s : State) : Except BackendError Unit × State :=
  if !s.efuse then (.error (missing 0x10000001), s)
  else if !s.trng then (.error (missing 0x10000004), { s with efuse := false })
  else if !s.km then (.error (missing 0x10000005), { s with efuse := false, trng := false })
  else if !s.spacc then (.error (missing 0x10000006), { s with efuse := false, trng := false, km := false })
  else if !s.pke then
    (.error (missing 0x10000007), { s with efuse := false, trng := false, km := false, spacc := false })
  else (.ok (), { s with efuse := false, trng := false, km := false, spacc := false, pke := false })

/-- What `initialize` does with the tokens in its hands. -/
def initializeHardware (features : Features) (codeOf : CryptoError → UInt32) (a : InitializeAnswers) (s : State) :
    Except BackendError Unit × State :=
  match installHardwareCrypto a.mutexCreated s.cells with
  | (.error e, cells, calls) => (.error ⟨.init, codeOf e⟩, { s.called calls with cells })
  | (.ok _, cells, calls) =>
    let s := { s.called calls with cells }
    match (selfTests features).findSome? a.selfTest with
    | some code => (.error ⟨.init, code⟩, s)
    | none =>
      match wifiInitialize features a.wifi s.claimed with
      | (.error e, claimed, calls) => (.error (mapError e), { s.called calls with claimed })
      | (.ok _, claimed, calls) =>
        let s := { s.called calls with claimed }
        match createSupplicant a.create with
        | (.error e, calls) => (.error (mapCreateError e), s.called calls)
        | (.ok _, calls) => (.ok (), { s.called calls with supplicant := true, wifi := true })

/-- `initialize`. -/
def initializeBackend (features : Features) (codeOf : CryptoError → UInt32) (a : InitializeAnswers) (s : State) :
    Except BackendError Unit × State :=
  if s.wifi then (.ok (), s)
  else
    match s.takeTokens with
    | (.error e, s) => (.error e, s)
    | (.ok _, s) => s.initializeHardware features codeOf a

end State

def step (features : Features) (codeOf : CryptoError → UInt32) (s : State) (a : Action) : Option State :=
  if s.dropped then none
  else
    match a with
    | .initializeBackend a =>
        let (result, t) := s.initializeBackend features codeOf a
        some { t with results := s.results ++ [result] }
    | .control calls => some (if s.supplicant then s.called (calls.map .context) else s)
    | .drop =>
        some { (if s.supplicant then s.called dropSupplicant else s) with
          wifi := false, supplicant := false, dropped := true }

/-! ## §5 What is once, and in which order -/

/-- The calls that a boot may see once. -/
def Call.once : Call → Bool
  | .prepareVendorMemory | .wifiInit | .createNetdev | .registerEvents | .openStation | .mutexCreate => true
  | _ => false

/-- The calls that concern the context. -/
def Call.ofContext : Call → Bool
  | .allocate | .free | .create _ | .init _ | .enableEapol _ | .context _ | .disableEapol | .destroy => true
  | _ => false

/-- How far a context has got. -/
inductive Life where
  | absent
  /-- Its storage is there. -/
  | allocated
  | created
  | initialized
  /-- EAPOL frames may come, and it may be used. -/
  | enabled
  /-- It may only be destroyed. -/
  | ending
  /-- The storage is there, and no context in it. -/
  | empty
  | gone
  deriving DecidableEq

/-- What may be called next. -/
def Life.next (life : Life) (call : Call) : Option Life :=
  match life, call with
  | .absent, .allocate => some .allocated
  | .allocated, .create true => some .created
  | .allocated, .create false => some .empty
  | .created, .init status => some (if status = 0 then .initialized else .ending)
  | .initialized, .enableEapol status => some (if status = 0 then .enabled else .ending)
  | .enabled, .context _ => some .enabled
  | .enabled, .disableEapol => some .ending
  | .ending, .destroy => some .empty
  | .empty, .free => some .gone
  | life, call => if call.ofContext then none else some life

/-- Where a sequence of calls, all of them allowed, leads a context. -/
def Life.run (life : Life) (calls : List Call) : Option Life := calls.foldlM Life.next life

/-- The backend has the context, or nothing is left of it. -/
def Ends (supplicant : Bool) : Option Life → Prop
  | some .enabled => supplicant = true
  | some .absent | some .gone => supplicant = false
  | _ => False

/-! ## §6 The parts -/

theorem Life.run_append (life : Life) (calls calls' : List Call) :
    life.run (calls ++ calls') = (life.run calls).bind fun middle => middle.run calls' :=
  List.foldlM_append

theorem Life.run_cons {life life' : Life} {call : Call} {calls : List Call} (h : life.next call = some life') :
    life.run (call :: calls) = life'.run calls := by
  rw [Life.run, List.foldlM_cons, h]
  rfl

/-- Calls that are not about the context leave it where it is. -/
theorem Life.run_other {calls : List Call} (h : ∀ call ∈ calls, call.ofContext = false) (life : Life) :
    life.run calls = some life := by
  induction calls with
  | nil => rfl
  | cons call calls ih =>
    have hnext : life.next call = some life := by
      have hcall := h call List.mem_cons_self
      cases call <;> cases hcall <;> cases life <;> rfl
    rw [Life.run_cons hnext]
    exact ih fun c hc => h c (List.mem_cons_of_mem _ hc)

/-- An enabled context may be used as often as one likes. -/
theorem Life.run_context (calls : List ContextCall) : Life.enabled.run (calls.map .context) = some .enabled := by
  induction calls with
  | nil => rfl
  | cons call calls ih => exact ih

section Parts

variable {features : Features}

/-- The calls of the three parts, when nothing fails. -/
def cryptoCalls : List Call := [.mutexCreate, .mutexDestroy]

def wifiCalls : List Call :=
  [.prepareVendorMemory, .wifiInit, .createNetdev, .registerEvents, .openStation, .setTxSink]

theorem installHardwareCrypto_prefix (created : Bool) (cells : Cells) :
    (installHardwareCrypto created cells).2.2.IsPrefix cryptoCalls := by
  unfold installHardwareCrypto
  split_ifs
  all_goals exact ⟨_, rfl⟩

/-- `Wifi::initialize` goes as far as it gets, and nowhere without the claim. -/
theorem wifiInitialize_prefix (features : Features) (a : WifiAnswers) (claimed : Bool) :
    (wifiInitialize features a claimed).2.2.IsPrefix wifiCalls ∧
      (claimed = true → (wifiInitialize features a claimed).2 = (true, []) ∧
        (wifiInitialize features a claimed).1 ≠ .ok ()) := by
  unfold wifiInitialize
  cases a.requireRuntime with
  | some e => exact ⟨⟨_, rfl⟩, fun h => ⟨congrArg (·, []) h, nofun⟩⟩
  | none =>
    cases claimed with
    | true => exact ⟨⟨_, rfl⟩, fun _ => ⟨rfl, nofun⟩⟩
    | false =>
      refine ⟨?_, fun h => nomatch h⟩
      simp only [Bool.false_eq_true, if_false]
      cases features.net
      all_goals split_ifs
      all_goals exact ⟨_, rfl⟩

/-- A failed `create` has given back what it took; a successful one leaves the context enabled. -/
theorem createSupplicant_run (a : CreateAnswers) :
    Ends (createSupplicant a).1.isOk (Life.absent.run (createSupplicant a).2) := by
  unfold createSupplicant
  split_ifs with hport hlayout hallocated hcreated hinitialized henabled
  · rfl
  · rfl
  · rfl
  · rfl
  · have hending : Life.next .created (.init a.initialized) = some .ending := congrArg some (if_neg hinitialized)
    rw [Life.run_cons rfl, Life.run_cons rfl, Life.run_cons hending]
    rfl
  · have hending : Life.next .initialized (.enableEapol a.enabled) = some .ending := congrArg some (if_neg henabled)
    have hinitialized' : Life.next .created (.init 0) = some .initialized := rfl
    rw [Life.run_cons rfl, Life.run_cons rfl, Life.run_cons hinitialized', Life.run_cons hending]
    rfl
  · rfl

theorem createSupplicant_once (a : CreateAnswers) : (createSupplicant a).2.filter Call.once = [] := by
  unfold createSupplicant
  split_ifs
  all_goals rfl

/-- The calls out of the crate on the way to the context. -/
theorem Life.run_setUp {calls : List Call} (h : calls.IsPrefix cryptoCalls ∨ calls.IsPrefix wifiCalls) (life : Life) :
    life.run calls = some life := by
  refine Life.run_other (fun call hcall => ?_) life
  have hall : ∀ call ∈ cryptoCalls ++ wifiCalls, call.ofContext = false := by decide
  rcases h with h | h
  · exact hall call (List.mem_append_left _ (h.subset hcall))
  · exact hall call (List.mem_append_right _ (h.subset hcall))

end Parts

/-! ## §7 The invariant -/

/-- The calls that come once at most. -/
def onceCalls : List Call := (cryptoCalls ++ wifiCalls).filter Call.once

/-- What a later call of `initialize` returns. -/
def laterResult : Except BackendError Unit → Except BackendError Unit
  | .ok _ => .ok ()
  | .error _ => .error (missing 0x10000001)

/-- The calls so far; `claimed` says whether the firmware had claimed the Wi-Fi before. -/
structure Calls (claimed : Bool) (s : State) : Prop where
  once : (s.trace.filter Call.once).Sublist onceCalls
  unclaimed : claimed = true → s.claimed = true ∧ ∀ call ∈ wifiCalls, call ∉ s.trace
  life : Ends s.supplicant (Life.absent.run s.trace)

structure Inv (claimed : Bool) (s : State) : Prop where
  fresh : s.efuse = true → (s.trng = true ∧ s.km = true ∧ s.spacc = true ∧ s.pke = true) ∧
    s.wifi = false ∧ s.results = [] ∧ s.trace = []
  started : s.efuse = false → s.results ≠ []
  results : ∀ first later, s.results = first :: later →
    s.efuse = false ∧ (s.dropped = false → s.wifi = first.isOk) ∧ ∀ result ∈ later, result = laterResult first
  ready : s.wifi = s.supplicant
  calls : Calls claimed s

section Inv

variable {features : Features} {codeOf : CryptoError → UInt32} {claimed : Bool} {s t : State}

theorem inv_new (claimed : Bool) (cells : Cells) : Inv claimed (new claimed cells) where
  fresh _ := ⟨⟨rfl, rfl, rfl, rfl⟩, rfl, rfl, rfl⟩
  started h := nomatch h
  results _ _ h := nomatch h
  ready := rfl
  calls := ⟨List.nil_sublist _, fun h => ⟨h, fun _ _ => List.not_mem_nil⟩, rfl⟩

/-- The calls of the parts one after another. -/
theorem Calls.of_parts {crypto wifi create : List Call} (hcrypto : crypto.IsPrefix cryptoCalls)
    (hwifi : wifi.IsPrefix wifiCalls) (hcreate : create.filter Call.once = [])
    (htrace : t.trace = crypto ++ wifi ++ create)
    (hclaimed : claimed = true → t.claimed = true ∧ wifi = [] ∧ create = [])
    (hlife : Ends t.supplicant (Life.absent.run create)) : Calls claimed t where
  once := by
    rw [htrace, List.filter_append, hcreate, List.append_nil]
    exact (hcrypto.sublist.append hwifi.sublist).filter _
  unclaimed h := by
    obtain ⟨hmark, rfl, rfl⟩ := hclaimed h
    refine ⟨hmark, fun call hcall hmem => ?_⟩
    have hapart : ∀ call ∈ cryptoCalls, call ∉ wifiCalls := by decide
    rw [htrace, List.append_nil, List.append_nil] at hmem
    exact hapart call (hcrypto.subset hmem) hcall
  life := by
    rwa [htrace, Life.run_append, Life.run_append, Life.run_setUp (.inl hcrypto), Option.bind_some,
      Life.run_setUp (.inr hwifi), Option.bind_some]

/-- The first `initialize`, behind the `take`s. -/
theorem initializeHardware_calls (a : InitializeAnswers) (htrace : s.trace = []) (hwifi : s.wifi = false)
    (hsupplicant : s.supplicant = false) (hclaimed : claimed = true → s.claimed = true)
    {result : Except BackendError Unit} (h : s.initializeHardware features codeOf a = (result, t)) :
    Calls claimed t ∧ t.wifi = result.isOk ∧ t.supplicant = result.isOk ∧ t.efuse = s.efuse ∧
      t.results = s.results ∧ t.dropped = s.dropped := by
  have hcrypto := installHardwareCrypto_prefix a.mutexCreated s.cells
  obtain ⟨hwifiCalls, hkept⟩ := wifiInitialize_prefix features a.wifi s.claimed
  have hcreate := createSupplicant_run a.create
  have honce := createSupplicant_once a.create
  unfold State.initializeHardware at h
  generalize installHardwareCrypto a.mutexCreated s.cells = installed at h hcrypto
  obtain ⟨installed, cells, crypto⟩ := installed
  have hearly : ∀ u : State, u.trace = crypto → u.claimed = s.claimed → u.supplicant = false → Calls claimed u := by
    intro u hu hmark hno
    exact .of_parts hcrypto List.nil_prefix rfl (hu.trans (by simp)) (fun hc => ⟨hmark ▸ hclaimed hc, rfl, rfl⟩) hno
  cases installed with
  | error e =>
    cases h
    exact ⟨hearly _ (by rw [State.called, htrace]; rfl) rfl hsupplicant, hwifi, hsupplicant, rfl, rfl, rfl⟩
  | ok =>
    simp only [State.called, htrace, List.nil_append] at h
    cases htests : (selfTests features).findSome? a.selfTest with
    | some code =>
      rw [htests] at h
      cases h
      exact ⟨hearly _ rfl rfl hsupplicant, hwifi, hsupplicant, rfl, rfl, rfl⟩
    | none =>
      rw [htests] at h
      simp only at h
      generalize wifiInitialize features a.wifi s.claimed = initialized at h hwifiCalls hkept
      obtain ⟨initialized, mark, wifi⟩ := initialized
      cases initialized with
      | error e =>
        cases h
        refine ⟨.of_parts hcrypto hwifiCalls rfl (List.append_nil _).symm (fun hc => ?_) hsupplicant, hwifi,
          hsupplicant, rfl, rfl, rfl⟩
        obtain ⟨rfl, rfl⟩ := Prod.mk.inj (hkept (hclaimed hc)).1
        exact ⟨rfl, rfl, rfl⟩
      | ok =>
        simp only at h
        generalize createSupplicant a.create = created at h hcreate honce
        obtain ⟨created, create⟩ := created
        have hfree : claimed ≠ true := fun hc => (hkept (hclaimed hc)).2 rfl
        cases created with
        | ok =>
          cases h
          exact ⟨.of_parts hcrypto hwifiCalls honce rfl (fun hc => absurd hc hfree) hcreate, rfl, rfl, rfl, rfl, rfl⟩
        | error e =>
          cases h
          exact ⟨.of_parts hcrypto hwifiCalls honce rfl (fun hc => absurd hc hfree) (hsupplicant ▸ hcreate), hwifi,
            hsupplicant, rfl, rfl, rfl⟩

/-- Later calls of `initialize` change nothing. -/
theorem initializeBackend_later (features : Features) (codeOf : CryptoError → UInt32) (h : Inv claimed s)
    (hefuse : s.efuse = false) (hdropped : s.dropped = false) (a : InitializeAnswers) :
    ∃ first later, s.results = first :: later ∧
      s.initializeBackend features codeOf a = (laterResult first, s) := by
  obtain ⟨first, later, hresults⟩ := List.exists_cons_of_ne_nil (h.started hefuse)
  refine ⟨first, later, hresults, ?_⟩
  have hwifi := (h.results first later hresults).2.1 hdropped
  unfold State.initializeBackend
  cases first with
  | ok => exact if_pos hwifi
  | error e =>
    rw [if_neg (by rw [hwifi]; exact Bool.false_ne_true), State.takeTokens, hefuse]
    rfl

/-- The first call of `initialize`. -/
theorem Inv.first (h : Inv claimed s) (hefuse : s.efuse = true) (a : InitializeAnswers)
    {result : Except BackendError Unit} (hs : s.initializeBackend features codeOf a = (result, t)) :
    Inv claimed { t with results := s.results ++ [result] } := by
  obtain ⟨⟨htrng, hkm, hspacc, hpke⟩, hwifi, hresults, htrace⟩ := h.fresh hefuse
  rw [State.initializeBackend, if_neg (by rw [hwifi]; exact Bool.false_ne_true), State.takeTokens] at hs
  simp only [hefuse, htrng, hkm, hspacc, hpke, Bool.not_true, Bool.false_eq_true, if_false] at hs
  obtain ⟨hcalls, hready, hsupplicant, hgone, -, -⟩ :=
    initializeHardware_calls (s := { s with efuse := false, km := false, spacc := false, pke := false, trng := false })
      a htrace hwifi (h.ready.symm.trans hwifi) (fun hc : claimed = true => (h.calls.unclaimed hc).1) hs
  refine ⟨fun hc => absurd (hgone.symm.trans hc) Bool.false_ne_true, fun _ => by simp, fun first later heq => ?_,
    hready.trans hsupplicant.symm, ⟨hcalls.once, hcalls.unclaimed, hcalls.life⟩⟩
  simp only [hresults, List.nil_append, List.cons.injEq] at heq
  obtain ⟨rfl, rfl⟩ := heq
  exact ⟨hgone, fun _ => hready, fun _ hlater => nomatch hlater⟩

/-- Calls that are about the context, from an enabled one on. -/
theorem Calls.append (h : Calls claimed s) (hsupplicant : s.supplicant = true) {calls : List Call}
    (hother : ∀ call ∈ calls, call.once = false ∧ call ∉ wifiCalls) (htrace : t.trace = s.trace ++ calls)
    (hmark : t.claimed = s.claimed) (hlife : Ends t.supplicant (Life.enabled.run calls)) : Calls claimed t := by
  have honce : calls.filter Call.once = [] := by
    refine List.filter_eq_nil_iff.mpr fun call hcall => ?_
    rw [(hother call hcall).1]
    exact Bool.false_ne_true
  have hbefore : Life.absent.run s.trace = some .enabled := by
    have hends := h.life
    rw [hsupplicant] at hends
    generalize Life.absent.run s.trace = life at hends
    match life, hends with
    | some .enabled, _ => rfl
  refine ⟨?_, fun hc => ⟨hmark.trans (h.unclaimed hc).1, fun call hcall hmem => ?_⟩, ?_⟩
  · rw [htrace, List.filter_append, honce, List.append_nil]
    exact h.once
  · rw [htrace] at hmem
    rcases List.mem_append.mp hmem with hmem | hmem
    · exact (h.unclaimed hc).2 call hcall hmem
    · exact (hother call hmem).2 hcall
  · rwa [htrace, Life.run_append, hbefore]

/-- A backend with a context is not as new. -/
theorem Inv.used (h : Inv claimed s) (hsupplicant : s.supplicant = true) : s.efuse ≠ true := by
  intro hefuse
  have hwifi := (h.fresh hefuse).2.1
  rw [h.ready, hsupplicant] at hwifi
  cases hwifi

theorem inv_step (h : Inv claimed s) {a : Action} (hs : step features codeOf s a = some t) : Inv claimed t := by
  obtain ⟨hdropped, hs⟩ := Option.ite_none_left_eq_some.mp hs
  rw [Bool.not_eq_true] at hdropped
  cases a with
  | initializeBackend a =>
    by_cases hefuse : s.efuse = true
    · simp only at hs
      cases hs
      exact h.first hefuse a rfl
    · rw [Bool.not_eq_true] at hefuse
      obtain ⟨first, later, hresults, heq⟩ :=
        initializeBackend_later features codeOf h hefuse hdropped a
      simp only [heq] at hs
      cases hs
      obtain ⟨-, hwifi, hlater⟩ := h.results first later hresults
      refine ⟨fun hc => absurd (hefuse.symm.trans hc) Bool.false_ne_true, fun _ => by simp, fun first' later' hcons => ?_,
        h.ready, ⟨h.calls.once, h.calls.unclaimed, h.calls.life⟩⟩
      simp only [hresults, List.cons_append, List.cons.injEq] at hcons
      obtain ⟨rfl, rfl⟩ := hcons
      refine ⟨hefuse, hwifi, fun result hresult => ?_⟩
      rcases List.mem_append.mp hresult with hresult | hresult
      · exact hlater result hresult
      · exact List.mem_singleton.mp hresult
  | control calls =>
    cases hs
    by_cases hsupplicant : s.supplicant = true
    · rw [if_pos hsupplicant]
      refine ⟨fun hc => absurd hc (h.used hsupplicant), h.started, h.results, h.ready, ?_⟩
      refine h.calls.append hsupplicant (fun call hcall => ?_) rfl rfl ?_
      · obtain ⟨c, -, rfl⟩ := List.mem_map.mp hcall
        exact ⟨rfl, by simp [wifiCalls]⟩
      · rw [Life.run_context]
        exact hsupplicant
    · rw [if_neg hsupplicant]
      exact h
  | drop =>
    cases hs
    by_cases hsupplicant : s.supplicant = true
    · simp only [if_pos hsupplicant]
      refine ⟨fun hc => absurd hc (h.used hsupplicant), h.started, fun first later hcons => ?_, rfl, ?_⟩
      · obtain ⟨hefuse, -, hlater⟩ := h.results first later hcons
        exact ⟨hefuse, fun hkept => (nomatch hkept), hlater⟩
      · exact h.calls.append hsupplicant (by decide) rfl rfl rfl
    · simp only [if_neg hsupplicant]
      rw [Bool.not_eq_true] at hsupplicant
      refine ⟨fun hc => ?_, h.started, fun first later hcons => ?_, rfl, ⟨h.calls.once, h.calls.unclaimed, ?_⟩⟩
      · obtain ⟨htokens, -, hrest⟩ := h.fresh hc
        exact ⟨htokens, rfl, hrest⟩
      · obtain ⟨hefuse, -, hlater⟩ := h.results first later hcons
        exact ⟨hefuse, fun hkept => (nomatch hkept), hlater⟩
      · exact hsupplicant ▸ h.calls.life

end Inv

/-! ## §8 Main results -/

section Results

variable (features : Features) (codeOf : CryptoError → UInt32) {claimed : Bool} {cells : Cells} {as : List Action}
  {s : State}

/-- The first call of `initialize` decides what the later ones return and whether the backend has its Wi-Fi and its
supplicant; the later ones do nothing but return. What a boot may see once is seen once, or not at all when the Wi-Fi
has been claimed elsewhere. -/
theorem once_per_boot (h : Steps (step features codeOf) Always (new claimed cells) as s) :
    (∀ first later, s.results = first :: later → (∀ result ∈ later, result = laterResult first) ∧
      (s.dropped = false → s.wifi = first.isOk ∧ s.supplicant = first.isOk ∧
        ∀ a, step features codeOf s (.initializeBackend a) =
          some { s with results := s.results ++ [laterResult first] })) ∧
      (∀ call, call.once = true → s.trace.count call ≤ 1) ∧
      (claimed = true → ∀ call ∈ wifiCalls, call ∉ s.trace) := by
  have hinv : Inv claimed s := h.invariant (inv_new claimed cells) fun _ _ _ hI _ hs => inv_step hI hs
  refine ⟨fun first later hcons => ?_, fun call hcall => ?_, fun hc => (hinv.calls.unclaimed hc).2⟩
  · obtain ⟨hefuse, hwifi, hlater⟩ := hinv.results first later hcons
    refine ⟨hlater, fun hkept => ⟨hwifi hkept, hinv.ready ▸ hwifi hkept, fun a => ?_⟩⟩
    obtain ⟨first', later', hcons', hcall⟩ := initializeBackend_later features codeOf hinv hefuse hkept a
    rw [hcons, List.cons.injEq] at hcons'
    obtain ⟨rfl, rfl⟩ := hcons'
    rw [step, if_neg (by rw [hkept]; exact Bool.false_ne_true)]
    simp only [hcall]
  · rw [← List.count_filter hcall]
    exact (hinv.calls.once.count_le call).trans (List.nodup_iff_count_le_one.mp (by decide) call)

/-- The calls on the context are in the order that its functions ask for, and a backend without a context has left
nothing of one. -/
theorem context_protocol (h : Steps (step features codeOf) Always (new claimed cells) as s) :
    ∃ life, Life.absent.run s.trace = some life ∧
      (s.supplicant = true → life = .enabled) ∧ (s.supplicant = false → life = .absent ∨ life = .gone) := by
  have hinv : Inv claimed s := h.invariant (inv_new claimed cells) fun _ _ _ hI _ hs => inv_step hI hs
  have hends := hinv.calls.life
  generalize Life.absent.run s.trace = life at hends ⊢
  match life, hends with
  | some .enabled, hkept => exact ⟨_, rfl, fun _ => rfl, fun hno => absurd (hkept.symm.trans hno) (by decide)⟩
  | some .absent, hno => exact ⟨_, rfl, fun hkept => absurd (hno.symm.trans hkept) (by decide), fun _ => .inl rfl⟩
  | some .gone, hno => exact ⟨_, rfl, fun hkept => absurd (hno.symm.trans hkept) (by decide), fun _ => .inr rfl⟩

end Results

/-! ### Two backends -/

def allFeatures : Features := ⟨true, true, true, true⟩

def accepted : InitializeAnswers where
  mutexCreated := true
  selfTest _ := none
  wifi := ⟨none, 0, 0, 0, true, 0, 0, true⟩
  create := ⟨true, 4096, 8, true, true, 0, 0⟩

/-- The driver does not take the EAPOL callback. -/
def refused : InitializeAnswers := { accepted with create := { accepted.create with enabled := 5 } }

def retried : List Action := [.initializeBackend refused, .initializeBackend accepted, .control [.poll]]

def served : List Action :=
  [.control [.poll], .initializeBackend accepted, .control [.configure, .connect, .poll, .nextEvent],
    .initializeBackend refused, .control [.poll], .drop]

theorem run_retried :
    (run (step allFeatures fun _ => 1) (new false ⟨false, false⟩) retried).map (fun s => (s.results, s.supplicant)) =
      some ([.error ⟨.init, 0x57322005⟩, .error (missing 0x10000001)], false) := by
  decide +kernel

theorem run_served :
    (run (step allFeatures fun _ => 1) (new false ⟨false, false⟩) served).map (fun s => (s.results, s.supplicant)) =
      some ([.ok (), .ok ()], false) := by
  decide +kernel

theorem once_per_boot_retried :
    ∃ s, run (step allFeatures fun _ => 1) (new false ⟨false, false⟩) retried = some s ∧
      s.results = [.error ⟨.init, 0x57322005⟩, .error (missing 0x10000001)] ∧
      (∀ a, step allFeatures (fun _ => 1) s (.initializeBackend a) =
        some { s with results := s.results ++ [.error (missing 0x10000001)] }) ∧
      (∀ call, call.once = true → s.trace.count call ≤ 1) := by
  have hkept : (run (step allFeatures fun _ => 1) (new false ⟨false, false⟩) retried).map State.dropped =
      some false := by decide +kernel
  obtain ⟨s, hrun, hs⟩ := Option.map_eq_some_iff.mp run_retried
  have hresults : s.results = [.error ⟨.init, 0x57322005⟩, .error (missing 0x10000001)] := congrArg Prod.fst hs
  rw [hrun, Option.map_some, Option.some_inj] at hkept
  obtain ⟨hfirst, honce, -⟩ := once_per_boot allFeatures (fun _ => 1) (Steps.of_run hrun)
  exact ⟨s, hrun, hresults, ((hfirst _ _ hresults).2 hkept).2.2, honce⟩

theorem context_protocol_served :
    ∃ s, run (step allFeatures fun _ => 1) (new false ⟨false, false⟩) served = some s ∧
      ∃ life, Life.absent.run s.trace = some life ∧ (life = .absent ∨ life = .gone) := by
  obtain ⟨s, hrun, hs⟩ := Option.map_eq_some_iff.mp run_served
  obtain ⟨life, hlife, -, hover⟩ := context_protocol allFeatures (fun _ => 1) (Steps.of_run hrun)
  exact ⟨s, hrun, life, hlife, hover (congrArg Prod.snd hs)⟩

end HisiRiscv.Wifi.BackendLifecycle
