/-
HisiRiscv.Netif.ReferencesDelivery — `transmit` and the driver.

Between its allocation and `drv_send` a buffer is known to its call alone, so that the driver finds the
frame in it whatever else runs. A call that returns `Ok` has called `drv_send` once, with its
frame: the `drv_send` that it has read from the interface that it has found registered. A call that
fails has not called it.

  §1 What a step of a call leaves alone.
  §2 Buffers of one call.
  §3 The invariant.
  §4 Steps.
  §5 Main result.
-/
import HisiRiscv.Netif.ReferencesTheorems

namespace HisiRiscv.Netif.References

open HisiRiscv.Machine HisiRiscv.Ledger

/-! ## §1 What a step of a call leaves alone -/

section Frames

variable {s u : State} {i : ℕ} {t : Task} {p q : ℤ} {area : List UInt8}

theorem access_frame (f : Buffer → Buffer) : (s.access p f).tasks = s.tasks ∧
    (s.access p f).driver = s.driver ∧ (s.access p f).sent = s.sent ∧
    ∀ q, q ≠ p → (s.access p f).buffers q = s.buffers q := by
  unfold State.access
  split
  · exact ⟨rfl, rfl, rfl, fun _ _ => rfl⟩
  · exact ⟨rfl, rfl, rfl, fun q hq => Function.update_of_ne hq _ _⟩

/-- What a call has handed to the driver. -/
def State.sentBy (s : State) (i : ℕ) : List Sent := s.sent.filter (·.task = i)

/-- A call changes no buffer but its own, gets no other, and sends in its own name. -/
structure Advanced (s u : State) (i : ℕ) (t : Task) (pc : Pc) : Prop where
  tasks : u.tasks = s.tasks.set i { t with pc }
  driver : u.driver = s.driver
  holds : ∀ q, pc.holds q = true → t.pc.holds q = true
  buffers : ∀ q, t.pc.holds q = false → t.pc.frees q = false → u.buffers q = s.buffers q
  sent : u.sent = s.sent ∨ ∃ e : Sent, e.task = i ∧ u.sent = e :: s.sent

theorem failed_advanced (sink : Bool) (error : TxError) :
    Advanced s (s.goto i t (State.failed sink error)) i t (State.failed sink error) :=
  ⟨rfl, rfl, fun q hq => absurd ((holds_failed sink error q).symm.trans hq) Bool.false_ne_true,
    fun _ _ _ => rfl, Or.inl rfl⟩

theorem ne_of_beq (h : (p == q) = false) : q ≠ p := fun heq => beq_eq_false_iff_ne.mp h heq.symm

theorem advance_frame (hs : s.advance i t = some u) : ∃ pc, Advanced s u i t pc := by
  obtain ⟨call, pc⟩ := t
  unfold State.advance at hs
  dsimp only at hs
  split at hs
  next frame sink =>
    split_ifs at hs <;> cases hs
    · exact ⟨_, failed_advanced _ _⟩
    · exact ⟨_, failed_advanced _ _⟩
    · exact ⟨_, rfl, rfl, nofun, fun _ _ _ => rfl, Or.inl rfl⟩
  next sink netif =>
    split_ifs at hs <;> cases hs
    · exact ⟨_, failed_advanced _ _⟩
    · exact ⟨_, rfl, rfl, nofun, fun _ _ _ => rfl, Or.inl rfl⟩
  next frame sink netif send p =>
    cases hs
    obtain ⟨htasks, hdriver, hsent, hbuffers⟩ :=
      access_frame (s := s) (p := p) fun b => b.overwrite p b.pbuf.payload frame
    exact ⟨.call netif send p, congrArg (List.set · i _) htasks, hdriver, fun _ => id,
      fun q hq _ => hbuffers q (ne_of_beq hq), Or.inl hsent⟩
  next netif send p =>
    split at hs <;> cases hs
    · exact ⟨_, rfl, rfl, fun _ => id, fun _ _ _ => rfl, Or.inl rfl⟩
    · exact ⟨_, rfl, rfl, fun _ => id, fun _ _ _ => rfl, Or.inr ⟨_, rfl, rfl⟩⟩
  next p =>
    cases hs
    exact ⟨_, rfl, rfl, fun _ => id, fun _ _ _ => rfl, Or.inl rfl⟩
  next error =>
    cases hs
    exact ⟨_, rfl, rfl, nofun, fun _ _ _ => rfl, Or.inl rfl⟩
  next p =>
    split at hs
    · cases hs
      exact ⟨_, rfl, rfl, fun _ => id, fun _ _ _ => rfl, Or.inl rfl⟩
    · split_ifs at hs <;> cases hs
      · exact ⟨_, rfl, rfl, fun _ => id, fun _ _ _ => rfl, Or.inl rfl⟩
      · exact ⟨_, rfl, rfl, fun _ => id, fun _ _ _ => rfl, Or.inl rfl⟩
  next p payload len =>
    split at hs <;> cases hs
    · exact ⟨_, rfl, rfl, fun _ => id, fun _ _ _ => rfl, Or.inl rfl⟩
    · exact ⟨_, rfl, rfl, fun _ => id, fun _ _ _ => rfl, Or.inl rfl⟩
  next p =>
    cases hs
    exact ⟨_, rfl, rfl, fun _ => id, fun _ _ _ => rfl, Or.inl rfl⟩
  next p =>
    cases hs
    exact ⟨_, rfl, rfl, fun _ => id, fun _ _ _ => rfl, Or.inl rfl⟩
  next p =>
    split at hs
    · cases hs
      exact ⟨_, rfl, rfl, nofun, fun _ _ _ => rfl, Or.inl rfl⟩
    · split_ifs at hs <;> cases hs
      · exact ⟨_, rfl, rfl, nofun,
          fun q hq _ => Function.update_of_ne (ne_of_beq hq) _ _, Or.inl rfl⟩
      · exact ⟨_, rfl, rfl, nofun,
          fun q hq _ => Function.update_of_ne (ne_of_beq hq) _ _, Or.inl rfl⟩
  next p =>
    split at hs <;> cases hs
    · exact ⟨_, rfl, rfl, nofun, fun _ _ _ => rfl, Or.inl rfl⟩
    · exact ⟨_, rfl, rfl, nofun, fun q _ hq => Function.update_of_ne (ne_of_beq hq) _ _, Or.inl rfl⟩
  next => cases hs

theorem allocated_cases (hs : s.allocated i t p area = some u) :
    ∃ frame sink netif send, t = ⟨.transmit frame sink, .alloc netif send⟩ ∧
      (u = s.goto i t (State.failed sink .noMemory) ∨ p ≠ 0 ∧ ∃ pbuf,
        Netif.pbufAlloc (fun _ => p) (UInt16.ofNat frame.length) = some (p, pbuf) ∧
          u = (s.put p (some ⟨pbuf, area⟩)).goto i t (.copy netif send p)) := by
  obtain ⟨call, pc⟩ := t
  unfold State.allocated at hs
  dsimp only at hs
  split at hs
  next frame sink netif send =>
    refine ⟨frame, sink, netif, send, rfl, ?_⟩
    obtain hnone | ⟨hne, pbuf, hpbuf, -, hsome⟩ := pbufAlloc_cases (s := s) (UInt16.ofNat frame.length) p area
    · rw [hnone] at hs
      cases hs
      exact Or.inl rfl
    · rw [hsome] at hs
      cases hs
      exact Or.inr ⟨hne, pbuf, hpbuf, rfl⟩
  next => cases hs

/-- The call that an action is a step of. -/
def Action.target : Action → Option ℕ
  | .run i | .kmalloc i _ _ => some i
  | .transmit _ _ | .alloc _ _ _ | .ref _ | .free _ | .input _ | .header _ _ | .place _ _ _ _ | .store _ _ _
  | .netifAdd _ | .netifRemove _ | .install _ _ => none

/-- The call whose step it is goes on, or a call is made, or none is concerned. -/
inductive Tasks (s u : State) (a : Action) : Prop
  | target (i : ℕ) (t : Task) (pc : Pc) : a.target = some i → s.tasks[i]? = some t →
      u.tasks = s.tasks.set i { t with pc } →
      (u.sent = s.sent ∨ ∃ e : Sent, e.task = i ∧ u.sent = e :: s.sent) → Tasks s u a
  | spawned (call : Call) (pc : Pc) : a.target = none → u.tasks = s.tasks ++ [⟨call, pc⟩] →
      (∀ frame sink, call = .transmit frame sink → pc = .load) → u.sent = s.sent → Tasks s u a
  | none : a.target = none → u.tasks = s.tasks → u.sent = s.sent → Tasks s u a

theorem tasks_write {a : Action} (ha : a.target = none) {f : Buffer → Buffer} (hs : s.write p f = some u) :
    Tasks s u a := by
  obtain ⟨-, rfl⟩ := Option.ite_none_right_eq_some.mp hs |>.imp_right Option.some.inj
  obtain ⟨htasks, -, hsent, -⟩ := access_frame (s := s) (p := p) f
  exact .none ha htasks hsent

theorem step_tasks {a : Action} (hs : step s a = some u) : Tasks s u a := by
  cases a with
  | transmit frame sink =>
    cases hs
    exact .spawned (.transmit frame sink) .load rfl rfl (fun _ _ _ => rfl) rfl
  | run i =>
    obtain ⟨t, ht, hs⟩ := Option.bind_eq_some_iff.mp hs
    obtain ⟨pc, hadvanced⟩ := advance_frame hs
    exact .target i t pc rfl ht hadvanced.tasks hadvanced.sent
  | kmalloc i address area =>
    unfold step at hs
    dsimp only at hs
    split at hs
    next frame sink pc ht =>
      obtain ⟨-, hs⟩ := Option.ite_none_right_eq_some.mp hs
      obtain ⟨frame', sink', netif, send, -, rfl | ⟨-, pbuf, -, rfl⟩⟩ := allocated_cases hs
      · exact .target i _ _ rfl ht rfl (Or.inl rfl)
      · exact .target i _ _ rfl ht rfl (Or.inl rfl)
    next => cases hs
  | alloc length address area =>
    obtain ⟨-, hs⟩ := Option.ite_none_right_eq_some.mp hs
    obtain hnone | ⟨-, pbuf, -, -, hsome⟩ := pbufAlloc_cases (s := s) length address area
    · rw [hnone] at hs
      cases hs
      exact .none rfl rfl rfl
    · rw [hsome] at hs
      cases hs
      exact .none rfl rfl rfl
  | ref p =>
    unfold step at hs
    dsimp only at hs
    split_ifs at hs with hnull haccess <;> cases hs
    · exact .none rfl rfl rfl
    · rw [State.pbufRef, if_neg hnull]
      obtain ⟨htasks, -, hsent, -⟩ := access_frame (s := s) (p := p) fun b =>
        { b with pbuf := { b.pbuf with refCount := b.pbuf.refCount + 1 } }
      exact .none rfl htasks hsent
  | free p =>
    unfold step at hs
    dsimp only at hs
    split_ifs at hs <;> cases hs
    · exact .spawned (.pbufFree p) (.done (.freed 0)) rfl rfl (fun _ _ h => by cases h) rfl
    · exact .spawned (.pbufFree p) (.free p) rfl rfl (fun _ _ h => by cases h) rfl
  | input p =>
    unfold step at hs
    dsimp only at hs
    split_ifs at hs <;> cases hs
    · exact .spawned (.driverifInput p) (.done .accepted) rfl rfl (fun _ _ h => by cases h) rfl
    · exact .spawned (.driverifInput p) (.read p) rfl rfl (fun _ _ h => by cases h) rfl
  | header p headerSize => exact tasks_write rfl hs
  | place p payload len totLen =>
    obtain ⟨-, hs⟩ := Option.ite_none_right_eq_some.mp hs
    exact tasks_write rfl hs
  | store p offset byte => exact tasks_write rfl hs
  | netifAdd netif =>
    cases hs
    exact .none rfl rfl rfl
  | netifRemove netif =>
    cases hs
    split_ifs
    · exact .none rfl rfl rfl
    · exact .none rfl rfl rfl
  | install netif send =>
    cases hs
    exact .none rfl rfl rfl

end Frames

/-! ## §2 Buffers of one call -/

section Alone

variable {s u : State} {i : ℕ} {t : Task} {p q : ℤ}

/-- Only call `i` has a reference to the buffer. -/
structure Alone (s : State) (i : ℕ) (p : ℤ) : Prop where
  driver : s.driver p = 0
  others : ∀ j t, s.tasks[j]? = some t → j ≠ i → t.pc.holds p = false

theorem Alone.no_access (h : Alone s i p) (ht : s.tasks[i]? = some t) (hpc : t.pc ≠ .sending p) :
    ¬ s.Access p := by
  rintro (hdriver | ⟨t', hmem, hpc'⟩)
  · exact absurd h.driver (Nat.pos_iff_ne_zero.mp hdriver)
  · obtain ⟨j, hj⟩ := List.mem_iff_getElem?.mp hmem
    by_cases hij : j = i
    · subst hij
      rw [hj, Option.some_inj] at ht
      exact hpc (ht ▸ hpc')
    · have hholds := h.others j t' hj hij
      rw [hpc', Pc.holds, beq_self_eq_true] at hholds
      cases hholds

/-- The buffer and the references to it stay. -/
structure Kept (s u : State) (i : ℕ) (p : ℤ) : Prop where
  buffer : u.buffers p = s.buffers p
  driver : u.driver p = s.driver p
  others : ∀ j t, u.tasks[j]? = some t → j ≠ i →
    t.pc.holds p = false ∨ ∃ t', s.tasks[j]? = some t' ∧ t'.pc.holds p = true

theorem Kept.alone (h : Kept s u i p) (halone : Alone s i p) : Alone u i p := by
  refine ⟨h.driver.trans halone.driver, fun j t hj hij => ?_⟩
  obtain hnone | ⟨t', ht', hholds⟩ := h.others j t hj hij
  · exact hnone
  · rw [halone.others j t' ht' hij] at hholds
    cases hholds

/-- The calls are as they were. -/
theorem kept_of_tasks (htasks : u.tasks = s.tasks) (hdriver : u.driver p = s.driver p)
    (hbuffer : u.buffers p = s.buffers p) : Kept s u i p := by
  refine ⟨hbuffer, hdriver, fun j t hj _ => ?_⟩
  rw [htasks] at hj
  by_cases hholds : t.pc.holds p = true
  · exact Or.inr ⟨t, hj, hholds⟩
  · exact Or.inl (Bool.not_eq_true _ ▸ hholds)

theorem kept_of_spawn (call : Call) (pc : Pc) (hpc : pc.holds p = false)
    (htasks : u.tasks = s.tasks ++ [⟨call, pc⟩]) (hdriver : u.driver p = s.driver p)
    (hbuffer : u.buffers p = s.buffers p) : Kept s u i p := by
  refine ⟨hbuffer, hdriver, fun j t hj _ => ?_⟩
  rw [htasks] at hj
  rcases getElem?_append_cases hj with hj | ⟨-, rfl⟩
  · by_cases hholds : t.pc.holds p = true
    · exact Or.inr ⟨t, hj, hholds⟩
    · exact Or.inl (Bool.not_eq_true _ ▸ hholds)
  · exact Or.inl hpc

theorem kept_of_write {f : Buffer → Buffer} (hp : ¬ s.Access p) (hs : s.write q f = some u) :
    Kept s u i p := by
  obtain ⟨haccess, rfl⟩ := Option.ite_none_right_eq_some.mp hs |>.imp_right Option.some.inj
  obtain ⟨htasks, hdriver, -, hbuffers⟩ := access_frame (s := s) (p := q) f
  refine kept_of_tasks htasks (congrFun hdriver p) (hbuffers p ?_)
  rintro rfl
  exact hp haccess

/-- Another call goes on, without the buffer. -/
theorem kept_of_set {j : ℕ} {t' : Task} (pc : Pc) (hpc : pc.holds p = false)
    (htasks : u.tasks = s.tasks.set j { t' with pc }) (hdriver : u.driver p = s.driver p)
    (hbuffer : u.buffers p = s.buffers p) : Kept s u i p := by
  refine ⟨hbuffer, hdriver, fun k t hk _ => ?_⟩
  rw [htasks] at hk
  rcases getElem?_set_cases hk with ⟨-, rfl⟩ | ⟨-, hk⟩
  · exact Or.inl hpc
  · by_cases hholds : t.pc.holds p = true
    · exact Or.inr ⟨t, hk, hholds⟩
    · exact Or.inl (Bool.not_eq_true _ ▸ hholds)

/-- Steps of others keep a buffer that only call `i` knows. -/
theorem Alone.kept {a : Action} (halone : Alone s i p) (hinv : Inv s) (ht : s.tasks[i]? = some t)
    (hholds : t.pc.holds p = true) (hpc : t.pc ≠ .sending p) (ha : a.target ≠ some i)
    (hs : step s a = some u) : Kept s u i p := by
  have haccess := halone.no_access ht hpc
  obtain ⟨b, hb, hfreeing, -⟩ := hinv.held (holders_pos_of_task ht hholds)
  have hdriver : ∀ q, 0 < s.driver q → p ≠ q := by
    rintro q hq rfl
    exact absurd halone.driver (Nat.pos_iff_ne_zero.mp hq)
  have hfresh : ∀ q, s.buffers q = none → p ≠ q := by
    rintro q hq rfl
    rw [hb] at hq
    cases hq
  cases a with
  | transmit frame sink =>
    cases hs
    exact kept_of_spawn (.transmit frame sink) .load rfl rfl rfl rfl
  | run j =>
    obtain ⟨t', ht', hs⟩ := Option.bind_eq_some_iff.mp hs
    obtain ⟨pc, hadvanced⟩ := advance_frame hs
    have hij : j ≠ i := fun heq => ha (congrArg some heq)
    have hnone := halone.others j t' ht' hij
    have hfrees : t'.pc.frees p = false := by
      have hall := List.countP_eq_zero.mp hfreeing t' (List.mem_of_getElem? ht')
      exact Bool.not_eq_true _ ▸ hall
    refine kept_of_set _ (Bool.not_eq_true _ ▸ fun hpc => ?_) hadvanced.tasks (congrFun hadvanced.driver p)
      (hadvanced.buffers p hnone hfrees)
    rw [hadvanced.holds p hpc] at hnone
    cases hnone
  | kmalloc j address area =>
    unfold step at hs
    dsimp only at hs
    split at hs
    next frame sink pc ht' =>
      obtain ⟨hfree, hs⟩ := Option.ite_none_right_eq_some.mp hs
      have hne := hfresh address hfree.1
      obtain ⟨frame', sink', netif, send, -, rfl | ⟨-, pbuf, -, rfl⟩⟩ := allocated_cases hs
      · exact kept_of_set _ (holds_failed _ _ _) rfl rfl rfl
      · exact kept_of_set (.copy netif send address) (beq_eq_false_iff_ne.mpr hne.symm) rfl rfl
          (Function.update_of_ne hne _ _)
    next => cases hs
  | alloc length address area =>
    obtain ⟨hfree, hs⟩ := Option.ite_none_right_eq_some.mp hs
    have hne := hfresh address hfree.1
    obtain hnone | ⟨-, pbuf, -, -, hsome⟩ := pbufAlloc_cases (s := s) length address area
    · rw [hnone] at hs
      cases hs
      exact kept_of_tasks rfl rfl rfl
    · rw [hsome] at hs
      cases hs
      exact kept_of_tasks rfl (Function.update_of_ne hne _ _) (Function.update_of_ne hne _ _)
  | ref q =>
    unfold step at hs
    dsimp only at hs
    split_ifs at hs with hnull haccess' <;> cases hs
    · exact kept_of_tasks rfl rfl rfl
    · have hne : p ≠ q := by
        rintro rfl
        exact haccess haccess'
      rw [State.pbufRef, if_neg hnull]
      obtain ⟨htasks, hdriver', -, hbuffers⟩ := access_frame (s := s) (p := q) fun b =>
        { b with pbuf := { b.pbuf with refCount := b.pbuf.refCount + 1 } }
      refine kept_of_tasks htasks ?_ (hbuffers p hne)
      exact (Function.update_of_ne hne _ _).trans (congrFun hdriver' p)
  | free q =>
    unfold step at hs
    dsimp only at hs
    split_ifs at hs with hnull hpos <;> cases hs
    · exact kept_of_spawn (.pbufFree q) (.done (.freed 0)) rfl rfl rfl rfl
    · have hne := hdriver q hpos
      exact kept_of_spawn (.pbufFree q) (.free q) (beq_eq_false_iff_ne.mpr hne.symm) rfl
        (Function.update_of_ne hne _ _) rfl
  | input q =>
    unfold step at hs
    dsimp only at hs
    split_ifs at hs with hnull hpos <;> cases hs
    · exact kept_of_spawn (.driverifInput q) (.done .accepted) rfl rfl rfl rfl
    · have hne := hdriver q hpos
      exact kept_of_spawn (.driverifInput q) (.read q) (beq_eq_false_iff_ne.mpr hne.symm) rfl
        (Function.update_of_ne hne _ _) rfl
  | header q headerSize => exact kept_of_write haccess hs
  | place q payload len totLen =>
    obtain ⟨-, hs⟩ := Option.ite_none_right_eq_some.mp hs
    exact kept_of_write haccess hs
  | store q offset byte => exact kept_of_write haccess hs
  | netifAdd netif =>
    cases hs
    exact kept_of_tasks rfl rfl rfl
  | netifRemove netif =>
    cases hs
    split_ifs
    · exact kept_of_tasks rfl rfl rfl
    · exact kept_of_tasks rfl rfl rfl
  | install netif send =>
    cases hs
    exact kept_of_tasks rfl rfl rfl

end Alone

/-! ## §3 The invariant -/

/-- `transmit` accepts the length. -/
def Short (frame : List UInt8) : Prop := frame ≠ [] ∧ frame.length ≤ 65535

/-- A buffer of `pbuf_alloc` as long as the frame. -/
structure Buffer.Blank (p : ℤ) (b : Buffer) (n : ℕ) : Prop where
  payload : b.pbuf.payload = p + (pbufHdr + pbufZeroCopyReserve : ℕ)
  len : b.pbuf.len.toNat = n
  area : b.area.length = pbufZeroCopyReserve + n + pbufZeroCopyTailroom

/-- In the run along `as`, call `i` took its step from `pc` in a state with `P`. -/
def Passed (as : List Action) (i : ℕ) (pc : Pc) (P : State → Prop) : Prop :=
  ∃ bs s frame sink, bs ++ [.run i] <+: as ∧ Steps step InRange init bs s ∧
    s.tasks[i]? = some ⟨.transmit frame sink, pc⟩ ∧ P s

/-- The interface was registered when the call loaded it, and its driver installed when the call read it. -/
structure Found (as : List Action) (i : ℕ) (netif send : ℤ) : Prop where
  netif_ne : netif ≠ 0
  registered : Passed as i .load fun s => s.registeredNetif = netif
  send_ne : send ≠ 0
  installed : Passed as i (.driver netif) fun s => s.driverSend netif = send

/-- The driver was called once, with the frame. -/
def Handed (as : List Action) (s : State) (i : ℕ) (frame : List UInt8) : Prop :=
  ∃ netif send, Found as i netif send ∧ s.sentBy i = [⟨i, netif, send, frame⟩]

/-- How far a `transmit` has come. -/
def Delivers (as : List Action) (s : State) (i : ℕ) (frame : List UInt8) : Pc → Prop
  | .load | .countFailed _ | .done (.transmitted (.error _)) => s.sentBy i = []
  | .driver netif => s.sentBy i = [] ∧ Short frame ∧ netif ≠ 0 ∧
      Passed as i .load fun s => s.registeredNetif = netif
  | .alloc netif send => s.sentBy i = [] ∧ Short frame ∧ Found as i netif send
  | .copy netif send p => s.sentBy i = [] ∧ Found as i netif send ∧ Alone s i p ∧
      ∃ b, s.buffers p = some b ∧ b.Blank p frame.length
  | .call netif send p => s.sentBy i = [] ∧ Found as i netif send ∧ Alone s i p ∧
      ∃ b, s.buffers p = some b ∧ b.packet p = frame
  | .sending _ | .free _ | .kfree _ | .done (.transmitted (.ok _)) => Handed as s i frame
  | .read _ | .push _ _ _ | .countReceived _ | .countDropped _ | .done .accepted | .done (.freed _) => False

structure Delivery (as : List Action) (s : State) : Prop where
  sent : ∀ e ∈ s.sent, e.task < s.tasks.length
  delivers : ∀ i frame sink pc, s.tasks[i]? = some ⟨.transmit frame sink, pc⟩ → Delivers as s i frame pc

/-! ## §4 Steps -/

section Steps

variable {as : List Action} {s u : State} {i : ℕ} {frame : List UInt8} {sink : Bool} {pc : Pc} {a : Action}

theorem Passed.snoc {P : State → Prop} (h : Passed as i pc P) (a : Action) : Passed (as ++ [a]) i pc P := by
  obtain ⟨bs, s, frame, sink, hbs, h⟩ := h
  exact ⟨bs, s, frame, sink, hbs.trans (List.prefix_append _ _), h⟩

/-- The step that is taken now. -/
theorem Passed.now {P : State → Prop} (hrun : Steps step InRange init as s)
    (ht : s.tasks[i]? = some ⟨.transmit frame sink, pc⟩) (hP : P s) : Passed (as ++ [.run i]) i pc P :=
  ⟨as, s, frame, sink, List.prefix_rfl, hrun, ht, hP⟩

theorem Found.snoc {netif send : ℤ} (h : Found as i netif send) (a : Action) :
    Found (as ++ [a]) i netif send :=
  ⟨h.netif_ne, h.registered.snoc a, h.send_ne, h.installed.snoc a⟩

theorem Handed.snoc (h : Handed as s i frame) (a : Action) (hsent : u.sentBy i = s.sentBy i) :
    Handed (as ++ [a]) u i frame := by
  obtain ⟨netif, send, hfound, hone⟩ := h
  exact ⟨netif, send, hfound.snoc a, hsent.trans hone⟩

theorem sentBy_congr (h : u.sent = s.sent) : u.sentBy i = s.sentBy i := by
  rw [State.sentBy, State.sentBy, h]

/-- Steps of others do not concern a `transmit`. -/
theorem Delivers.other (h : Delivers as s i frame pc) (hinv : Inv s)
    (ht : s.tasks[i]? = some ⟨.transmit frame sink, pc⟩) (ha : a.target ≠ some i)
    (hsent : u.sentBy i = s.sentBy i) (hs : step s a = some u) : Delivers (as ++ [a]) u i frame pc := by
  cases pc with
  | load | countFailed _ => exact hsent.trans h
  | driver _ =>
    obtain ⟨hnone, hshort, hne, hpassed⟩ := h
    exact ⟨hsent.trans hnone, hshort, hne, hpassed.snoc a⟩
  | alloc _ _ =>
    obtain ⟨hnone, hshort, hfound⟩ := h
    exact ⟨hsent.trans hnone, hshort, hfound.snoc a⟩
  | sending _ | free _ | kfree _ => exact Handed.snoc h a hsent
  | copy netif send p =>
    obtain ⟨hnone, hfound, halone, b, hb, hblank⟩ := h
    have hkept := halone.kept hinv ht (beq_self_eq_true p) nofun ha hs
    exact ⟨hsent.trans hnone, hfound.snoc a, hkept.alone halone, b, hkept.buffer.trans hb, hblank⟩
  | call netif send p =>
    obtain ⟨hnone, hfound, halone, b, hb, hpacket⟩ := h
    have hkept := halone.kept hinv ht (beq_self_eq_true p) nofun ha hs
    exact ⟨hsent.trans hnone, hfound.snoc a, hkept.alone halone, b, hkept.buffer.trans hb, hpacket⟩
  | read _ | push _ _ _ | countReceived _ | countDropped _ => exact h.elim
  | done r =>
    cases r with
    | transmitted result =>
      cases result with
      | error error => exact hsent.trans h
      | ok value => exact Handed.snoc h a hsent
    | accepted | freed _ => exact h.elim

/-- The frame is copied to a buffer as long as it is. -/
theorem packet_overwrite {p : ℤ} {b : Buffer} (h : b.Blank p frame.length) :
    (b.overwrite p b.pbuf.payload frame).packet p = frame := by
  have hoffset : Buffer.offset p b.pbuf.payload = pbufZeroCopyReserve := by
    rw [Buffer.offset, h.payload]
    omega
  have htake : (b.area.take pbufZeroCopyReserve).length = pbufZeroCopyReserve := by
    rw [List.length_take, h.area]
    omega
  show ((b.area.take (Buffer.offset p b.pbuf.payload) ++ frame ++
    b.area.drop (Buffer.offset p b.pbuf.payload + frame.length)).drop
      (Buffer.offset p b.pbuf.payload)).take b.pbuf.len.toNat = frame
  rw [hoffset, h.len, List.append_assoc, List.drop_left' htake, List.take_left]

/-- How a call of its own goes on. -/
def Goes (as : List Action) (s u : State) (i : ℕ) (frame : List UInt8) (sink : Bool) : Prop :=
  ∃ pc, u.tasks = s.tasks.set i ⟨.transmit frame sink, pc⟩ ∧ Delivers as u i frame pc

theorem goes_failed (as : List Action) (h : s.sentBy i = []) (error : TxError) :
    Goes as s (s.goto i ⟨.transmit frame sink, pc⟩ (State.failed sink error)) i frame sink := by
  refine ⟨_, rfl, ?_⟩
  cases sink with
  | false => exact h
  | true => exact h

theorem Delivers.advance (h : Delivers as s i frame pc) (hinv : Inv s) (hrun : Steps step InRange init as s)
    (ht : s.tasks[i]? = some ⟨.transmit frame sink, pc⟩)
    (hs : s.advance i ⟨.transmit frame sink, pc⟩ = some u) : Goes (as ++ [.run i]) s u i frame sink := by
  cases pc with
  | load =>
    unfold State.advance at hs
    dsimp only at hs
    split_ifs at hs with hlength hnull <;> cases hs
    · exact goes_failed _ h _
    · exact goes_failed _ h _
    · obtain ⟨hempty, hshort⟩ := not_or.mp hlength
      exact ⟨_, rfl, h, ⟨hempty, Nat.not_lt.mp hshort⟩, hnull, .now hrun ht rfl⟩
  | driver netif =>
    obtain ⟨hnone, hshort, hnetif, hregistered⟩ := h
    unfold State.advance at hs
    dsimp only at hs
    split_ifs at hs with hnull <;> cases hs
    · exact goes_failed _ hnone _
    · exact ⟨_, rfl, hnone, hshort, hnetif, hregistered.snoc _, hnull, .now hrun ht rfl⟩
  | alloc netif send => cases hs
  | copy netif send p =>
    obtain ⟨hnone, hfound, halone, b, hb, hblank⟩ := h
    cases hs
    have haccess := access_eq (f := fun b => b.overwrite p b.pbuf.payload frame) hb
    refine ⟨.call netif send p, by rw [haccess]; rfl, ?_⟩
    rw [haccess]
    refine ⟨hnone, hfound.snoc _, ⟨halone.driver, fun j t hj hij => ?_⟩, _,
      Function.update_self p _ s.buffers, packet_overwrite hblank⟩
    exact halone.others j t ((List.getElem?_set_ne hij.symm).symm.trans hj) hij
  | call netif send p =>
    obtain ⟨hnone, hfound, -, b, hb, hpacket⟩ := h
    unfold State.advance at hs
    dsimp only at hs
    rw [hb] at hs
    cases hs
    refine ⟨_, rfl, netif, send, hfound.snoc _, ?_⟩
    rw [State.sentBy] at hnone ⊢
    show List.filter _ (_ :: s.sent) = _
    rw [List.filter_cons_of_pos (by simp), hnone, hpacket]
  | sending p =>
    cases hs
    exact ⟨_, rfl, Handed.snoc h _ rfl⟩
  | countFailed error =>
    cases hs
    exact ⟨_, rfl, h⟩
  | free p =>
    obtain ⟨b, hb, -⟩ := hinv.held (holders_pos_of_task ht (beq_self_eq_true p))
    unfold State.advance at hs
    dsimp only at hs
    rw [hb] at hs
    dsimp only at hs
    split_ifs at hs <;> cases hs
    · exact ⟨_, rfl, Handed.snoc h _ rfl⟩
    · exact ⟨_, rfl, Handed.snoc h _ rfl⟩
  | kfree p =>
    obtain ⟨b, hb, -⟩ := hinv.buffer_of_frees ht (p := p) (beq_self_eq_true p)
    unfold State.advance at hs
    dsimp only at hs
    rw [hb] at hs
    cases hs
    exact ⟨_, rfl, Handed.snoc h _ rfl⟩
  | read _ | push _ _ _ | countReceived _ | countDropped _ => exact h.elim
  | done r => cases hs

theorem blank_pbufAlloc {p : ℤ} {n : ℕ} {pbuf : Pbuf} {area : List UInt8} (hn : n ≤ 65535)
    (h : Netif.pbufAlloc (fun _ => p) (UInt16.ofNat n) = some (p, pbuf))
    (harea : area.length = pbufTotal (UInt16.ofNat n) - pbufHdr) : Buffer.Blank p ⟨pbuf, area⟩ n := by
  have hlen : (UInt16.ofNat n).toNat = n := by
    rw [UInt16.toNat_ofNat']
    exact Nat.mod_eq_of_lt (by omega)
  unfold Netif.pbufAlloc at h
  dsimp only at h
  split_ifs at h
  cases h
  refine ⟨rfl, hlen, ?_⟩
  show area.length = _
  rw [harea, pbufTotal, hlen]
  simp only [pbufHdr, pbufZeroCopyReserve, pbufZeroCopyTailroom]
  omega

theorem Delivers.allocated {p : ℤ} {area : List UInt8} (h : Delivers as s i frame pc) (hinv : Inv s)
    (hfresh : s.Fresh (UInt16.ofNat frame.length) p area) (a : Action)
    (hs : s.allocated i ⟨.transmit frame sink, pc⟩ p area = some u) : Goes (as ++ [a]) s u i frame sink := by
  obtain ⟨frame', sink', netif, send, ht, rfl | ⟨-, pbuf, hpbuf, rfl⟩⟩ := allocated_cases hs
  · cases ht
    exact goes_failed _ h.1 _
  · cases ht
    obtain ⟨hnone, hshort, hfound⟩ := h
    have hdead := (hinv.dead p hfresh.1).1
    rw [State.holders, Nat.add_eq_zero_iff] at hdead
    refine ⟨_, rfl, hnone, hfound.snoc a, ⟨hdead.1, fun j t hj hij => ?_⟩, _, Function.update_self p _ s.buffers,
      blank_pbufAlloc hshort.2 hpbuf hfresh.2⟩
    have hmem := List.mem_of_getElem? ((List.getElem?_set_ne hij.symm).symm.trans hj)
    exact Bool.not_eq_true _ ▸ List.countP_eq_zero.mp hdead.2 t hmem

/-- A `transmit` takes a step. -/
theorem Delivers.own (h : Delivers as s i frame pc) (hinv : Inv s)
    (hrun : Steps References.step InRange init as s)
    (ht : s.tasks[i]? = some ⟨.transmit frame sink, pc⟩) (ha : a.target = some i)
    (hs : References.step s a = some u) : Goes (as ++ [a]) s u i frame sink := by
  cases a with
  | run j =>
    obtain rfl := Option.some.inj ha
    obtain ⟨t, ht', hs⟩ := Option.bind_eq_some_iff.mp hs
    obtain rfl := Option.some.inj (ht.symm.trans ht')
    exact h.advance hinv hrun ht hs
  | kmalloc j address area =>
    obtain rfl := Option.some.inj ha
    unfold References.step at hs
    dsimp only at hs
    rw [ht] at hs
    obtain ⟨hfresh, hs⟩ := Option.ite_none_right_eq_some.mp hs
    exact h.allocated hinv hfresh _ hs
  | transmit _ _ | alloc _ _ _ | ref _ | free _ | input _ | header _ _ | place _ _ _ _ | store _ _ _
  | netifAdd _ | netifRemove _ | install _ _ => cases ha

theorem Delivery.step (h : Delivery as s) (hinv : Inv s) (hrun : Steps References.step InRange init as s)
    (hs : References.step s a = some u) : Delivery (as ++ [a]) u := by
  have hlt : ∀ {j : ℕ} {t : Task}, s.tasks[j]? = some t → j < s.tasks.length := fun hj =>
    (List.getElem?_eq_some_iff.mp hj).1
  cases step_tasks hs with
  | none ha htasks hsent =>
    refine ⟨by rw [hsent, htasks]; exact h.sent, fun j frame sink pc hj => ?_⟩
    rw [htasks] at hj
    exact (h.delivers j frame sink pc hj).other hinv hj (by rw [ha]; nofun) (sentBy_congr hsent) hs
  | spawned call pc ha htasks hcall hsent =>
    refine ⟨fun e he => ?_, fun j frame sink pc hj => ?_⟩
    · rw [htasks, List.length_append]
      exact Nat.lt_add_right _ (h.sent e (hsent ▸ he))
    · rw [htasks] at hj
      rcases getElem?_append_cases hj with hj | ⟨rfl, heq⟩
      · exact (h.delivers j frame sink pc hj).other hinv hj (by rw [ha]; nofun) (sentBy_congr hsent) hs
      · cases heq
        rw [hcall frame sink rfl]
        refine (sentBy_congr hsent).trans (List.filter_eq_nil_iff.mpr fun e he htask => ?_)
        exact Nat.ne_of_lt (h.sent e he) (of_decide_eq_true htask)
  | target i t pc' ha ht htasks hsent =>
    refine ⟨fun e he => ?_, fun j frame sink pc hj => ?_⟩
    · rw [htasks, List.length_set]
      obtain hsent | ⟨e', rfl, hsent⟩ := hsent
      · exact h.sent e (hsent ▸ he)
      · rw [hsent] at he
        rcases List.mem_cons.mp he with rfl | he
        · exact hlt ht
        · exact h.sent e he
    · by_cases hij : j = i
      · subst hij
        have hself : u.tasks[j]? = some { t with pc := pc' } := by
          rw [htasks, List.getElem?_set_self (hlt ht)]
        obtain ⟨call, old⟩ := t
        obtain rfl : call = .transmit frame sink := congrArg Task.call (Option.some.inj (hself.symm.trans hj))
        obtain ⟨next, hnext, hdelivers⟩ := (h.delivers j frame sink old ht).own hinv hrun ht ha hs
        rw [hnext, List.getElem?_set_self (hlt ht), Option.some_inj] at hj
        cases hj
        exact hdelivers
      · have hsame : u.sentBy j = s.sentBy j := by
          obtain hsent | ⟨e', rfl, hsent⟩ := hsent
          · exact sentBy_congr hsent
          · rw [State.sentBy, hsent, List.filter_cons_of_neg (by simpa using Ne.symm hij)]
            rfl
        rw [htasks, List.getElem?_set_ne (Ne.symm hij)] at hj
        refine (h.delivers j frame sink pc hj).other hinv hj (fun heq => hij ?_) hsame hs
        exact Option.some.inj (heq.symm.trans ha)

end Steps

/-! ## §5 Main result -/

theorem delivery_init : Delivery [] init := ⟨nofun, fun _ _ _ _ h => by cases h⟩

/-- In every run, `Ok` says that the driver was called once, with the frame: the `drv_send` that the call has
read from the interface that it has found registered. An error says that the driver was not called. -/
theorem transmit_delivers (as : List Action) (s : State) (h : Steps step InRange init as s) (i : ℕ)
    (frame : List UInt8) (sink : Bool) (result : Except TxError Unit)
    (ht : s.tasks[i]? = some ⟨.transmit frame sink, .done (.transmitted result)⟩) :
    match result with
    | .ok _ => Handed as s i frame
    | .error _ => s.sentBy i = [] := by
  have hall := h.invariant_run (I := fun as s => Inv s ∧ Delivery as s) ⟨inv_init, delivery_init⟩
    fun _ _ _ _ hrun hI hrange hs => ⟨hI.1.step hrange hs, hI.2.step hI.1 hrun hs⟩
  have hdelivers := hall.2.delivers i frame sink _ ht
  cases result with
  | ok value => exact hdelivers
  | error error => exact hdelivers

/-- The driver keeps a frame that it was sent for a while. -/
theorem transmit_delivers_kept :
    ∃ s, Steps step InRange init keptActions s ∧ Handed keptActions s 0 [1, 2, 3] := by
  obtain ⟨s, hs⟩ := Option.isSome_iff_exists.mp
    (by decide +kernel : (run (guarded step InRange) init keptActions).isSome = true)
  have hrun := Steps.of_run_guarded hs
  have htask : (run (guarded step InRange) init keptActions).map (·.tasks[0]?) =
      some (some ⟨.transmit [1, 2, 3] true, .done (.transmitted (.ok ()))⟩) := by decide +kernel
  rw [hs, Option.map_some, Option.some_inj] at htask
  exact ⟨s, hrun, transmit_delivers keptActions s hrun 0 [1, 2, 3] true (.ok ()) htask⟩

end HisiRiscv.Netif.References
