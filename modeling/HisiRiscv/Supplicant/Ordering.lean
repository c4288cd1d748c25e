/-
HisiRiscv.Supplicant.Ordering — in which order the slot queues deliver.

A call allocates its sequence number before it claims a slot, and
`take_oldest` looks for WRITING slots before it selects the smallest
number. Neither makes the three steps of a call atomic: a call preempted
between `next_sequence.fetch_add` and its claim is in no slot, and one
that publishes behind the selection loop is not seen by it. Either can be
overtaken.

The deliveries are in order in every run in which this does not happen:
when a READY → READING exchange takes number `t`, no call in flight holds
a number below `t`, and none below `t` was published since the selection
loop began. Then the selection is the minimum of all outstanding numbers
(`Selected`, carried through the loop), and what is delivered stays below
what is outstanding (`Ahead`).

  §1 The property and the condition.
  §2 The selection loop.
  §3 Deliveries stay below what is outstanding.
  §4 Main results.
-/
import HisiRiscv.Supplicant.InterleavedTheorems

namespace HisiRiscv.Supplicant.Interleaved

open HisiRiscv.Machine HisiRiscv.Ledger

variable {L : Layout}

/-! ## §1 The property and the condition -/

/-- The numbers delivered so far increase; the 32-bit values they are kept in
compare accordingly as long as they are less than 2³¹ apart. -/
def Ordered (s : State L) : Prop :=
  (s.taken.map Prod.fst).Pairwise fun a b =>
    a < b ∧ (b < a + 2 ^ 31 → SerialNumber.before (UInt32.ofNat a) (UInt32.ofNat b) = true)

/-- The numbers of the calls in flight. -/
def State.inFlight (s : State L) : List Nat := s.calls.filterMap Call.inFlight?

/-- Fewer than 2³¹ numbers are outstanding. -/
def Window (s : State L) : Prop :=
  ∀ i, (s.queue.slots i).state = .ready → s.queue.nextSequence ≤ (s.queue.slots i).ticket + 2 ^ 31

/-- No exchange overtakes: the number it takes is below those in flight and
below those published during its selection loop. -/
def Unovertaken (s : State L) : Action L → Prop
  | .consumer =>
      ∀ j, s.consumer = .exchange j →
        (∀ t ∈ s.inFlight, ¬ t < (s.queue.slots j).ticket) ∧
          ∀ t ∈ s.fresh, ¬ t < (s.queue.slots j).ticket
  | .call _ | .producer _ => True

def InOrder (s : State L) (act : Action L) : Prop := Window s ∧ Unovertaken s act

instance (s : State L) : Decidable (Window s) :=
  inferInstanceAs (Decidable (∀ i, (s.queue.slots i).state = .ready →
    s.queue.nextSequence ≤ (s.queue.slots i).ticket + 2 ^ 31))

instance (s : State L) : (act : Action L) → Decidable (Unovertaken s act)
  | .consumer => inferInstanceAs (Decidable (∀ j, s.consumer = .exchange j →
      (∀ t ∈ s.inFlight, ¬ t < (s.queue.slots j).ticket) ∧
        ∀ t ∈ s.fresh, ¬ t < (s.queue.slots j).ticket))
  | .call _ | .producer _ => inferInstanceAs (Decidable True)

instance (s : State L) (act : Action L) : Decidable (InOrder s act) :=
  inferInstanceAs (Decidable (_ ∧ _))

/-! ## §2 The selection loop -/

/-- `oldest` is a READY slot whose number is the smallest among the READY slots
below `n` that were not published since the loop began. -/
structure Selected (q : Queue L) (fresh : List Nat) (n : Nat)
    (oldest : Option (Fin L.depth × UInt32)) : Prop where
  ready : ∀ j seq, oldest = some (j, seq) → (q.slots j).state = .ready ∧ seq = (q.slots j).sequence
  least : ∀ k : Fin L.depth, k.val < n → (q.slots k).state = .ready → (q.slots k).ticket ∉ fresh →
    ∃ j seq, oldest = some (j, seq) ∧ (q.slots j).ticket ≤ (q.slots k).ticket

/-- What the consumer has found out so far. -/
def Pass (s : State L) : Prop :=
  match s.consumer with
  | .scan i oldest => Selected s.queue s.fresh i oldest
  | .load i oldest => (s.queue.slots i).state = .ready ∧ Selected s.queue s.fresh i oldest
  | .exchange j => Selected s.queue s.fresh L.depth (some (j, (s.queue.slots j).sequence))
  | .idle | .check _ | .holding _ => True

theorem selected_start (q : Queue L) (fresh : List Nat) : Selected q fresh 0 none where
  ready := nofun
  least := fun _ h => absurd h (Nat.not_lt_zero _)

/-- A slot that is not READY when it is looked at is passed over. -/
theorem Selected.skip {q : Queue L} {fresh : List Nat} {i : Fin L.depth}
    {oldest : Option (Fin L.depth × UInt32)} (h : Selected q fresh i oldest)
    (hi : (q.slots i).state ≠ .ready) : Selected q fresh (i + 1) oldest where
  ready := h.ready
  least k hk hready hfresh := by
    have hki : k ≠ i := fun hki => hi (hki ▸ hready)
    exact h.least k (by have := Fin.val_ne_of_ne hki; omega) hready hfresh

/-- A READY slot is compared by its wrapped number, which within the window
is the comparison of the numbers. -/
theorem Selected.consider {q : Queue L} {fresh : List Nat} {i : Fin L.depth}
    {oldest : Option (Fin L.depth × UInt32)} (h : Selected q fresh i oldest)
    (hi : (q.slots i).state = .ready)
    (hlt : ∀ k, (q.slots k).state = .ready → (q.slots k).ticket < q.nextSequence)
    (hwin : ∀ k, (q.slots k).state = .ready → q.nextSequence ≤ (q.slots k).ticket + 2 ^ 31) :
    Selected q fresh (i + 1) (Queue.consider oldest i (q.slots i).sequence) := by
  have hupto : ∀ k : Fin L.depth, k.val < i + 1 → k = i ∨ k.val < i := fun k hk => by
    rcases Nat.lt_or_eq_of_le (Nat.lt_succ_iff.mp hk) with h | h
    · exact Or.inr h
    · exact Or.inl (Fin.ext h)
  cases oldest with
  | none =>
    refine ⟨fun j seq hj => ?_, fun k hk hready hfresh => ?_⟩
    · cases hj
      exact ⟨hi, rfl⟩
    · rcases hupto k hk with rfl | hlt
      · exact ⟨k, _, rfl, Nat.le_refl _⟩
      · obtain ⟨_, _, hnone, _⟩ := h.least k hlt hready hfresh
        cases hnone
  | some best =>
    obtain ⟨b, current⟩ := best
    obtain ⟨hb, rfl⟩ := h.ready b current rfl
    have hcmp : SerialNumber.before (q.slots i).sequence (q.slots b).sequence = true ↔
        (q.slots i).ticket < (q.slots b).ticket := by
      refine SerialNumber.before_ofNat ?_ ?_
      · have := hlt i hi
        have := hwin b hb
        omega
      · have := hlt b hb
        have := hwin i hi
        omega
    by_cases hlt' : (q.slots i).ticket < (q.slots b).ticket
    · rw [Queue.consider, if_pos (hcmp.mpr hlt')]
      refine ⟨fun j seq hj => ?_, fun k hk hready hfresh => ⟨i, _, rfl, ?_⟩⟩
      · cases hj
        exact ⟨hi, rfl⟩
      · rcases hupto k hk with rfl | hk
        · exact Nat.le_refl _
        · obtain ⟨j, seq, hj, hle⟩ := h.least k hk hready hfresh
          cases hj
          omega
    · rw [Queue.consider, if_neg (fun hc => hlt' (hcmp.mp hc))]
      refine ⟨h.ready, fun k hk hready hfresh => ⟨b, _, rfl, ?_⟩⟩
      rcases hupto k hk with rfl | hk
      · omega
      · obtain ⟨j, seq, hj, hle⟩ := h.least k hk hready hfresh
        cases hj
        exact hle

/-- A step of a call leaves READY slots alone and announces the numbers it
publishes, so the selection stands. -/
theorem Selected.producer {q q' : Queue L} {fresh published : List Nat} {n : Nat}
    {oldest : Option (Fin L.depth × UInt32)} (h : Selected q fresh n oldest)
    (hkeep : ∀ k, (q.slots k).state = .ready → q'.slots k = q.slots k)
    (hnew : ∀ k, (q'.slots k).state = .ready →
      q'.slots k = q.slots k ∨ (q'.slots k).ticket ∈ published) :
    Selected q' (fresh ++ published) n oldest where
  ready j seq hj := by
    obtain ⟨hready, hseq⟩ := h.ready j seq hj
    rw [hkeep j hready]
    exact ⟨hready, hseq⟩
  least k hk hready hfresh := by
    rw [List.mem_append, not_or] at hfresh
    have hsame := (hnew k hready).resolve_right hfresh.2
    rw [hsame] at hready hfresh ⊢
    obtain ⟨j, seq, hj, hle⟩ := h.least k hk hready hfresh.1
    refine ⟨j, seq, hj, ?_⟩
    rwa [hkeep j (h.ready j seq hj).1]

/-! ## §3 Deliveries stay below what is outstanding -/

section Facts

variable {s : State L} {a : Nat} {c c' : Call L} {q' : Queue L}

theorem inFlight_ticket {t : Nat} (ht : c.inFlight? = some t) :
    c.ticket? = some t ∧ c.accepted? = none := by
  cases c with
  | start | returned => cases ht
  | claim | write | publish => exact ⟨ht, rfl⟩

/-- A call in flight has not stored anything yet. -/
theorem inFlight_ne_ready (hinv : Inv s) {t : Nat} (ht : t ∈ s.inFlight) {k : Fin L.depth}
    (hk : (s.queue.slots k).state = .ready) : t ≠ (s.queue.slots k).ticket := by
  rintro rfl
  obtain ⟨c, hc, hct⟩ := List.mem_filterMap.mp ht
  obtain ⟨d, hd, hdt⟩ := List.mem_filterMap.mp (ready_accepted hinv hk)
  obtain ⟨i, hi⟩ := List.mem_iff_getElem?.mp hc
  obtain ⟨j, hj⟩ := List.mem_iff_getElem?.mp hd
  obtain ⟨hticket, haccepted⟩ := inFlight_ticket hct
  have hij := index_unique Call.ticket? hinv.tickets_nodup hi hj hticket (accepted_ticket hdt)
  rw [hij, hj, Option.some_inj] at hi
  rw [← hi, hdt] at haccepted
  cases haccepted

/-- A slot becomes READY only by being published. -/
theorem ready_new (hinv : Inv s) (ha : s.calls[a]? = some c) (hmove : CallMove s.queue c q' c')
    {k : Fin L.depth} (hk : (q'.slots k).state = .ready) :
    q'.slots k = s.queue.slots k ∨
      (q'.slots k).ticket ∈ c.publishes ∧ (q'.slots k).ticket ∈ s.inFlight := by
  have hprogress := hinv.progress a c ha
  cases hmove with
  | reject | allocate | skip | full => exact Or.inl rfl
  | own i hfree =>
    by_cases hki : k = i
    · subst hki
      rw [Queue.modify_self] at hk
      cases hk
    · exact Or.inl (Queue.modify_ne _ _ hki)
  | @copy e t i w rest =>
    by_cases hki : k = i
    · subst hki
      rw [Queue.modify_self] at hk
      rw [hinv.writing_of_slot ha rfl] at hk
      cases hk
    · exact Or.inl (Queue.modify_ne _ _ hki)
  | @number e t i =>
    by_cases hki : k = i
    · subst hki
      rw [Queue.modify_self] at hk
      rw [hinv.writing_of_slot ha rfl] at hk
      cases hk
    · exact Or.inl (Queue.modify_ne _ _ hki)
  | @publish e t i =>
    by_cases hki : k = i
    · subst hki
      have hticket : ((s.queue.modify k fun slot => { slot with state := .ready }).slots k).ticket = t := by
        rw [Queue.modify_self]
        exact hprogress.2.1
      rw [hticket]
      exact Or.inr ⟨List.mem_singleton_self t,
        List.mem_filterMap.mpr ⟨_, List.mem_of_getElem? ha, rfl⟩⟩
    · exact Or.inl (Queue.modify_ne _ _ hki)

/-- A call in flight was in flight before its step, or has just allocated. -/
theorem CallMove.inFlight {q : Queue L} (h : CallMove q c q' c') {t : Nat}
    (ht : c'.inFlight? = some t) : c.inFlight? = some t ∨ t = q.nextSequence := by
  cases h with
  | allocate => exact Or.inr (Option.some_inj.mp ht).symm
  | reject | full | publish => cases ht
  | skip | own | copy | number => exact Or.inl ht

end Facts

/-- A number that is stored or on its way into the queue. -/
def Outstanding (s : State L) (t : Nat) : Prop :=
  t ∈ s.inFlight ∨ ∃ k, (s.queue.slots k).state = .ready ∧ (s.queue.slots k).ticket = t

/-- The invariant of the runs in order. -/
structure Ahead (s : State L) : Prop where
  inv : Inv s
  sorted : (s.taken.map Prod.fst).Pairwise (· < ·)
  /-- every delivered number is below every outstanding one -/
  below : ∀ x ∈ s.taken.map Prod.fst, ∀ t, Outstanding s t → x < t
  pass : Pass s

theorem ahead_init (L : Layout) : Ahead (init L) where
  inv := inv_init L
  sorted := .nil
  below := nofun
  pass := trivial

theorem ahead_call {s : State L} (h : Ahead s) (e : L.Event) :
    Ahead { s with calls := s.calls ++ [.start e] } where
  inv := inv_call h.inv e
  sorted := h.sorted
  below := by
    intro x hx t ht
    refine h.below x hx t (ht.imp_left fun ht => ?_)
    rwa [State.inFlight, List.filterMap_append, List.filterMap_cons_none rfl, List.filterMap_nil,
      List.append_nil] at ht
  pass := h.pass

theorem ahead_producer {s : State L} (h : Ahead s) {a : Nat} {c c' : Call L} {q' : Queue L}
    (ha : s.calls[a]? = some c) (hmove : CallMove s.queue c q' c') :
    Ahead { s with queue := q', calls := s.calls.set a c', fresh := s.fresh ++ c.publishes } where
  inv := inv_producer h.inv ha hmove _
  sorted := h.sorted
  below := by
    intro x hx t ht
    have hcases : Outstanding s t ∨ t = s.queue.nextSequence := by
      rcases ht with ht | ⟨k, hk, rfl⟩
      · obtain ⟨d, hd, hdt⟩ := List.mem_filterMap.mp ht
        obtain ⟨b, hb⟩ := List.mem_iff_getElem?.mp hd
        rcases getElem?_set_cases hb with ⟨-, rfl⟩ | ⟨-, hb⟩
        · exact (CallMove.inFlight hmove hdt).imp_left fun hct =>
            Or.inl (List.mem_filterMap.mpr ⟨c, List.mem_of_getElem? ha, hct⟩)
        · exact Or.inl (Or.inl (List.mem_filterMap.mpr ⟨d, List.mem_of_getElem? hb, hdt⟩))
      · rcases ready_new h.inv ha hmove hk with hsame | ⟨-, hflight⟩
        · rw [hsame] at hk
          exact Or.inl (Or.inr ⟨k, hk, congrArg Slot.ticket hsame.symm⟩)
        · exact Or.inl (Or.inl hflight)
    rcases hcases with ht | rfl
    · exact h.below x hx t ht
    · exact taken_lt h.inv hx
  pass := by
    have hkeep := fun k => ready_keep h.inv ha hmove (k := k)
    have hnew := fun k hk => (ready_new h.inv ha hmove (k := k) hk).imp_right And.left
    have hpass := h.pass
    unfold Pass at hpass ⊢
    dsimp only
    split <;> rename_i heq <;> rw [heq] at hpass
    · exact hpass.producer hkeep hnew
    · exact ⟨by rw [hkeep _ hpass.1]; exact hpass.1, hpass.2.producer hkeep hnew⟩
    · rename_i j
      have hj := (hpass.ready j _ rfl).1
      rw [hkeep j hj]
      exact hpass.producer hkeep hnew
    · trivial
    · trivial
    · trivial

/-- A step of the loop carries the selection on. -/
theorem pass_consume {s : State L} (h : Ahead s) (hwin : Window s) : Pass s.consume := by
  have hpass := h.pass
  have hlt := fun k hk => ready_lt h.inv (k := k) hk
  obtain ⟨q, calls, consumer, taken, fresh⟩ := s
  cases consumer with
  | idle | holding => trivial
  | check i =>
    by_cases hi : i < L.depth
    · by_cases hw : (q.slots ⟨i, hi⟩).state = .writing
      · simp only [State.consume, Consumer.step, dif_pos hi, if_pos hw]
        trivial
      · simp only [State.consume, Consumer.step, dif_pos hi, if_neg hw]
        trivial
    · simp only [State.consume, Consumer.step, dif_neg hi]
      exact selected_start q []
  | scan i oldest =>
    by_cases hi : i < L.depth
    · by_cases hr : (q.slots ⟨i, hi⟩).state = .ready
      · simp only [State.consume, Consumer.step, dif_pos hi, if_pos hr]
        exact ⟨hr, hpass⟩
      · simp only [State.consume, Consumer.step, dif_pos hi, if_neg hr]
        exact Selected.skip (i := ⟨i, hi⟩) hpass hr
    · simp only [State.consume, Consumer.step, dif_neg hi]
      cases oldest with
      | none => trivial
      | some best =>
        obtain ⟨j, seq⟩ := best
        have hseq : seq = (q.slots j).sequence := (hpass.ready j seq rfl).2
        subst hseq
        exact ⟨hpass.ready, fun k hk => hpass.least k (by omega)⟩
  | load i oldest => exact hpass.2.consider hpass.1 hlt hwin
  | exchange j =>
    have hr := (hpass.ready j _ rfl).1
    simp only [State.consume, Consumer.step, if_pos hr]
    trivial

/-- An exchange that overtakes nothing takes the smallest outstanding number. -/
theorem exchange_least {s : State L} (h : Ahead s) (hok : Unovertaken s .consumer)
    {j : Fin L.depth} (hc : s.consumer = .exchange j) {t : Nat} (ht : Outstanding s t)
    (hne : t ≠ (s.queue.slots j).ticket) : (s.queue.slots j).ticket < t := by
  obtain ⟨hflight, hfresh⟩ := hok j hc
  rcases ht with ht | ⟨k, hk, rfl⟩
  · have := hflight t ht
    omega
  · have hpass := h.pass
    rw [Pass, hc] at hpass
    by_cases hk' : (s.queue.slots k).ticket ∈ s.fresh
    · have := hfresh _ hk'
      omega
    · obtain ⟨b, seq, hb, hle⟩ := hpass.least k k.isLt hk hk'
      cases hb
      omega

theorem ahead_consumer {s : State L} (h : Ahead s) (hwin : Window s)
    (hok : Unovertaken s .consumer) : Ahead s.consume := by
  have hpass := pass_consume h hwin
  have hinv := inv_consumer h.inv (consume_cases s)
  have hmove := consume_cases s
  generalize s.consume = t at hpass hinv hmove
  cases hmove with
  | quiet c fresh => exact ⟨hinv, h.sorted, h.below, hpass⟩
  | take j hc hready =>
    have hold : ∀ x ∈ s.taken.map Prod.fst, x < (s.queue.slots j).ticket := fun x hx =>
      h.below x hx _ (Or.inr ⟨j, hready, rfl⟩)
    have hrest : ∀ t, Outstanding { s with queue := s.queue.markReading j } t →
        Outstanding s t ∧ t ≠ (s.queue.slots j).ticket := by
      rintro t (ht | ⟨k, hk, rfl⟩)
      · exact ⟨Or.inl ht, inFlight_ne_ready h.inv ht hready⟩
      · by_cases hkj : k = j
        · subst hkj
          rw [Queue.markReading, Queue.modify_self] at hk
          cases hk
        · rw [Queue.markReading, Queue.modify_ne _ _ hkj] at hk ⊢
          exact ⟨Or.inr ⟨k, hk, rfl⟩, fun heq => hkj (ready_inj h.inv hk hready heq)⟩
    refine ⟨hinv, ?_, fun x hx t ht => ?_, hpass⟩
    · rw [List.map_append, List.pairwise_append]
      refine ⟨h.sorted, List.pairwise_singleton _ _, fun x hx y hy => ?_⟩
      cases List.mem_singleton.mp hy
      exact hold x hx
    · obtain ⟨hout, hne⟩ := hrest t ht
      rw [List.map_append, List.mem_append] at hx
      rcases hx with hx | hx
      · exact h.below x hx t hout
      · cases List.mem_singleton.mp hx
        exact exchange_least h hok hc hout hne
  | release j hc =>
    refine ⟨hinv, h.sorted, fun x hx t ht => h.below x hx t (ht.imp_right ?_), hpass⟩
    rintro ⟨k, hk, rfl⟩
    by_cases hkj : k = j
    · subst hkj
      rw [Queue.release, Queue.modify_self] at hk
      cases hk
    · rw [Queue.release, Queue.modify_ne _ _ hkj] at hk ⊢
      exact ⟨k, hk, rfl⟩

theorem ahead_step {s t : State L} {act : Action L} (h : Ahead s) (hok : InOrder s act)
    (hs : step s act = some t) : Ahead t := by
  cases act with
  | call e =>
    cases hs
    exact ahead_call h e
  | producer a =>
    obtain ⟨c, ha, hs⟩ := Option.bind_eq_some_iff.mp hs
    obtain ⟨⟨q', c'⟩, hstep, hs⟩ := Option.bind_eq_some_iff.mp hs
    cases hs
    exact ahead_producer h ha (Call.step_cases hstep)
  | consumer =>
    cases hs
    exact ahead_consumer h hok.1 hok.2

/-! ## §4 Main results -/

theorem Ahead.ordered {s : State L} (h : Ahead s) : Ordered s := by
  refine h.sorted.imp fun {a b} hab => ⟨hab, fun hwin => ?_⟩
  exact (SerialNumber.before_ofNat (by omega) hwin).mpr hab

/-- **In order unless overtaken.** In every run whose exchanges overtake
neither a call in flight nor a call that published during the selection
loop, the deliveries of each of the four queues are in allocation order. -/
theorem deliveries_ordered (sys : RadioSys) (k : QueueKind) {as : List (Action (k.layout sys))}
    {s : State (k.layout sys)} (h : Steps step InOrder (init (k.layout sys)) as s) : Ordered s :=
  (h.invariant (ahead_init _) fun _ _ _ hI hok hs => ahead_step hI hok hs).ordered

/-- Two calls side by side, and two more that publish and allocate while the
second event is selected: the four numbers are delivered in order. -/
theorem deliveries_ordered_overlapping :
    ∃ s : State (QueueKind.externalAuth.layout ⟨2304, 1⟩),
      Steps step InOrder (init _) (overlappingRun ⟨2304, 1⟩) s ∧
        s.taken.map Prod.fst = [0, 1, 2, 3] ∧ Ordered s := by
  have hrun : (run (guarded step InOrder) (init _) (overlappingRun ⟨2304, 1⟩)).map
      (fun s => s.taken.map Prod.fst) = some [0, 1, 2, 3] := by decide +kernel
  obtain ⟨s, hs, htaken⟩ := Option.map_eq_some_iff.mp hrun
  have hsteps := Steps.of_run_guarded hs
  exact ⟨s, hsteps, htaken, deliveries_ordered ⟨2304, 1⟩ .externalAuth hsteps⟩

/-- A call is preempted after `fetch_add`; the next one overtakes it. -/
def overtakingRun (sys : RadioSys) : List (Action (externalAuthQueue sys)) :=
  [.call (sampleTrigger 10), .producer 0, .call (sampleTrigger 11)] ++ List.replicate 5 (.producer 1) ++
    List.replicate 10 .consumer ++ List.replicate 4 (.producer 0) ++ List.replicate 9 .consumer

/-- Number 1 is delivered before number 0. -/
theorem deliveries_overtaken :
    ¬ ∀ (sys : RadioSys) (k : QueueKind) (s : State (k.layout sys)),
      Reachable step (init (k.layout sys)) s → s.queue.nextSequence < 2 ^ 31 → Ordered s := by
  intro h
  have hrun : (run step (init _) (overtakingRun ⟨2304, 1⟩)).map
      (fun s => (s.queue.nextSequence, s.taken.map Prod.fst)) = some (2, [1, 0]) := by
    decide +kernel
  obtain ⟨s, hs, hlast⟩ := Option.map_eq_some_iff.mp hrun
  obtain ⟨hnext, htaken⟩ := Prod.mk.inj hlast
  have hordered := h ⟨2304, 1⟩ .externalAuth s ⟨_, Steps.of_run hs⟩ (by rw [hnext]; decide)
  change (s.taken.map Prod.fst).Pairwise _ at hordered
  rw [htaken] at hordered
  exact absurd (List.rel_of_pairwise_cons hordered (List.mem_singleton_self 0)).1 (by decide)

end HisiRiscv.Supplicant.Interleaved
