/-
HisiRiscv.Supplicant.InterleavedTheorems — the slot queues lose, duplicate
and tear nothing.

`Inv` ties the slot states, the cells and the program counters together:
WRITING slots are exactly the slots owned by calls, the READING slot is
the one whose guard is alive, a call's slot holds the writes it has done
so far, and the events of the calls that returned true are those delivered
together with those stored. Every step keeps it, because a call only
writes a slot it owns and the consumer only a slot that is READY or its
own. §7 draws the consequences for the four queues.

  §1 What one step can do.
  §2 Sequence numbers.
  §3 Ownership and contents.
  §4 The conservation law.
  §5 Stored and delivered numbers.
  §6 A pass over the slots.
  §7 Main results.
-/
import HisiRiscv.Supplicant.Interleaved
import HisiRiscv.Supplicant.SlotsTheorems

namespace HisiRiscv.Supplicant

open HisiRiscv.Machine HisiRiscv.Ledger
open scoped List

variable {L : Layout}

/-! ## §1 What one step can do -/

/-- Every step of a call, with its guard. -/
inductive CallMove (q : Queue L) : Call L → Queue L → Call L → Prop
  | reject {e} (h : L.accepts e = false) :
      CallMove q (.start e) q.bumpDropped (.returned e none false)
  | allocate {e} (h : L.accepts e = true) :
      CallMove q (.start e) q.bumpSequence (.claim e q.nextSequence 0)
  | skip {e t i} : CallMove q (.claim e t i) q (.claim e t (i + 1))
  | full {e t i} : CallMove q (.claim e t i) q.bumpDropped (.returned e (some t) false)
  | own {e t} (i : Fin L.depth) (h : (q.slots i).state = .free) :
      CallMove q (.claim e t i) (q.modify i fun slot => { slot with state := .writing })
        (.write e t i (L.writes e))
  | copy {e t i w rest} :
      CallMove q (.write e t i (w :: rest))
        (q.modify i fun slot => { slot with cells := w slot.cells }) (.write e t i rest)
  | number {e t i} :
      CallMove q (.write e t i []) (q.modify i fun slot => { slot with ticket := t })
        (.publish e t i)
  | publish {e t i} :
      CallMove q (.publish e t i) (q.modify i fun slot => { slot with state := .ready })
        (.returned e (some t) true)

theorem Call.step_cases {q q' : Queue L} {c c' : Call L} (h : c.step q = some (q', c')) :
    CallMove q c q' c' := by
  cases c with
  | start e =>
    by_cases hacc : L.accepts e = true
    · rw [Call.step, if_pos hacc] at h
      cases h
      exact .allocate hacc
    · rw [Call.step, if_neg hacc] at h
      cases h
      exact .reject (Bool.eq_false_iff.mpr hacc)
  | claim e t i =>
    simp only [Call.step] at h
    split at h
    · rename_i hi
      split at h
      · cases h
        exact .own ⟨i, hi⟩ ‹_›
      · cases h
        exact .skip
    · cases h
      exact .full
  | write e t i rest =>
    cases rest with
    | nil =>
      cases h
      exact .number
    | cons w rest =>
      cases h
      exact .copy
  | publish e t i =>
    cases h
    exact .publish
  | returned e t ok => cases h

namespace Interleaved

/-- Every step of the consumer, as far as the queue and the deliveries are
concerned. -/
inductive ConsumerMove (s : State L) : State L → Prop
  | quiet (c : Consumer L.depth) (fresh : List Nat) (h : s.consumer.slot? = none)
      (h' : c.slot? = none) : ConsumerMove s { s with consumer := c, fresh := fresh }
  | take (j : Fin L.depth) (h : s.consumer = .exchange j) (hready : (s.queue.slots j).state = .ready) :
      ConsumerMove s
        { s with
          queue := s.queue.markReading j
          consumer := .holding j
          taken := s.taken ++ [((s.queue.slots j).ticket, (s.queue.slots j).cells)] }
  | release (j : Fin L.depth) (h : s.consumer = .holding j) :
      ConsumerMove s { s with queue := s.queue.release j, consumer := .idle }

theorem consume_cases (s : State L) : ConsumerMove s s.consume := by
  obtain ⟨q, calls, consumer, taken, fresh⟩ := s
  cases consumer with
  | idle => exact .quiet (.check 0) fresh rfl rfl
  | check i =>
    by_cases hi : i < L.depth
    · by_cases hw : (q.slots ⟨i, hi⟩).state = .writing
      · simp only [State.consume, Consumer.step, dif_pos hi, if_pos hw]
        exact .quiet .idle fresh rfl rfl
      · simp only [State.consume, Consumer.step, dif_pos hi, if_neg hw]
        exact .quiet (.check (i + 1)) fresh rfl rfl
    · simp only [State.consume, Consumer.step, dif_neg hi]
      exact .quiet (.scan 0 none) [] rfl rfl
  | scan i oldest =>
    by_cases hi : i < L.depth
    · by_cases hr : (q.slots ⟨i, hi⟩).state = .ready
      · simp only [State.consume, Consumer.step, dif_pos hi, if_pos hr]
        exact .quiet (.load ⟨i, hi⟩ oldest) fresh rfl rfl
      · simp only [State.consume, Consumer.step, dif_pos hi, if_neg hr]
        exact .quiet (.scan (i + 1) oldest) fresh rfl rfl
    · simp only [State.consume, Consumer.step, dif_neg hi]
      cases oldest with
      | none => exact .quiet .idle fresh rfl rfl
      | some best => exact .quiet (.exchange best.1) fresh rfl rfl
  | load i oldest => exact .quiet (.scan (i + 1) _) fresh rfl rfl
  | exchange j =>
    by_cases hr : (q.slots j).state = .ready
    · simp only [State.consume, Consumer.step, if_pos hr]
      exact .take j rfl hr
    · simp only [State.consume, Consumer.step, if_neg hr]
      exact .quiet .idle fresh rfl rfl
  | holding j => exact .release j rfl

end Interleaved

/-! ## §2 Sequence numbers -/

/-- A call allocates the next number once and keeps it. -/
theorem CallMove.ticket {q q' : Queue L} {c c' : Call L} (h : CallMove q c q' c') :
    c.ticket? = none ∧ c'.ticket? = some q.nextSequence ∧
        q'.nextSequence = q.nextSequence + 1 ∨
      c'.ticket? = c.ticket? ∧ q'.nextSequence = q.nextSequence := by
  cases h with
  | allocate => exact Or.inl ⟨rfl, rfl, rfl⟩
  | _ => exact Or.inr ⟨rfl, rfl⟩

/-! ## §3 Ownership and contents -/

/-- What a call does to the slots: it takes a FREE one, works on its own, or
publishes its own. -/
theorem CallMove.slots {q q' : Queue L} {c c' : Call L} (h : CallMove q c q' c') :
    (∃ i, c.slot? = none ∧ c'.slot? = some i ∧ (q.slots i).state = .free ∧
        q' = q.modify i fun slot => { slot with state := .writing }) ∨
      (c'.slot? = c.slot? ∧ (∀ j, (q'.slots j).state = (q.slots j).state) ∧
        ∀ j, c.slot? ≠ some j → q'.slots j = q.slots j) ∨
      ∃ i, c.slot? = some i ∧ c'.slot? = none ∧
        q' = q.modify i fun slot => { slot with state := .ready } := by
  cases h with
  | reject | allocate | skip | full => exact Or.inr (Or.inl ⟨rfl, fun _ => rfl, fun _ _ => rfl⟩)
  | own i hfree => exact Or.inl ⟨i, rfl, rfl, hfree, rfl⟩
  | publish => exact Or.inr (Or.inr ⟨_, rfl, rfl, rfl⟩)
  | copy | number =>
    refine Or.inr (Or.inl ⟨rfl, fun j => ?_, fun j hj => ?_⟩)
    · rw [Queue.modify_slots]
      split
      · rename_i hji
        rw [hji]
      · rfl
    · exact Queue.modify_ne _ _ fun hji => hj (congrArg some hji.symm)

/-- A call only changes FREE slots and its own. -/
theorem CallMove.frame {q q' : Queue L} {c c' : Call L} (h : CallMove q c q' c') {j : Fin L.depth}
    (hj : c.slot? ≠ some j) (hfree : (q.slots j).state ≠ .free) : q'.slots j = q.slots j := by
  rcases h.slots with ⟨i, -, -, hi, rfl⟩ | ⟨-, -, hframe⟩ | ⟨i, hi, -, rfl⟩
  · exact Queue.modify_ne _ _ fun hji => hfree (hji ▸ hi)
  · exact hframe j hj
  · exact Queue.modify_ne _ _ fun hji => hj (hji ▸ hi)

/-- What is already in the slot of a call. -/
def Call.Progress (q : Queue L) : Call L → Prop
  | start _ | returned _ _ _ => True
  | claim e _ _ => L.accepts e = true
  | write e _ i rest =>
      L.accepts e = true ∧
        ∃ done c, L.writes e = done ++ rest ∧ (q.slots i).cells = applyWrites done c
  | publish e t i =>
      L.accepts e = true ∧ (q.slots i).ticket = t ∧
        ∃ c, (q.slots i).cells = applyWrites (L.writes e) c

theorem Call.Progress.congr {q q' : Queue L} {c : Call L} (hc : c.Progress q)
    (h : ∀ j, c.slot? = some j → q'.slots j = q.slots j) : c.Progress q' := by
  cases c with
  | start | returned => trivial
  | claim => exact hc
  | write e t i rest =>
    rw [Progress, h i rfl]
    exact hc
  | publish e t i =>
    rw [Progress, h i rfl]
    exact hc

/-- The next write of a call continues the copy. -/
theorem CallMove.progress {q q' : Queue L} {c c' : Call L} (h : CallMove q c q' c')
    (hc : c.Progress q) : c'.Progress q' := by
  cases h with
  | reject | full | publish => trivial
  | allocate hacc => exact hacc
  | skip => exact hc
  | own i => exact ⟨hc, [], (q.slots i).cells, rfl, by simp [applyWrites]⟩
  | copy =>
    obtain ⟨hacc, done, c, hsplit, hcells⟩ := hc
    refine ⟨hacc, done ++ [_], c, by rw [hsplit, List.append_assoc]; rfl, ?_⟩
    rw [Queue.modify_self, applyWrites_append, ← hcells]
    rfl
  | number =>
    obtain ⟨hacc, done, c, hsplit, hcells⟩ := hc
    rw [List.append_nil] at hsplit
    refine ⟨hacc, by rw [Queue.modify_self], c, ?_⟩
    rw [Queue.modify_self, hsplit]
    exact hcells

/-! ## §4 The conservation law -/

/-- A call stores its event exactly when it returns true. -/
theorem CallMove.ledger {q q' : Queue L} {c c' : Call L} (h : CallMove q c q' c')
    (hown : ∀ i, c.slot? = some i → (q.slots i).state = .writing) (hc : c.Progress q) :
    (c'.accepted? = c.accepted? ∧ q'.stored = q.stored) ∨
      ∃ x, c.accepted? = none ∧ c'.accepted? = some x ∧ q'.stored.Perm (x :: q.stored) := by
  cases h with
  | reject | allocate | skip | full => exact Or.inl ⟨rfl, rfl⟩
  | own i hfree =>
    refine Or.inl ⟨rfl, Queue.stored_modify_eq ?_⟩
    rw [Queue.entry_eq_none (by simp), Queue.entry_eq_none (by simp [hfree])]
  | copy | number =>
    have hw := hown _ rfl
    refine Or.inl ⟨rfl, Queue.stored_modify_eq ?_⟩
    rw [Queue.entry_eq_none (by simp [hw]), Queue.entry_eq_none (by simp [hw])]
  | publish =>
    rename_i e t i
    obtain ⟨hacc, hticket, c, hcells⟩ := hc
    refine Or.inr ⟨(t, e), rfl, rfl, Queue.stored_modify_insert ?_ ?_⟩
    · exact Queue.entry_eq_none (by simp [hown i rfl])
    · rw [Queue.entry_eq_some rfl, hticket, hcells, L.read_writes e c hacc]

/-- A call counts itself as dropped exactly when it returns false. -/
theorem CallMove.dropped {q q' : Queue L} {c c' : Call L} (h : CallMove q c q' c') :
    (c'.refused = c.refused ∧ q'.dropped = q.dropped) ∨
      (c.refused = false ∧ c'.refused = true ∧ q'.dropped = q.dropped + 1) := by
  cases h with
  | reject | full => exact Or.inr ⟨rfl, rfl, rfl⟩
  | _ => exact Or.inl ⟨rfl, rfl⟩

/-- A call that owns a slot, or has published it. -/
def Call.Claimed (c : Call L) : Prop := c.slot?.isSome ∨ c.accepted?.isSome

theorem CallMove.claimed {q q' : Queue L} {c c' : Call L} (h : CallMove q c q' c')
    (hc : Call.Claimed c) : Call.Claimed c' := by
  cases h with
  | reject | allocate | skip | full =>
    rcases hc with hc | hc <;> cases hc
  | own | copy | number => exact Or.inl rfl
  | publish => exact Or.inr rfl

namespace Interleaved

/-- The invariant of the machine. -/
structure Inv (s : State L) : Prop where
  /-- every call has a number of its own -/
  tickets_nodup : s.tickets.Nodup
  tickets_lt : ∀ t ∈ s.tickets, t < s.queue.nextSequence
  /-- no two calls own the same slot -/
  owned_nodup : s.owned.Nodup
  /-- the WRITING slots are those owned by calls -/
  writing_iff : ∀ i, (s.queue.slots i).state = .writing ↔ i ∈ s.owned
  /-- the READING slot is the one whose guard is alive -/
  reading_iff : ∀ i, (s.queue.slots i).state = .reading ↔ s.consumer.slot? = some i
  /-- the slot of a call holds the writes done so far -/
  progress : ∀ (a : Nat) (c : Call L), s.calls[a]? = some c → c.Progress s.queue
  /-- the slot of a live guard is as the exchange found it -/
  held : ∀ j, s.consumer.slot? = some j →
    s.taken.getLast? = some ((s.queue.slots j).ticket, (s.queue.slots j).cells)
  /-- what was accepted was delivered or is stored -/
  conserved : s.accepted.Perm (s.delivered ++ s.queue.stored)
  /-- the drop counter counts the calls that returned false -/
  counted : s.queue.dropped = UInt32.ofNat s.refusals

theorem Inv.writing_of_slot {s : State L} (hinv : Inv s) {a : Nat} {c : Call L} {i : Fin L.depth}
    (ha : s.calls[a]? = some c) (hi : c.slot? = some i) : (s.queue.slots i).state = .writing :=
  (hinv.writing_iff i).mpr (List.mem_filterMap.mpr ⟨c, List.mem_of_getElem? ha, hi⟩)

theorem inv_init (L : Layout) : Inv (init L) where
  tickets_nodup := List.nodup_nil
  tickets_lt := fun _ h => nomatch h
  owned_nodup := List.nodup_nil
  writing_iff := fun _ => ⟨nofun, nofun⟩
  reading_iff := fun _ => ⟨nofun, nofun⟩
  progress := fun _ _ h => nomatch h
  held := fun _ h => nomatch h
  conserved := by
    change List.Perm [] ([] ++ (Queue.new L).stored)
    rw [Queue.stored_eq_nil (by simp [Queue.new]), List.append_nil]
  counted := rfl

/-- A call that starts changes nothing else. -/
theorem inv_call {s : State L} (hinv : Inv s) (e : L.Event) :
    Inv { s with calls := s.calls ++ [.start e] } := by
  have hnone : ∀ {β : Type} (f : Call L → Option β), f (Call.start e) = none →
      (s.calls ++ [Call.start e]).filterMap f = s.calls.filterMap f := by
    intro β f hf
    rw [List.filterMap_append, List.filterMap_cons_none hf, List.filterMap_nil, List.append_nil]
  constructor
  · rw [State.tickets, hnone _ rfl]
    exact hinv.tickets_nodup
  · rw [State.tickets, hnone _ rfl]
    exact hinv.tickets_lt
  · rw [State.owned, hnone _ rfl]
    exact hinv.owned_nodup
  · intro i
    rw [State.owned, hnone Call.slot? rfl]
    exact hinv.writing_iff i
  · exact hinv.reading_iff
  · intro a c hc
    rw [List.getElem?_append] at hc
    split at hc
    · exact hinv.progress a c hc
    · rw [List.getElem?_singleton] at hc
      split at hc
      · cases hc
        trivial
      · cases hc
  · exact hinv.held
  · rw [State.accepted, hnone Call.accepted? rfl]
    exact hinv.conserved
  · rw [State.refusals, List.countP_append]
    exact hinv.counted

section Producer

variable {s : State L} {a : Nat} {c c' : Call L} {q' : Queue L}

theorem tickets_producer (hinv : Inv s) (ha : s.calls[a]? = some c)
    (hmove : CallMove s.queue c q' c') :
    ((s.calls.set a c').filterMap Call.ticket?).Nodup ∧
      ∀ t ∈ (s.calls.set a c').filterMap Call.ticket?, t < q'.nextSequence := by
  rcases hmove.ticket with ⟨hc, hc', hseq⟩ | ⟨hc, hseq⟩
  · have hperm := filterMap_set_insert Call.ticket? ha hc hc'
    have hnew : s.queue.nextSequence ∉ s.tickets := fun h => Nat.lt_irrefl _ (hinv.tickets_lt _ h)
    refine ⟨hperm.nodup_iff.mpr (List.nodup_cons.mpr ⟨hnew, hinv.tickets_nodup⟩), fun t ht => ?_⟩
    rcases List.mem_cons.mp (hperm.mem_iff.mp ht) with rfl | hold
    · omega
    · have := hinv.tickets_lt t hold
      omega
  · rw [filterMap_set_eq Call.ticket? ha hc, hseq]
    exact ⟨hinv.tickets_nodup, hinv.tickets_lt⟩

/-- Another call's slot is not touched. -/
theorem frame_producer (hinv : Inv s) (ha : s.calls[a]? = some c)
    (hmove : CallMove s.queue c q' c') {b : Nat} {d : Call L} (hab : b ≠ a)
    (hb : s.calls[b]? = some d) {j : Fin L.depth} (hj : d.slot? = some j) :
    q'.slots j = s.queue.slots j := by
  refine hmove.frame (fun hcj => hab ?_) (by rw [hinv.writing_of_slot hb hj]; decide)
  exact index_unique Call.slot? hinv.owned_nodup hb ha hj hcj

theorem owned_producer (hinv : Inv s) (ha : s.calls[a]? = some c)
    (hmove : CallMove s.queue c q' c') :
    ((s.calls.set a c').filterMap Call.slot?).Nodup ∧
      ∀ i, (q'.slots i).state = .writing ↔ i ∈ (s.calls.set a c').filterMap Call.slot? := by
  rcases hmove.slots with ⟨k, hc, hc', hfree, rfl⟩ | ⟨hc, hstate, -⟩ | ⟨k, hc, hc', rfl⟩
  · have hperm := filterMap_set_insert Call.slot? ha hc hc'
    have hnew : k ∉ s.owned := by
      rw [← hinv.writing_iff, hfree]
      decide
    refine ⟨hperm.nodup_iff.mpr (List.nodup_cons.mpr ⟨hnew, hinv.owned_nodup⟩), fun i => ?_⟩
    rw [hperm.mem_iff, List.mem_cons, Queue.modify_slots]
    by_cases hik : i = k
    · simp [hik]
    · rw [if_neg hik, hinv.writing_iff i]
      exact ⟨Or.inr, fun h => h.resolve_left hik⟩
  · rw [filterMap_set_eq Call.slot? ha hc]
    refine ⟨hinv.owned_nodup, fun i => ?_⟩
    rw [hstate i]
    exact hinv.writing_iff i
  · have hperm := filterMap_set_erase Call.slot? ha hc hc'
    have hnd := List.nodup_cons.mp (hperm.nodup_iff.mp hinv.owned_nodup)
    refine ⟨hnd.2, fun i => ?_⟩
    rw [Queue.modify_slots]
    by_cases hik : i = k
    · subst hik
      simp [hnd.1]
    · rw [if_neg hik, hinv.writing_iff i, State.owned, hperm.mem_iff, List.mem_cons]
      exact ⟨fun h => h.resolve_left hik, Or.inr⟩

theorem reading_producer (hinv : Inv s) (ha : s.calls[a]? = some c)
    (hmove : CallMove s.queue c q' c') (i : Fin L.depth) :
    (q'.slots i).state = .reading ↔ s.consumer.slot? = some i := by
  rw [← hinv.reading_iff i]
  rcases hmove.slots with ⟨k, -, -, hfree, rfl⟩ | ⟨-, hstate, -⟩ | ⟨k, hc, -, rfl⟩
  · rw [Queue.modify_slots]
    split
    · rename_i hik
      simp [hik, hfree]
    · rfl
  · rw [hstate i]
  · rw [Queue.modify_slots]
    split
    · rename_i hik
      simp [hik, hinv.writing_of_slot ha hc]
    · rfl

theorem inv_producer (hinv : Inv s) (ha : s.calls[a]? = some c) (hmove : CallMove s.queue c q' c')
    (fresh : List Nat) : Inv { s with queue := q', calls := s.calls.set a c', fresh := fresh } := by
  have hreading : ∀ j, s.consumer.slot? = some j → q'.slots j = s.queue.slots j := by
    intro j hj
    have hr := (hinv.reading_iff j).mpr hj
    refine hmove.frame (fun hcj => ?_) (by rw [hr]; decide)
    rw [hinv.writing_of_slot ha hcj] at hr
    cases hr
  constructor
  · exact (tickets_producer hinv ha hmove).1
  · exact (tickets_producer hinv ha hmove).2
  · exact (owned_producer hinv ha hmove).1
  · exact (owned_producer hinv ha hmove).2
  · exact fun i => reading_producer hinv ha hmove i
  · intro b d hb
    rcases getElem?_set_cases hb with ⟨-, rfl⟩ | ⟨hba, hb⟩
    · exact hmove.progress (hinv.progress a c ha)
    · exact (hinv.progress b d hb).congr fun j hj => frame_producer hinv ha hmove hba hb hj
  · intro j hj
    rw [hreading j hj]
    exact hinv.held j hj
  · change ((s.calls.set a c').filterMap Call.accepted?).Perm (s.delivered ++ q'.stored)
    rcases hmove.ledger (fun i => hinv.writing_of_slot ha) (hinv.progress a c ha) with
      ⟨hc, hstored⟩ | ⟨x, hc, hc', hstored⟩
    · rw [filterMap_set_eq Call.accepted? ha hc, hstored]
      exact hinv.conserved
    · calc (s.calls.set a c').filterMap Call.accepted?
        _ ~ x :: s.accepted := filterMap_set_insert Call.accepted? ha hc hc'
        _ ~ x :: (s.delivered ++ s.queue.stored) := hinv.conserved.cons x
        _ ~ s.delivered ++ x :: s.queue.stored := List.perm_middle.symm
        _ ~ s.delivered ++ q'.stored := hstored.symm.append_left _
  · change q'.dropped = UInt32.ofNat ((s.calls.set a c').countP Call.refused)
    rcases hmove.dropped with ⟨hc, hdropped⟩ | ⟨hc, hc', hdropped⟩
    · rw [hdropped, countP_set_eq Call.refused ha hc]
      exact hinv.counted
    · rw [hdropped, countP_set_insert Call.refused ha hc hc', hinv.counted, UInt32.ofNat_add]
      rfl

end Producer

section Consumer

variable {s t : State L}

/-- Relabelling a slot that is not WRITING concerns no call. -/
theorem writing_relabel (hinv : Inv s) (j : Fin L.depth) (st : SlotState)
    (hj : (s.queue.slots j).state ≠ .writing) (hst : st ≠ .writing) (i : Fin L.depth) :
    ((s.queue.modify j fun slot => { slot with state := st }).slots i).state = .writing ↔
      i ∈ s.owned := by
  rw [Queue.modify_slots]
  split
  · rename_i hij
    rw [hij, ← hinv.writing_iff j]
    exact ⟨fun h => absurd h hst, fun h => absurd h hj⟩
  · exact hinv.writing_iff i

theorem progress_relabel (hinv : Inv s) (j : Fin L.depth) (st : SlotState)
    (hj : (s.queue.slots j).state ≠ .writing) (a : Nat) (d : Call L)
    (hd : s.calls[a]? = some d) :
    d.Progress (s.queue.modify j fun slot => { slot with state := st }) := by
  refine (hinv.progress a d hd).congr fun k hk => Queue.modify_ne _ _ fun hkj => hj ?_
  rw [← hkj]
  exact hinv.writing_of_slot hd hk

theorem inv_consumer (hinv : Inv s) (h : ConsumerMove s t) : Inv t := by
  cases h with
  | quiet c fresh hc hc' =>
    refine { hinv with reading_iff := fun i => ?_, held := fun j hj => ?_ }
    · rw [hinv.reading_iff i, hc, hc']
    · rw [hc'] at hj
      cases hj
  | take j hc hready =>
    refine { hinv with
      writing_iff := writing_relabel hinv j .reading (by simp [hready]) (by simp)
      progress := progress_relabel hinv j .reading (by simp [hready])
      reading_iff := fun i => ?_, held := fun k hk => ?_, conserved := ?_ }
    · rw [Queue.markReading, Queue.modify_slots]
      by_cases hij : i = j
      · simp [hij, Consumer.slot?]
      · have hnot := hinv.reading_iff i
        rw [hc] at hnot
        simp [hij, hnot, Consumer.slot?, Ne.symm hij]
    · rw [Consumer.slot?, Option.some_inj] at hk
      rw [List.getLast?_concat, ← hk, Queue.markReading, Queue.modify_self]
    · calc s.accepted
        _ ~ s.delivered ++ s.queue.stored := hinv.conserved
        _ ~ s.delivered ++ ((s.queue.slots j).ticket, s.queue.payload j) ::
              (s.queue.markReading j).stored := (Queue.stored_markReading hready).append_left _
        _ = _ := by rw [State.delivered, State.delivered, List.map_append, List.append_assoc]; rfl
  | release j hc =>
    have hr := (hinv.reading_iff j).mpr (by rw [hc]; rfl)
    refine { hinv with
      writing_iff := writing_relabel hinv j .free (by simp [hr]) (by simp)
      progress := progress_relabel hinv j .free (by simp [hr])
      reading_iff := fun i => ?_, held := nofun, conserved := ?_ }
    · rw [Queue.release, Queue.modify_slots]
      have hnot := hinv.reading_iff i
      rw [hc] at hnot
      by_cases hij : i = j
      · simp [hij, Consumer.slot?]
      · simp [hij, hnot, Consumer.slot?, Ne.symm hij]
    · change s.accepted ~ s.delivered ++ (s.queue.release j).stored
      rw [Queue.stored_release hr]
      exact hinv.conserved

end Consumer

/-- Every step keeps the invariant. -/
theorem inv_step {s t : State L} {act : Action L} (hinv : Inv s) (h : step s act = some t) :
    Inv t := by
  cases act with
  | call e =>
    cases h
    exact inv_call hinv e
  | producer a =>
    obtain ⟨c, ha, h⟩ := Option.bind_eq_some_iff.mp h
    obtain ⟨⟨q', c'⟩, hstep, h⟩ := Option.bind_eq_some_iff.mp h
    cases h
    exact inv_producer hinv ha (Call.step_cases hstep) _
  | consumer =>
    cases h
    exact inv_consumer hinv (consume_cases s)

theorem inv_reachable {s : State L} (h : Reachable step (init L) s) : Inv s :=
  h.invariant (inv_init L) fun _ _ _ hinv hs => inv_step hinv hs

/-! ## §5 Stored and delivered numbers -/

section Numbers

variable {s : State L} {a : Nat} {c c' : Call L} {q' : Queue L}

theorem accepted_nodup (hinv : Inv s) : (s.accepted.map Prod.fst).Nodup := by
  refine List.Nodup.sublist ?_ hinv.tickets_nodup
  rw [State.accepted, State.tickets, List.map_filterMap]
  generalize s.calls = calls
  induction calls with
  | nil => exact List.Sublist.slnil
  | cons c calls ih =>
    rw [List.filterMap_cons, List.filterMap_cons]
    cases c with
    | start => exact ih
    | claim | write | publish => exact ih.cons _
    | returned e t ok =>
      cases t with
      | none => exact ih
      | some t =>
        cases ok with
        | false => exact ih.cons _
        | true => exact ih.cons_cons _

/-- A READY slot holds the event of a call that returned true. -/
theorem ready_accepted (hinv : Inv s) {k : Fin L.depth} (hk : (s.queue.slots k).state = .ready) :
    ((s.queue.slots k).ticket, s.queue.payload k) ∈ s.accepted :=
  hinv.conserved.mem_iff.mpr (List.mem_append_right _ (Queue.mem_stored.mpr ⟨k, hk, rfl⟩))

theorem accepted_ticket {x : Nat × L.Event} (hx : c.accepted? = some x) : c.ticket? = some x.1 := by
  cases c with
  | returned e t ok =>
    cases t with
    | none => cases hx
    | some t =>
      cases ok with
      | false => cases hx
      | true =>
        cases hx
        rfl
  | _ => cases hx

theorem accepted_lt (hinv : Inv s) {x : Nat × L.Event} (hx : x ∈ s.accepted) :
    x.1 < s.queue.nextSequence := by
  obtain ⟨c, hc, hcx⟩ := List.mem_filterMap.mp hx
  exact hinv.tickets_lt _ (List.mem_filterMap.mpr ⟨c, hc, accepted_ticket hcx⟩)

theorem ready_lt (hinv : Inv s) {k : Fin L.depth} (hk : (s.queue.slots k).state = .ready) :
    (s.queue.slots k).ticket < s.queue.nextSequence :=
  accepted_lt hinv (ready_accepted hinv hk)

/-- A delivered number is that of a call that returned true. -/
theorem taken_accepted (hinv : Inv s) {t : Nat} (ht : t ∈ s.taken.map Prod.fst) :
    ∃ (a : Nat) (c : Call L) (x : Nat × L.Event),
      s.calls[a]? = some c ∧ c.accepted? = some x ∧ x.1 = t := by
  obtain ⟨y, hy, rfl⟩ := List.mem_map.mp ht
  have hdelivered : (y.1, L.read y.2) ∈ s.delivered := List.mem_map.mpr ⟨y, hy, rfl⟩
  obtain ⟨c, hc, hx⟩ := List.mem_filterMap.mp
    (hinv.conserved.mem_iff.mpr (List.mem_append_left _ hdelivered))
  obtain ⟨a, ha⟩ := List.mem_iff_getElem?.mp hc
  exact ⟨a, c, _, ha, hx, rfl⟩

theorem taken_lt (hinv : Inv s) {t : Nat} (ht : t ∈ s.taken.map Prod.fst) :
    t < s.queue.nextSequence := by
  obtain ⟨a, c, x, ha, hx, rfl⟩ := taken_accepted hinv ht
  exact accepted_lt hinv (List.mem_filterMap.mpr ⟨c, List.mem_of_getElem? ha, hx⟩)

/-- What is READY has not been delivered. -/
theorem ready_not_taken (hinv : Inv s) {k : Fin L.depth} (hk : (s.queue.slots k).state = .ready) :
    (s.queue.slots k).ticket ∉ s.taken.map Prod.fst := by
  intro hmem
  have hnd := (hinv.conserved.map Prod.fst).nodup_iff.mp (accepted_nodup hinv)
  rw [List.map_append] at hnd
  have hstored : (s.queue.slots k).ticket ∈ s.queue.stored.map Prod.fst :=
    List.mem_map.mpr ⟨_, Queue.mem_stored.mpr ⟨k, hk, rfl⟩, rfl⟩
  have hdelivered : (s.queue.slots k).ticket ∈ s.delivered.map Prod.fst := by
    rw [State.delivered, List.map_map]
    exact hmem
  exact (List.nodup_append.mp hnd).2.2 _ hdelivered _ hstored rfl

/-- No two READY slots have the same number. -/
theorem ready_inj (hinv : Inv s) {j k : Fin L.depth} (hj : (s.queue.slots j).state = .ready)
    (hk : (s.queue.slots k).state = .ready)
    (h : (s.queue.slots j).ticket = (s.queue.slots k).ticket) : j = k := by
  have hnd := (hinv.conserved.map Prod.fst).nodup_iff.mp (accepted_nodup hinv)
  rw [List.map_append, Queue.stored, List.map_filterMap] at hnd
  refine Fin.ext (index_unique _ (List.nodup_append.mp hnd).2.1 (getElem?_ofFn_fin s.queue.slots j)
    (getElem?_ofFn_fin s.queue.slots k) (b := (s.queue.slots j).ticket) ?_ ?_)
  · rw [Queue.entry_eq_some hj]
    rfl
  · rw [Queue.entry_eq_some hk, h]
    rfl

theorem ready_keep (hinv : Inv s) (ha : s.calls[a]? = some c) (hmove : CallMove s.queue c q' c')
    {k : Fin L.depth} (hk : (s.queue.slots k).state = .ready) : q'.slots k = s.queue.slots k := by
  refine hmove.frame (fun hck => ?_) (by rw [hk]; decide)
  rw [hinv.writing_of_slot ha hck] at hk
  cases hk

end Numbers

/-! ## §6 A pass over the slots -/

/-- The steps of the consumer that are left of its `take_oldest`, at most. -/
def remaining {n : Nat} : Consumer n → Nat
  | .idle | .holding _ => 0
  | .exchange _ => 1
  | .load i _ => 2 * (n - i) + 1
  | .scan i _ => 2 * (n - i) + 2
  | .check i => (n - i) + 2 * n + 3

/-- The WRITING check does not find a slot that is being written. -/
def SeesNoWriting (s : State L) : Action L → Prop
  | .consumer =>
      ∀ i h, s.consumer = .check i → (s.queue.slots ⟨i, h⟩).state ≠ .writing
  | .call _ | .producer _ => True

/-- Slot `k` is READY, and the pass has it ahead or has selected a slot. -/
def Finds (k : Fin L.depth) (s : State L) : Prop :=
  (s.queue.slots k).state = .ready ∧
    match s.consumer with
    | .idle | .holding _ => False
    | .check _ => True
    | .scan i oldest =>
        (∀ best, oldest = some best → (s.queue.slots best.1).state = .ready) ∧
          (k.val < i → oldest ≠ none)
    | .load i oldest =>
        (s.queue.slots i).state = .ready ∧
          ∀ best, oldest = some best → (s.queue.slots best.1).state = .ready
    | .exchange j => (s.queue.slots j).state = .ready

section Pass

variable {s t : State L} {k : Fin L.depth}

theorem consider_some (oldest : Option (Fin L.depth × UInt32)) (i : Fin L.depth) (sequence : UInt32) :
    ∃ best, Queue.consider oldest i sequence = some best ∧ (best.1 = i ∨ oldest = some best) := by
  cases oldest with
  | none => exact ⟨_, rfl, .inl rfl⟩
  | some best =>
    rw [Queue.consider]
    split
    · exact ⟨_, rfl, .inl rfl⟩
    · exact ⟨_, rfl, .inr rfl⟩

/-- The next step of the pass: it is one step shorter, or ends with a guard. -/
theorem finds_consume (h : Finds k s) (hok : SeesNoWriting s .consumer) :
    (Finds k s.consume ∧ s.consume.queue = s.queue ∧ s.consume.taken = s.taken ∧
        remaining s.consume.consumer < remaining s.consumer) ∨
      (∃ j, s.consume.consumer = .holding j) ∧ s.consume.taken.length = s.taken.length + 1 := by
  obtain ⟨q, calls, consumer, taken, fresh⟩ := s
  obtain ⟨hk, hpass⟩ := h
  cases consumer with
  | idle => exact hpass.elim
  | holding j => exact hpass.elim
  | check i =>
    refine .inl ?_
    by_cases hi : i < L.depth
    · simp only [State.consume, Consumer.step, dif_pos hi, if_neg (hok i hi rfl)]
      refine ⟨⟨hk, trivial⟩, trivial, trivial, ?_⟩
      simp only [remaining]
      omega
    · simp only [State.consume, Consumer.step, dif_neg hi]
      refine ⟨⟨hk, nofun, fun h => absurd h (Nat.not_lt_zero _)⟩, trivial, trivial, ?_⟩
      simp only [remaining]
      omega
  | scan i oldest =>
    obtain ⟨hready, hsome⟩ := hpass
    refine .inl ?_
    by_cases hi : i < L.depth
    · by_cases hr : (q.slots ⟨i, hi⟩).state = .ready
      · simp only [State.consume, Consumer.step, dif_pos hi, if_pos hr]
        refine ⟨⟨hk, hr, hready⟩, trivial, trivial, ?_⟩
        simp only [remaining]
        omega
      · simp only [State.consume, Consumer.step, dif_pos hi, if_neg hr]
        refine ⟨⟨hk, hready, fun hlt => hsome ?_⟩, trivial, trivial, ?_⟩
        · have hne : k.val ≠ i := fun heq => hr (by rwa [show (⟨i, hi⟩ : Fin L.depth) = k from Fin.ext heq.symm])
          omega
        · simp only [remaining]
          omega
    · simp only [State.consume, Consumer.step, dif_neg hi]
      cases oldest with
      | none => exact absurd rfl (hsome (by have := k.isLt; omega))
      | some best =>
        refine ⟨⟨hk, hready best rfl⟩, rfl, rfl, ?_⟩
        simp only [remaining]
        omega
  | load i oldest =>
    obtain ⟨hi, hready⟩ := hpass
    obtain ⟨best, hbest, hcases⟩ := consider_some oldest i (q.slots i).sequence
    refine .inl ?_
    simp only [State.consume, Consumer.step, hbest]
    refine ⟨⟨hk, fun b hb => ?_, nofun⟩, trivial, trivial, ?_⟩
    · cases hb
      rcases hcases with heq | heq
      · rw [heq]
        exact hi
      · exact hready _ heq
    · have := i.isLt
      simp only [remaining]
      omega
  | exchange j =>
    refine .inr ?_
    simp only [State.consume, Consumer.step, if_pos (show (q.slots j).state = .ready from hpass)]
    exact ⟨⟨j, rfl⟩, List.length_append⟩

/-- A call leaves READY slots alone. -/
theorem finds_producer (hinv : Inv s) {a : Nat} {c c' : Call L} {q' : Queue L} {fresh : List Nat}
    (ha : s.calls[a]? = some c) (hmove : CallMove s.queue c q' c') (h : Finds k s) :
    Finds k { s with queue := q', calls := s.calls.set a c', fresh := fresh } := by
  have hkeep : ∀ j, (s.queue.slots j).state = .ready → (q'.slots j).state = .ready := fun j hj => by
    rw [ready_keep hinv ha hmove hj]
    exact hj
  obtain ⟨hk, hpass⟩ := h
  refine ⟨hkeep k hk, ?_⟩
  cases hc : s.consumer with
  | idle => simp [hc] at hpass
  | holding j => simp [hc] at hpass
  | check i => trivial
  | scan i oldest =>
    rw [hc] at hpass
    exact ⟨fun best hb => hkeep _ (hpass.1 best hb), hpass.2⟩
  | load i oldest =>
    rw [hc] at hpass
    exact ⟨hkeep _ hpass.1, fun best hb => hkeep _ (hpass.2 best hb)⟩
  | exchange j =>
    rw [hc] at hpass
    exact hkeep j hpass

theorem taken_le_consume (s : State L) : s.taken.length ≤ s.consume.taken.length := by
  have hmove := consume_cases s
  generalize s.consume = t at hmove
  cases hmove with
  | take => simp
  | _ => exact Nat.le_refl _

/-- A pass that has a READY slot before it and meets no WRITING one ends with an
event, whatever the calls do in between. -/
theorem finds_run {as : List (Action L)} (h : Steps step SeesNoWriting s as t) (hinv : Inv s)
    (hs : Finds k s) : s.taken.length < t.taken.length ∨ Finds k t := by
  refine (h.invariant (I := fun u => Inv u ∧ s.taken.length ≤ u.taken.length ∧
    (s.taken.length < u.taken.length ∨ Finds k u)) ⟨hinv, Nat.le_refl _, .inr hs⟩ ?_).2.2
  rintro u act v ⟨hu, hle, hfinds⟩ hok hstep
  refine ⟨inv_step hu hstep, ?_⟩
  cases act with
  | call e =>
    cases hstep
    exact ⟨hle, hfinds⟩
  | producer a =>
    obtain ⟨c, ha, hstep⟩ := Option.bind_eq_some_iff.mp hstep
    obtain ⟨⟨q', c'⟩, hc, hstep⟩ := Option.bind_eq_some_iff.mp hstep
    cases hstep
    exact ⟨hle, hfinds.imp_right (finds_producer hu ha (Call.step_cases hc))⟩
  | consumer =>
    cases hstep
    have hmono := taken_le_consume u
    refine ⟨hle.trans hmono, ?_⟩
    rcases hfinds with hmore | hfinds
    · exact .inl (hmore.trans_le hmono)
    · rcases finds_consume hfinds hok with ⟨hnext, -⟩ | ⟨-, htaken⟩
      · exact .inr hnext
      · exact .inl (by omega)

/-- Left alone, the pass ends with a guard. -/
theorem finds_ends (hs : Finds k s) (hno : ∀ i, (s.queue.slots i).state ≠ .writing) :
    ∃ n j t, Steps step Always s (List.replicate n .consumer) t ∧ t.consumer = .holding j ∧
      t.taken.length = s.taken.length + 1 := by
  induction hn : remaining s.consumer using Nat.strong_induction_on generalizing s with
  | _ n ih =>
    rcases finds_consume hs (fun i h _ => hno ⟨i, h⟩) with ⟨hnext, hqueue, htaken, hlt⟩ | ⟨⟨j, hj⟩, htaken⟩
    · obtain ⟨m, j, t, hrun, hj, hlen⟩ := ih _ (hn ▸ hlt) hnext (by rw [hqueue]; exact hno) rfl
      exact ⟨m + 1, j, t, .cons trivial rfl hrun, hj, by rw [hlen, htaken]⟩
    · exact ⟨1, j, s.consume, .single trivial rfl, hj, htaken⟩

end Pass

/-! ## §7 Main results -/

/-- The actors of a queue. -/
inductive Actor where
  | producer (a : Nat)
  | consumer

/-- The actor owns slot `i`: a call while it writes, the consumer while its
guard is alive. -/
def Owns (s : State L) : Actor → Fin L.depth → Prop
  | .producer a, i => ∃ c, s.calls[a]? = some c ∧ c.slot? = some i
  | .consumer, i => s.consumer.slot? = some i

/-- Nothing is lost, duplicated or torn. -/
structure Exact (s : State L) : Prop where
  /-- a slot is WRITING or READING when somebody owns it -/
  owned_iff : ∀ i, ((s.queue.slots i).state = .writing ∨ (s.queue.slots i).state = .reading) ↔
    ∃ x, Owns s x i
  /-- and then it is owned by one actor -/
  exclusive : ∀ i x y, Owns s x i → Owns s y i → x = y
  /-- the calls that returned true have numbers of their own -/
  distinct : (s.accepted.map Prod.fst).Nodup
  /-- each of their events was delivered or is stored, once and as enqueued -/
  conserved : s.accepted ~ s.delivered ++ s.queue.stored
  /-- as long as a guard is alive its slot is what `take_oldest` found -/
  held : ∀ j, s.consumer = .holding j →
    s.taken.getLast? = some ((s.queue.slots j).ticket, (s.queue.slots j).cells)
  /-- each call that returned false added one to `dropped` -/
  counted : s.queue.dropped = UInt32.ofNat s.refusals
  /-- and never owned a slot -/
  refused : ∀ {as : List (Action L)} {t : State L}, Steps step Always s as t →
    ∀ (a : Nat) (c d : Call L), s.calls[a]? = some c → c.slot?.isSome → t.calls[a]? = some d →
      d.refused = false
  stored_le : s.queue.stored.length ≤ L.depth
  /-- a `take_oldest` that begins with a READY slot and sees no WRITING one returns an event -/
  takes : s.consumer = .check 0 → ∀ k, (s.queue.slots k).state = .ready →
    ∀ {as : List (Action L)} {t : State L}, Steps step SeesNoWriting s as t → t.consumer = .idle →
      s.taken.length < t.taken.length
  /-- and without calls in between it comes to its end -/
  ends : s.consumer = .check 0 → (∀ i, (s.queue.slots i).state ≠ .writing) →
    ∀ k, (s.queue.slots k).state = .ready →
      ∃ n j t, Steps step Always s (List.replicate n .consumer) t ∧ t.consumer = .holding j ∧
        t.taken.length = s.taken.length + 1

/-- Once a call owns a slot it goes on to return true. -/
theorem claimed_run {s t : State L} {as : List (Action L)} (h : Steps step Always s as t) {a : Nat}
    (hs : ∃ c, s.calls[a]? = some c ∧ Call.Claimed c) :
    ∃ c, t.calls[a]? = some c ∧ Call.Claimed c := by
  refine h.invariant (I := fun u => ∃ c, u.calls[a]? = some c ∧ Call.Claimed c) hs ?_
  rintro u act v ⟨c, ha, hc⟩ - hstep
  cases act with
  | call e =>
    cases hstep
    exact ⟨c, (List.getElem?_append_left (List.getElem?_eq_some_iff.mp ha).1).trans ha, hc⟩
  | producer b =>
    obtain ⟨d, hb, hstep⟩ := Option.bind_eq_some_iff.mp hstep
    obtain ⟨⟨q', d'⟩, hd, hstep⟩ := Option.bind_eq_some_iff.mp hstep
    cases hstep
    by_cases hba : b = a
    · subst hba
      rw [ha, Option.some_inj] at hb
      subst hb
      have hlt := (List.getElem?_eq_some_iff.mp ha).1
      exact ⟨d', List.getElem?_set_self hlt, (Call.step_cases hd).claimed hc⟩
    · exact ⟨c, (List.getElem?_set_ne hba).trans ha, hc⟩
  | consumer =>
    cases hstep
    refine ⟨c, ?_, hc⟩
    rw [← ha]
    rfl

theorem exact_of_inv {s : State L} (hinv : Inv s) : Exact s where
  owned_iff i := by
    rw [hinv.writing_iff, hinv.reading_iff, State.owned, List.mem_filterMap]
    constructor
    · rintro (⟨c, hc, hi⟩ | hi)
      · obtain ⟨a, ha⟩ := List.mem_iff_getElem?.mp hc
        exact ⟨.producer a, c, ha, hi⟩
      · exact ⟨.consumer, hi⟩
    · rintro ⟨x | _, hx⟩
      · obtain ⟨c, ha, hi⟩ := hx
        exact Or.inl ⟨c, List.mem_of_getElem? ha, hi⟩
      · exact Or.inr hx
  exclusive := by
    have hmixed : ∀ i a, Owns s (.producer a) i → ¬ Owns s .consumer i := by
      rintro i a ⟨c, ha, hi⟩ hcons
      have hw := hinv.writing_of_slot ha hi
      rw [(hinv.reading_iff i).mpr hcons] at hw
      cases hw
    rintro i (a | _) (b | _) hx hy
    · obtain ⟨c, ha, hc⟩ := hx
      obtain ⟨d, hb, hd⟩ := hy
      rw [index_unique Call.slot? hinv.owned_nodup ha hb hc hd]
    · exact absurd hy (hmixed i a hx)
    · exact absurd hx (hmixed i b hy)
    · rfl
  distinct := accepted_nodup hinv
  conserved := hinv.conserved
  held j hj := hinv.held j (by rw [hj]; rfl)
  counted := hinv.counted
  refused := by
    intro as t hrun a c d ha hc hd
    obtain ⟨d', hd', hclaimed⟩ := claimed_run hrun ⟨c, ha, Or.inl hc⟩
    rw [hd, Option.some_inj] at hd'
    subst hd'
    cases d with
    | returned e n ok =>
      cases ok with
      | true => rfl
      | false =>
        rcases hclaimed with h | h
        · cases h
        · cases n <;> cases h
    | _ => rfl
  stored_le := s.queue.stored_length_le
  takes hcheck k hk := by
    intro as t hrun hidle
    have hfinds : Finds k s := ⟨hk, by rw [hcheck]; trivial⟩
    refine (finds_run hrun hinv hfinds).resolve_right fun h => ?_
    have hpass := h.2
    rw [hidle] at hpass
    exact hpass
  ends hcheck hno k hk := finds_ends (k := k) ⟨hk, by rw [hcheck]; trivial⟩ hno

/-- **The slot queues are exact.** Whatever the interleaving of calls and
consumer, at the granularity of atomic operations and cell writes, each of
the four queues loses, duplicates and tears nothing, and hands out what is
stored in it. -/
theorem slot_queues_exact (sys : RadioSys) (k : QueueKind) {s : State (k.layout sys)}
    (h : Reachable step (init (k.layout sys)) s) : Exact s :=
  exact_of_inv (inv_reachable h)

/-- An external-auth trigger for the runs below. -/
def sampleTrigger (status : UInt16) : ExternalAuthEvent :=
  ⟨1, 0, 1, Vector.replicate 6 0, status, 0, 0, Vector.replicate 3 0, Vector.replicate 32 0,
    Vector.replicate 16 0⟩

/-- Four calls on the two slots of the queue. The first two run side by side, so
that the first `take_oldest` gives way to a slot that is being written. The third
publishes, and the fourth has its number, while the second event is selected. -/
def overlappingRun (sys : RadioSys) : List (Action (externalAuthQueue sys)) :=
  [.call (sampleTrigger 10), .call (sampleTrigger 11), .producer 0, .producer 1, .producer 0,
    .producer 1, .producer 1, .producer 1, .producer 0, .producer 1, .producer 1] ++
  [.consumer, .consumer, .producer 0, .producer 0] ++ List.replicate 11 .consumer ++
  [.call (sampleTrigger 12), .producer 2] ++ List.replicate 8 .consumer ++
  [.producer 2, .producer 2, .producer 2, .producer 2, .call (sampleTrigger 13), .producer 3] ++
  [.consumer, .consumer, .producer 3, .producer 3, .producer 3] ++ List.replicate 3 .consumer ++
  [.producer 3, .producer 3] ++ List.replicate 11 .consumer ++ List.replicate 9 .consumer

/-- The four events are delivered, the last one under the guard that is alive. -/
theorem slot_queues_exact_overlapping :
    ∃ s : State (QueueKind.externalAuth.layout ⟨2304, 1⟩),
      s.taken.map Prod.fst = [0, 1, 2, 3] ∧ s.consumer.slot?.isSome ∧ Exact s := by
  have hrun : (run step (init _) (overlappingRun ⟨2304, 1⟩)).map
      (fun s => (s.taken.map Prod.fst, s.consumer.slot?.isSome)) = some ([0, 1, 2, 3], true) := by
    decide +kernel
  obtain ⟨s, hs, hlast⟩ := Option.map_eq_some_iff.mp hrun
  obtain ⟨htaken, hguard⟩ := Prod.mk.inj hlast
  exact ⟨s, htaken, hguard, slot_queues_exact ⟨2304, 1⟩ .externalAuth ⟨_, Steps.of_run hs⟩⟩

end Interleaved

end HisiRiscv.Supplicant
