/-
HisiRiscv.Supplicant.ScanAbortTheorems — when an aborted scan leaks
nothing into the next one.

A callback tests `NATIVE_SCAN_ACTIVE` before it allocates a number and
claims a slot, and nothing in its event says which scan it belongs to. If
it is preempted past the test, `discard_pending` does not see it, and it
stores its event after the cancel has returned; if it is preempted before
the test, it may find the flag of the next scan.

Where neither happens (`Contained`), the invariant `Tracked` carries the
result: every callback that can still feed something (`Live`) began after
the last cancel that returned. A cancel re-establishes it because its last
`take_oldest` runs undisturbed and finds no READY slot (`Quiet`).

  §1 Callbacks that can still feed something.
  §2 What keeps `Tracked`.
  §3 The last pass of `discard_pending`.
  §4 Main results.
-/
import HisiRiscv.Supplicant.InterleavedTheorems
import HisiRiscv.Supplicant.ScanAbort

namespace HisiRiscv.Supplicant.ScanAbort

open HisiRiscv.Machine HisiRiscv.Ledger HisiRiscv.Supplicant.Interleaved

variable {sys : RadioSys}

/-! ## §1 Callbacks that can still feed something -/

/-- The callback is under way, or its event is stored or under a live guard. -/
def Live (q : Interleaved.State (scanEventQueue sys)) (p : Producer) : Prop :=
  p.underway q = true ∨
    ∃ a c x, p.pc = .queued a ∧ q.calls[a]? = some c ∧ c.accepted? = some x ∧
      (x.1 ∉ q.taken.map Prod.fst ∨
        ∃ j, q.consumer = .holding j ∧ (q.queue.slots j).ticket = x.1)

/-- The part of the invariant about callbacks and queue. -/
structure Tracked (q : Interleaved.State (scanEventQueue sys)) (producers : List Producer)
    (cancelled : Nat) (fed : List (Nat × Nat)) : Prop where
  inv : Interleaved.Inv q
  /-- every call of the queue belongs to a callback -/
  called : ∀ a < q.calls.length, ∃ p ∈ producers, p.pc = .queued a
  bound : ∀ p ∈ producers, ∀ a, p.pc = .queued a → a < q.calls.length
  /-- what can still be fed began after the last cancel that returned -/
  live : ∀ p ∈ producers, Live q p → cancelled ≤ p.began
  fed_lt : ∀ x ∈ fed, x.1 < q.queue.nextSequence
  noLeak : ∀ x ∈ fed, ∀ p ∈ producers, p.number q = some x.1 → x.2 ≤ p.began

section Tracked

variable {q : Interleaved.State (scanEventQueue sys)} {producers : List Producer}
  {cancelled : Nat} {fed : List (Nat × Nat)}

theorem unfinished_of_underway {p : Producer} {a : Nat} {c : Call (scanEventQueue sys)}
    (hp : p.pc = .queued a) (ha : q.calls[a]? = some c) :
    p.underway q = c.unfinished := by
  rw [Producer.underway, hp]
  simp only [ha, Option.any_some]

theorem CallMove.unfinished {r r' : Queue (scanEventQueue sys)}
    {c c' : Call (scanEventQueue sys)} (h : CallMove r c r' c') : c.unfinished = true := by
  cases h <;> rfl

/-! ## §2 What keeps `Tracked` -/

theorem tracked_init : Tracked (Interleaved.init (scanEventQueue sys)) [] 0 [] where
  inv := inv_init _
  called := fun _ h => absurd h (Nat.not_lt_zero _)
  bound := nofun
  live := nofun
  fed_lt := nofun
  noLeak := nofun

/-- A callback that has not entered the queue is live only at its reservation. -/
theorem not_live_of_pc {p : Producer} (hq : ∀ a, p.pc ≠ .queued a) (hr : p.pc ≠ .reserve) :
    ¬ Live q p := by
  rintro (h | ⟨a, c, x, ha, -⟩)
  · rw [Producer.underway] at h
    split at h
    · cases h
    · cases h
    · cases h
    · exact hr ‹_›
    · exact hq _ ‹_›
  · exact hq a ha

theorem number_eq_none {p : Producer} (hq : ∀ a, p.pc ≠ .queued a) : p.number q = none := by
  rw [Producer.number]
  split
  · exact absurd ‹_› (hq _)
  all_goals rfl

theorem Tracked.callback (h : Tracked q producers cancelled fed) (e : ScanEvent) (began : Nat) :
    Tracked q (producers ++ [⟨e, began, .port⟩]) cancelled fed where
  inv := h.inv
  called a ha := by
    obtain ⟨p, hp, hpc⟩ := h.called a ha
    exact ⟨p, List.mem_append_left _ hp, hpc⟩
  bound p hp a ha := by
    rcases List.mem_append.mp hp with hp | hp
    · exact h.bound p hp a ha
    · rw [List.mem_singleton.mp hp] at ha
      cases ha
  live p hp hlive := by
    rcases List.mem_append.mp hp with hp | hp
    · exact h.live p hp hlive
    · rw [List.mem_singleton.mp hp] at hlive
      exact absurd hlive (not_live_of_pc nofun nofun)
  fed_lt := h.fed_lt
  noLeak x hx p hp hnum := by
    rcases List.mem_append.mp hp with hp | hp
    · exact h.noLeak x hx p hp hnum
    · rw [List.mem_singleton.mp hp] at hnum
      cases hnum

/-- A callback moves without touching the queue. -/
theorem Tracked.setPc (h : Tracked q producers cancelled fed) {i : Nat} {p : Producer} {pc : Pc}
    (hi : producers[i]? = some p) (hp : ∀ a, p.pc ≠ .queued a) (hpc : ∀ a, pc ≠ .queued a)
    (hlive : pc = .reserve → cancelled ≤ p.began) :
    Tracked q (producers.set i { p with pc := pc }) cancelled fed where
  inv := h.inv
  called a ha := by
    obtain ⟨r, hr, hrpc⟩ := h.called a ha
    exact ⟨r, mem_set_of_ne hi hr fun heq => hp a (heq ▸ hrpc), hrpc⟩
  bound r hr a ha := by
    rcases mem_set_cases hr with rfl | hr
    · exact absurd ha (hpc a)
    · exact h.bound r hr a ha
  live r hr hr' := by
    rcases mem_set_cases hr with rfl | hr
    · by_cases hres : pc = .reserve
      · exact hlive hres
      · exact absurd hr' (not_live_of_pc hpc hres)
    · exact h.live r hr hr'
  fed_lt := h.fed_lt
  noLeak x hx r hr hnum := by
    rcases mem_set_cases hr with rfl | hr
    · rw [number_eq_none hpc] at hnum
      cases hnum
    · exact h.noLeak x hx r hr hnum

/-- A callback enters the queue's `enqueue`. -/
theorem Tracked.enter (h : Tracked q producers cancelled fed) {i : Nat} {p : Producer}
    (e : ScanEvent) (hi : producers[i]? = some p) (hp : ∀ a, p.pc ≠ .queued a)
    (hlive : cancelled ≤ p.began) :
    Tracked { q with calls := q.calls ++ [.start e] }
      (producers.set i { p with pc := .queued q.calls.length }) cancelled fed := by
  have hcalls : ∀ a < q.calls.length, (q.calls ++ [Call.start e])[a]? = q.calls[a]? :=
    fun a ha => List.getElem?_append_left ha
  refine ⟨inv_call h.inv e, fun a ha => ?_, fun r hr a ha => ?_, fun r hr hr' => ?_, h.fed_lt,
    fun x hx r hr hnum => ?_⟩
  · rw [List.length_append, List.length_singleton] at ha
    rcases Nat.lt_or_eq_of_le (Nat.lt_succ_iff.mp ha) with ha | rfl
    · obtain ⟨r, hr, hrpc⟩ := h.called a ha
      exact ⟨r, mem_set_of_ne hi hr fun heq => hp a (heq ▸ hrpc), hrpc⟩
    · exact ⟨_, List.mem_set (List.getElem?_eq_some_iff.mp hi).1 _, rfl⟩
  · rw [List.length_append, List.length_singleton]
    rcases mem_set_cases hr with rfl | hr
    · cases ha
      exact Nat.lt_succ_self _
    · exact Nat.lt_succ_of_lt (h.bound r hr a ha)
  · rcases mem_set_cases hr with rfl | hr
    · exact hlive
    · refine h.live r hr ?_
      rcases hr' with hunder | ⟨a, c, x, ha, hc, hx⟩
      · refine Or.inl ?_
        rw [Producer.underway] at hunder ⊢
        split at hunder
        · cases hunder
        · cases hunder
        · cases hunder
        · rfl
        · rename_i a ha
          rwa [hcalls a (h.bound r hr a ha)] at hunder
      · rw [hcalls a (h.bound r hr a ha)] at hc
        exact Or.inr ⟨a, c, x, ha, hc, hx⟩
  · rcases mem_set_cases hr with rfl | hr
    · simp only [Producer.number, List.getElem?_concat_length, Option.bind_some, Call.ticket?] at hnum
      cases hnum
    · refine h.noLeak x hx r hr ?_
      rw [Producer.number] at hnum ⊢
      split at hnum
      · rename_i a ha
        rwa [hcalls a (h.bound r hr a ha)] at hnum
      all_goals cases hnum

/-- A call of the queue moves. -/
theorem Tracked.move (h : Tracked q producers cancelled fed) {a : Nat}
    {c c' : Call (scanEventQueue sys)} {q' : Queue (scanEventQueue sys)}
    (ha : q.calls[a]? = some c) (hmove : CallMove q.queue c q' c') (fresh : List Nat) :
    Tracked { q with queue := q', calls := q.calls.set a c', fresh := fresh } producers cancelled
      fed := by
  have hnext : q.queue.nextSequence ≤ q'.nextSequence := by
    rcases hmove.ticket with ⟨-, -, h⟩ | ⟨-, h⟩ <;> omega
  have hheld : ∀ j, q.consumer = .holding j → q'.slots j = q.queue.slots j := by
    intro j hj
    have hr := (h.inv.reading_iff j).mpr (by rw [hj]; rfl)
    refine hmove.frame (fun hcj => ?_) (by rw [hr]; decide)
    rw [h.inv.writing_of_slot ha hcj] at hr
    cases hr
  refine ⟨inv_producer h.inv ha hmove fresh, fun b hb => ?_, fun p hp b hb => ?_,
    fun p hp hlive => h.live p hp ?_, fun x hx => (h.fed_lt x hx).trans_le hnext,
    fun x hx p hp hnum => h.noLeak x hx p hp ?_⟩
  · rw [List.length_set] at hb
    exact h.called b hb
  · rw [List.length_set]
    exact h.bound p hp b hb
  · by_cases hpa : p.pc = .queued a
    · exact Or.inl ((unfinished_of_underway hpa ha).trans (CallMove.unfinished hmove))
    · rcases hlive with hunder | ⟨b, d, x, hb, hd, hx, hrest⟩
      · refine Or.inl ?_
        rw [Producer.underway] at hunder ⊢
        split at hunder
        · cases hunder
        · cases hunder
        · cases hunder
        · rfl
        · rename_i b hb
          have hab : a ≠ b := fun hab => hpa (by rw [hab]; exact hb)
          rwa [List.getElem?_set_ne hab] at hunder
      · have hab : a ≠ b := fun hab => hpa (by rw [hab]; exact hb)
        rw [List.getElem?_set_ne hab] at hd
        refine Or.inr ⟨b, d, x, hb, hd, hx, hrest.imp_right ?_⟩
        rintro ⟨j, hj, hticket⟩
        exact ⟨j, hj, by rw [← hheld j hj]; exact hticket⟩
  · rw [Producer.number] at hnum ⊢
    split at hnum
    · rename_i b hb
      by_cases hab : a = b
      · subst hab
        rw [List.getElem?_set_self (List.getElem?_eq_some_iff.mp ha).1, Option.bind_some] at hnum
        rw [ha, Option.bind_some]
        rcases hmove.ticket with ⟨-, hc', -⟩ | ⟨hsame, -⟩
        · rw [hc', Option.some_inj] at hnum
          exact absurd (h.fed_lt x hx) (by omega)
        · rw [← hsame]
          exact hnum
      · rwa [List.getElem?_set_ne hab] at hnum
    all_goals cases hnum

/-- The consumer moves: fewer events can still be fed. -/
theorem Tracked.consume (h : Tracked q producers cancelled fed) :
    Tracked q.consume producers cancelled fed := by
  have hinv := inv_consumer h.inv (consume_cases q)
  have hmove := consume_cases q
  generalize q.consume = t at hinv hmove
  cases hmove with
  | quiet c fresh hc hc' =>
    refine ⟨hinv, h.called, h.bound, fun p hp hlive => h.live p hp ?_, h.fed_lt, h.noLeak⟩
    rcases hlive with hunder | ⟨a, d, x, ha, hd, hx, hrest⟩
    · exact Or.inl hunder
    · refine Or.inr ⟨a, d, x, ha, hd, hx, Or.inl (hrest.resolve_right ?_)⟩
      rintro ⟨j, hj, -⟩
      have hcj : c = .holding j := hj
      rw [hcj] at hc'
      cases hc'
  | take j hc hready =>
    refine ⟨hinv, h.called, h.bound, fun p hp hlive => h.live p hp ?_, h.fed_lt, h.noLeak⟩
    rcases hlive with hunder | ⟨a, d, x, ha, hd, hx, hrest⟩
    · exact Or.inl hunder
    · refine Or.inr ⟨a, d, x, ha, hd, hx, Or.inl ?_⟩
      rcases hrest with hrest | ⟨k, hk, hticket⟩
      · exact fun hmem => hrest (by rw [List.map_append]; exact List.mem_append_left _ hmem)
      · cases hk
        rw [Queue.markReading, Queue.modify_self] at hticket
        rw [← hticket]
        exact fun hmem => ready_not_taken h.inv hready hmem
  | release j hc =>
    refine ⟨hinv, h.called, h.bound, fun p hp hlive => h.live p hp ?_, h.fed_lt, h.noLeak⟩
    rcases hlive with hunder | ⟨a, d, x, ha, hd, hx, hrest⟩
    · exact Or.inl hunder
    · refine Or.inr ⟨a, d, x, ha, hd, hx, Or.inl (hrest.resolve_right ?_)⟩
      rintro ⟨k, hk, -⟩
      cases hk

/-- Feeding the event of the live guard leaks nothing. -/
theorem Tracked.feed (h : Tracked q producers cancelled fed) {j : Fin scanEventQueueDepth}
    (hj : q.consumer = .holding j) :
    Tracked q producers cancelled (fed ++ [((q.queue.slots j).ticket, cancelled)]) := by
  have htaken := h.inv.held j (by rw [hj]; rfl)
  have hmem : ((q.queue.slots j).ticket, (q.queue.slots j).cells) ∈ q.taken :=
    List.mem_of_getLast? htaken
  refine { h with fed_lt := fun x hx => ?_, noLeak := fun x hx p hp hnum => ?_ }
  · rcases List.mem_append.mp hx with hx | hx
    · exact h.fed_lt x hx
    · rw [List.mem_singleton.mp hx]
      exact taken_lt h.inv (List.mem_map.mpr ⟨_, hmem, rfl⟩)
  · rcases List.mem_append.mp hx with hx | hx
    · exact h.noLeak x hx p hp hnum
    · rw [List.mem_singleton.mp hx] at hnum ⊢
      refine h.live p hp ?_
      rw [Producer.number] at hnum
      split at hnum
      · rename_i a ha
        obtain ⟨c, hc, hticket⟩ := Option.bind_eq_some_iff.mp hnum
        obtain ⟨b, d, x, hd, hx, hx1⟩ := taken_accepted h.inv (List.mem_map.mpr ⟨_, hmem, rfl⟩)
        have hab := index_unique Call.ticket? h.inv.tickets_nodup hc hd hticket
          (by rw [accepted_ticket hx, hx1])
        rw [← hab] at hd
        exact Or.inr ⟨a, d, x, ha, hd, hx, Or.inr ⟨j, hj, hx1.symm⟩⟩
      all_goals cases hnum

end Tracked

/-! ## §3 The last pass of `discard_pending` -/

/-- What an undisturbed selection loop has found: a READY slot, or none so far. -/
def Selecting {L : Layout} (q : Interleaved.State L) : Prop :=
  match q.consumer with
  | .idle | .holding _ | .check _ => True
  | .scan i none => ∀ k : Fin L.depth, k.val < i → (q.queue.slots k).state ≠ .ready
  | .scan _ (some (j, _)) | .load j none | .exchange j => (q.queue.slots j).state = .ready
  | .load i (some (j, _)) => (q.queue.slots i).state = .ready ∧ (q.queue.slots j).state = .ready

/-- The loop carries on undisturbed. -/
theorem selecting_consume {L : Layout} {q : Interleaved.State L} (h : Selecting q) :
    Selecting q.consume := by
  obtain ⟨r, calls, consumer, taken, fresh⟩ := q
  cases consumer with
  | idle | holding => trivial
  | check i =>
    by_cases hi : i < L.depth
    · by_cases hw : (r.slots ⟨i, hi⟩).state = .writing
      · simp only [State.consume, Consumer.step, dif_pos hi, if_pos hw]
        trivial
      · simp only [State.consume, Consumer.step, dif_pos hi, if_neg hw]
        trivial
    · simp only [State.consume, Consumer.step, dif_neg hi]
      exact fun k hk => absurd hk (Nat.not_lt_zero _)
  | scan i oldest =>
    by_cases hi : i < L.depth
    · by_cases hr : (r.slots ⟨i, hi⟩).state = .ready
      · simp only [State.consume, Consumer.step, dif_pos hi, if_pos hr]
        cases oldest with
        | none => exact hr
        | some best => exact ⟨hr, h⟩
      · simp only [State.consume, Consumer.step, dif_pos hi, if_neg hr]
        cases oldest with
        | some best => exact h
        | none =>
          intro k hk
          rcases Nat.lt_or_eq_of_le (Nat.lt_succ_iff.mp hk) with hk | hk
          · exact h k hk
          · rwa [show k = ⟨i, hi⟩ from Fin.ext hk]
    · simp only [State.consume, Consumer.step, dif_neg hi]
      cases oldest with
      | none => trivial
      | some best => exact h
  | load i oldest =>
    simp only [State.consume, Consumer.step]
    cases oldest with
    | none => exact h
    | some best =>
      rw [Queue.consider]
      split
      · exact h.1
      · exact h.2
  | exchange j =>
    have hr : (r.slots j).state = .ready := h
    simp only [State.consume, Consumer.step, if_pos hr]
    trivial

/-- An undisturbed pass that ends with `None` has seen every slot, and none was
READY. -/
theorem selecting_end {L : Layout} {q : Interleaved.State L} (h : Selecting q)
    (hw : ∀ i, (q.queue.slots i).state ≠ .writing) (hslot : q.consumer.slot? = none)
    (hend : q.consume.consumer = .idle) (k : Fin L.depth) : (q.queue.slots k).state ≠ .ready := by
  obtain ⟨r, calls, consumer, taken, fresh⟩ := q
  cases consumer with
  | idle => cases hend
  | holding j => cases hslot
  | check i =>
    by_cases hi : i < L.depth
    · simp only [State.consume, Consumer.step, dif_pos hi, if_neg (hw ⟨i, hi⟩)] at hend
      cases hend
    · simp only [State.consume, Consumer.step, dif_neg hi] at hend
      cases hend
  | scan i oldest =>
    by_cases hi : i < L.depth
    · by_cases hr : (r.slots ⟨i, hi⟩).state = .ready
      · simp only [State.consume, Consumer.step, dif_pos hi, if_pos hr] at hend
        cases hend
      · simp only [State.consume, Consumer.step, dif_pos hi, if_neg hr] at hend
        cases hend
    · cases oldest with
      | none => exact h k (by omega)
      | some best =>
        simp only [State.consume, Consumer.step, dif_neg hi] at hend
        cases hend
  | load i oldest => cases hend
  | exchange j =>
    have hr : (r.slots j).state = .ready := h
    simp only [State.consume, Consumer.step, if_pos hr] at hend
    cases hend

/-- A pass during which no callback is past its check. -/
structure Quiet (q : Interleaved.State (scanEventQueue sys)) (producers : List Producer) : Prop where
  still : ∀ p ∈ producers, p.underway q = false
  selecting : Selecting q

section Quiet

variable {q : Interleaved.State (scanEventQueue sys)} {producers : List Producer}
  {cancelled : Nat} {fed : List (Nat × Nat)}

/-- Without callbacks under way no slot is WRITING. -/
theorem no_writing (h : Tracked q producers cancelled fed)
    (hstill : ∀ p ∈ producers, p.underway q = false) (i : Fin scanEventQueueDepth) :
    (q.queue.slots i).state ≠ .writing := by
  intro hw
  obtain ⟨c, hc, hi⟩ := List.mem_filterMap.mp ((h.inv.writing_iff i).mp hw)
  obtain ⟨a, ha⟩ := List.mem_iff_getElem?.mp hc
  obtain ⟨p, hp, hpc⟩ := h.called a (List.getElem?_eq_some_iff.mp ha).1
  have hfinished := (unfinished_of_underway hpc ha).symm.trans (hstill p hp)
  cases c with
  | returned => cases hi
  | _ => cases hfinished

theorem taken_grows {L : Layout} (q : Interleaved.State L) : q.taken <+: q.consume.taken := by
  have hmove := consume_cases q
  generalize q.consume = t at hmove
  cases hmove with
  | quiet | release => exact List.prefix_refl _
  | take => exact List.prefix_append _ _

theorem Quiet.consume (h : Quiet q producers) : Quiet q.consume producers :=
  ⟨h.still, selecting_consume h.selecting⟩

/-- When the pass ends with `None`, nothing is left that can be fed. -/
theorem Quiet.finish (h : Quiet q producers) (ht : Tracked q producers cancelled fed)
    (hslot : q.consumer.slot? = none) (hend : q.consume.consumer = .idle) (p : Producer)
    (hp : p ∈ producers) : ¬ Live q.consume p := by
  have hempty := selecting_end h.selecting (no_writing ht h.still) hslot hend
  have hinv := inv_consumer ht.inv (consume_cases q)
  rintro (hunder | ⟨a, c, x, hpc, hc, hx, hrest⟩)
  · rw [show p.underway q.consume = p.underway q from rfl, h.still p hp] at hunder
    cases hunder
  · rcases hrest with hrest | ⟨j, hj, -⟩
    · have hmem := ht.inv.conserved.mem_iff.mp (List.mem_filterMap.mpr ⟨c, List.mem_of_getElem? hc, hx⟩)
      rcases List.mem_append.mp hmem with hmem | hmem
      · obtain ⟨y, hy, rfl⟩ := List.mem_map.mp hmem
        exact hrest (List.mem_map.mpr ⟨y, (taken_grows q).subset hy, rfl⟩)
      · obtain ⟨k, hk, -⟩ := Queue.mem_stored.mp hmem
        exact hempty k hk
    · rw [hend] at hj
      cases hj

end Quiet

/-! ## §4 Main results -/

/-- `discard_pending` is in a pass that began when no callback was past its check. -/
def Passing (s : State sys) : Prop :=
  s.runner = .discarding ∧ s.quiet = true ∧ s.queue.consumer ≠ .idle ∧ s.queue.consumer.slot? = none

/-- The invariant of the contained runs. -/
structure Inv (s : State sys) : Prop where
  tracked : Tracked s.queue s.producers s.cancelled s.fed
  /-- `discard_pending` runs with the flag down -/
  inactive : s.runner = .discarding → s.active = false
  pass : Passing s → Quiet s.queue s.producers

theorem inv_init : Inv (init sys) :=
  ⟨tracked_init, nofun, nofun⟩

section Steps

variable {s t : State sys} {status : Int32}

theorem Inv.undisturbed (h : Inv s) {i : Nat} {p : Producer} (hi : s.producers[i]? = some p)
    (hunder : p.underway s.queue = true) : ¬ Passing s := fun hpass => by
  rw [(h.pass hpass).still p (List.mem_of_getElem? hi)] at hunder
  cases hunder

theorem Quiet.callback {q : Interleaved.State (scanEventQueue sys)} {producers : List Producer}
    (h : Quiet q producers) (e : ScanEvent) (began : Nat) :
    Quiet q (producers ++ [⟨e, began, .port⟩]) where
  still r hr := by
    rcases List.mem_append.mp hr with hr | hr
    · exact h.still r hr
    · rw [List.mem_singleton.mp hr]
      rfl
  selecting := h.selecting

theorem Quiet.setPc {q : Interleaved.State (scanEventQueue sys)} {producers : List Producer}
    (h : Quiet q producers) (i : Nat) {p : Producer} (hp : p.underway q = false) :
    Quiet q (producers.set i p) where
  still r hr := by
    rcases mem_set_cases hr with rfl | hr
    · exact hp
    · exact h.still r hr
  selecting := h.selecting

theorem inv_producer (h : Inv s) {i : Nat} {p : Producer} (hi : s.producers[i]? = some p)
    (hok : p.pc = .active → p.began < s.cancelled → s.active = false)
    (hs : s.stepProducer i p = some t) : Inv t := by
  have hbegan : p.pc = .active → s.active = true → s.cancelled ≤ p.began := by
    intro hpc hactive
    by_contra hlt
    rw [hok hpc (Nat.lt_of_not_le hlt)] at hactive
    cases hactive
  have hidle : s.active = true → ¬ Passing s := fun hactive hpass => by
    rw [h.inactive hpass.1] at hactive
    cases hactive
  have hlive := h.tracked.live p (List.mem_of_getElem? hi)
  have hdisturbed := h.undisturbed hi
  rw [State.stepProducer] at hs
  split at hs <;> rename_i hpc
  · cases hs
    split
    · exact ⟨h.tracked.setPc hi (by simp [hpc]) nofun nofun, h.inactive,
        fun hpass => (h.pass hpass).setPc i rfl⟩
    · exact ⟨h.tracked.setPc hi (by simp [hpc]) nofun nofun, h.inactive,
        fun hpass => (h.pass hpass).setPc i rfl⟩
  · split at hs
    · rename_i hactive
      split at hs
      · cases hs
        exact ⟨h.tracked.enter p.event hi (by simp [hpc]) (hbegan hpc hactive), fun _ => rfl,
          fun hpass => absurd hpass (hidle hactive)⟩
      · cases hs
        exact ⟨h.tracked.setPc hi (by simp [hpc]) nofun fun _ => hbegan hpc hactive, h.inactive,
          fun hpass => absurd hpass (hidle hactive)⟩
    · cases hs
      exact ⟨h.tracked.setPc hi (by simp [hpc]) nofun nofun, h.inactive,
        fun hpass => (h.pass hpass).setPc i rfl⟩
  · have hunder : p.underway s.queue = true := by rw [Producer.underway, hpc]
    split at hs
    · split at hs
      · cases hs
        exact ⟨h.tracked.enter p.event hi (by simp [hpc]) (hlive (Or.inl hunder)), h.inactive,
          fun hpass => absurd hpass (hdisturbed hunder)⟩
      · cases hs
        exact ⟨h.tracked.setPc hi (by simp [hpc]) nofun nofun, h.inactive,
          fun hpass => absurd hpass (hdisturbed hunder)⟩
    · cases hs
      exact ⟨h.tracked.enter p.event hi (by simp [hpc]) (hlive (Or.inl hunder)), h.inactive,
        fun hpass => absurd hpass (hdisturbed hunder)⟩
  · rename_i a
    obtain ⟨q', hq, rfl⟩ := Option.map_eq_some_iff.mp hs
    obtain ⟨c, ha, hq⟩ := Option.bind_eq_some_iff.mp hq
    obtain ⟨⟨r, c'⟩, hstep, hq⟩ := Option.bind_eq_some_iff.mp hq
    cases hq
    have hmove := Call.step_cases hstep
    have hunder := (unfinished_of_underway hpc ha).trans (CallMove.unfinished hmove)
    exact ⟨h.tracked.move ha hmove _, h.inactive, fun hpass => absurd hpass (hdisturbed hunder)⟩
  · cases hs

theorem resume_ne (s : State sys) : s.resume ≠ .discarding := by
  rw [State.resume]
  split <;> nofun

/-- A step of `discard_pending`: the pass goes on, or it ends and nothing is left. -/
theorem inv_discard (h : Inv s) (hrunner : s.runner = .discarding)
    (hok : s.passEnds = true → s.quiet = true) (hs : s.stepRunner status = some t) : Inv t := by
  rw [State.stepRunner, hrunner] at hs
  cases hs
  by_cases hend : s.passEnds = true
  · simp only [if_pos hend]
    have hboth := hend
    rw [State.passEnds, Bool.and_eq_true, Option.isNone_iff_eq_none, beq_iff_eq] at hboth
    have hbusy : s.queue.consumer ≠ .idle := fun hidle => by
      have hnext : s.queue.consume.consumer = .check 0 := by
        rw [State.consume, hidle]
        rfl
      rw [hnext] at hboth
      cases hboth.2
    have hquiet := h.pass ⟨hrunner, hok hend, hbusy, hboth.1⟩
    refine ⟨{ h.tracked.consume with live := fun p hp hlive => ?_ }, (fun heq => by cases heq),
      (fun hpass => by cases hpass.1)⟩
    exact absurd hlive (hquiet.finish h.tracked hboth.1 hboth.2 p hp)
  · simp only [if_neg hend]
    refine ⟨h.tracked.consume, fun _ => h.inactive hrunner, fun hpass => ?_⟩
    obtain ⟨-, hquiet, hbusy, hslot⟩ := hpass
    by_cases hidle : s.queue.consumer = .idle
    · simp only [if_pos hidle, List.all_eq_true, Bool.not_eq_true'] at hquiet
      have hnext : s.queue.consume.consumer = .check 0 := by
        rw [State.consume, hidle]
        rfl
      exact ⟨hquiet, by rw [Selecting, hnext]; trivial⟩
    · simp only [if_neg hidle] at hquiet
      refine (h.pass ⟨hrunner, hquiet, hidle, ?_⟩).consume
      cases hc : s.queue.consumer with
      | holding j =>
        refine absurd ?_ hbusy
        change s.queue.consume.consumer = .idle
        rw [State.consume, hc]
        rfl
      | _ => rfl

theorem inv_runner (h : Inv s)
    (hok : s.runner = .discarding → s.passEnds = true → s.quiet = true)
    (hs : s.stepRunner status = some t) : Inv t := by
  cases hrunner : s.runner with
  | discarding => exact inv_discard h hrunner (hok hrunner) hs
  | idle =>
    rw [State.stepRunner, hrunner] at hs
    cases hs
  | claimScan ioctl =>
    simp only [State.stepRunner, hrunner] at hs
    split at hs
    · cases hs
      exact ⟨h.tracked, fun hr => absurd hr (resume_ne s), fun hpass => absurd hpass.1 (resume_ne s)⟩
    · cases hs
      exact ⟨h.tracked, nofun, fun hpass => nomatch hpass.1⟩
  | transaction ioctl =>
    simp only [State.stepRunner, hrunner] at hs
    cases hs
    cases ioctl with
    | true => exact ⟨h.tracked, nofun, fun hpass => nomatch hpass.1⟩
    | false =>
      exact ⟨h.tracked, fun hr => absurd hr (resume_ne s), fun hpass => absurd hpass.1 (resume_ne s)⟩
  | scanning =>
    simp only [State.stepRunner, hrunner] at hs
    cases hs
    exact ⟨h.tracked, fun hr => absurd hr (resume_ne s), fun hpass => absurd hpass.1 (resume_ne s)⟩
  | cancelling =>
    simp only [State.stepRunner, hrunner] at hs
    cases hs
    exact ⟨h.tracked, fun _ => rfl, fun hpass => nomatch hpass.2.1⟩
  | feeding =>
    simp only [State.stepRunner, hrunner] at hs
    split at hs
    · rename_i j hj
      cases hs
      exact ⟨(h.tracked.feed hj).consume, nofun, fun hpass => nomatch hpass.1⟩
    · cases hs
      have hne : (if s.passEnds then Runner.idle else .feeding) ≠ .discarding := by split <;> nofun
      exact ⟨h.tracked.consume, fun hr => absurd hr hne, fun hpass => absurd hpass.1 hne⟩

/-- Every contained step keeps the invariant. -/
theorem inv_step {act : Action} (h : Inv s) (hok : Contained s act) (hs : step s act = some t) :
    Inv t := by
  cases act with
  | enqueueScanResult metadata ies =>
    cases hs
    exact ⟨h.tracked.callback _ _, h.inactive, fun hpass => (h.pass hpass).callback _ _⟩
  | enqueueScanDone status =>
    cases hs
    exact ⟨h.tracked.callback _ _, h.inactive, fun hpass => (h.pass hpass).callback _ _⟩
  | producer i =>
    obtain ⟨p, hi, hs⟩ := Option.bind_eq_some_iff.mp hs
    exact inv_producer h hi (hok p hi) hs
  | beginScanCacheCapture =>
    rw [step] at hs
    split at hs
    · cases hs
      have hne : (if s.portReady then Runner.claimScan false else .idle) ≠ .discarding := by
        split <;> nofun
      exact ⟨h.tracked, fun hr => absurd hr hne, fun hpass => absurd hpass.1 hne⟩
    · cases hs
  | startScan =>
    rw [step] at hs
    split at hs
    · cases hs
      exact ⟨h.tracked, nofun, fun hpass => nomatch hpass.1⟩
    · cases hs
  | cancelScanCacheCapture =>
    rw [step] at hs
    split at hs
    · cases hs
      exact ⟨h.tracked, nofun, fun hpass => nomatch hpass.1⟩
    · cases hs
  | poll =>
    rw [step] at hs
    split at hs
    · cases hs
      exact ⟨h.tracked, nofun, fun hpass => nomatch hpass.1⟩
    · cases hs
  | runner status => exact inv_runner h hok hs
  | setPort ready =>
    cases hs
    exact ⟨h.tracked, h.inactive, h.pass⟩

end Steps

/-- **Contained scans leak nothing.** In every run in which no callback that
began before a cancel finds the flag of a later scan, and every cancel ends
with a `take_oldest` begun when no callback was past its check, no event
whose callback began before a cancel is fed after that cancel returned. -/
theorem aborted_scan_leaks_nothing (sys : RadioSys) {as : List Action} {s : State sys}
    (h : Steps step Contained (init sys) as s) : NoLeak s :=
  (h.invariant inv_init fun _ _ _ hI hok hs => inv_step hI hok hs).tracked.noLeak

/-- A callback without IEs. -/
def sampleResult : Action := .enqueueScanResult ScanMeta.zero []

/-- The result of one callback is fed. The capture is cancelled while another one stores its
event, which is discarded, and then the result of the next scan is fed. -/
def containedRun : List Action :=
  [.beginScanCacheCapture, .runner 0, .runner 0, sampleResult, sampleResult] ++
    List.replicate 8 (.producer 0) ++ List.replicate 5 (.producer 1) ++
    .poll :: List.replicate 72 (.runner 0) ++ [.cancelScanCacheCapture, .runner 0] ++
    List.replicate 4 (.producer 1) ++ List.replicate 141 (.runner 0) ++
    [.beginScanCacheCapture, .runner 0, .runner 0, sampleResult] ++ List.replicate 8 (.producer 2) ++
    .poll :: List.replicate 72 (.runner 0)

theorem aborted_scan_leaks_nothing_sample :
    ∃ s : State ⟨2304, 1⟩, s.fed = [(0, 0), (2, 1)] ∧ s.cancelled = 1 ∧
      (s.producers.map fun p => (p.began, p.number s.queue)) =
        [(0, some 0), (0, some 1), (1, some 2)] ∧ NoLeak s := by
  have hrun : (run (guarded step Contained) (init ⟨2304, 1⟩) containedRun).map
      (fun s => (s.fed, s.cancelled, s.producers.map fun p => (p.began, p.number s.queue))) =
      some ([(0, 0), (2, 1)], 1, [(0, some 0), (0, some 1), (1, some 2)]) := by decide +kernel
  obtain ⟨s, hs, hlast⟩ := Option.map_eq_some_iff.mp hrun
  simp only [Prod.mk.injEq] at hlast
  obtain ⟨hfed, hcancelled, hproducers⟩ := hlast
  exact ⟨s, hfed, hcancelled, hproducers,
    aborted_scan_leaks_nothing ⟨2304, 1⟩ (Steps.of_run_guarded hs)⟩

/-- A callback is preempted past its check; the capture is cancelled and the
next one begun before it stores its event. -/
def leakingRun : List Action :=
  [.beginScanCacheCapture, .runner 0, .runner 0, sampleResult] ++
    List.replicate 2 (.producer 0) ++ .cancelScanCacheCapture :: List.replicate 70 (.runner 0) ++
    [.beginScanCacheCapture, .runner 0, .runner 0] ++ List.replicate 6 (.producer 0) ++
    .poll :: List.replicate 72 (.runner 0)

/-- The event of the aborted scan is fed in the next one. -/
theorem aborted_scan_leaks :
    ¬ ∀ (sys : RadioSys) (s : State sys), Reachable step (init sys) s → NoLeak s := by
  intro h
  have hrun : (run step (init ⟨2304, 1⟩) leakingRun).map
      (fun s => (s.fed, s.producers.map fun p => (p.began, p.number s.queue))) =
      some ([(0, 1)], [(0, some 0)]) := by decide +kernel
  obtain ⟨s, hs, hlast⟩ := Option.map_eq_some_iff.mp hrun
  obtain ⟨hfed, hproducers⟩ := Prod.mk.inj hlast
  obtain ⟨p, hp, hpair⟩ := List.mem_map.mp (hproducers ▸ List.mem_singleton_self (0, some 0))
  obtain ⟨hbegan, hnumber⟩ := Prod.mk.inj hpair
  have hle := h ⟨2304, 1⟩ s ⟨_, Steps.of_run hs⟩ (0, 1) (by rw [hfed]; exact List.mem_singleton_self _)
    p hp hnumber
  rw [hbegan] at hle
  exact absurd hle (by decide)

end HisiRiscv.Supplicant.ScanAbort
