/-
HisiRiscv.Wifi.Frw — the message nodes and the message FIFO of `frw.rs`.

A pool of sixteen nodes in one static array, which are given out and taken back by
address, and a ring of 32 pointers from `post` to the worker. The two know nothing of each
other; only the callers pass a node from one to the other.

Translation notes. An address is a natural number, null is 0, and `base` is the address of
the first node. Each step is one critical section. A node is dispatched when `fifo_pop` gives it
to the worker, which calls the handler with it before it pops again; a null pointer in the
FIFO ends the worker's inner loop like an empty FIFO. The worker's event, handler and counter
are left out.

History variables: `held` lists the nodes that were fetched and not freed since, `posted` what
was posted with `OSAL_OK`, and `dispatched` the nodes the worker got.

  §1 Nodes.
  §2 The pool.
  §3 The FIFO.
  §4 The machine.
  §5 The invariant.
  §6 Main results.
-/
import HisiRiscv.Lib.ByteBuffer
import HisiRiscv.Lib.Machine
import HisiRiscv.Lib.Ring
import Mathlib.Data.List.FinRange

namespace HisiRiscv.Wifi.Frw

open HisiRiscv.Machine

/-! ## §1 Nodes -/

structure FrwMsg where
  data : ℕ
  rsp : ℕ
  dataLen : UInt16
  rspBufLen : UInt16
  rspLen : UInt16
  flags : UInt16
  deriving DecidableEq

structure FrwMsgNode where
  msg : FrwMsg
  next : ℕ
  prev : ℕ
  cbReturn : Int32
  msgId : UInt16
  bits : UInt8
  vapId : UInt8
  timeOut : UInt16
  seq : UInt16
  waitFail : Int32
  deriving DecidableEq

def FrwMsgNode.zeroed : FrwMsgNode where
  msg := ⟨0, 0, 0, 0, 0, 0⟩
  next := 0
  prev := 0
  cbReturn := 0
  msgId := 0
  bits := 0
  vapId := 0
  timeOut := 0
  seq := 0
  waitFail := 0

def poolLen : ℕ := 16
def fifoLen : ℕ := 32

/-- `size_of::<FrwMsgNode>()`. -/
def stride : ℕ := 40

structure FrwState where
  pool : Vector FrwMsgNode poolLen
  poolUsed : Vector Bool poolLen
  fifo : Vector ℕ fifoLen
  fifoHead : ℕ
  fifoCount : ℕ

/-- The static `FRW`. -/
def frw : FrwState where
  pool := Vector.replicate poolLen .zeroed
  poolUsed := Vector.replicate poolLen false
  fifo := Vector.replicate fifoLen 0
  fifoHead := 0
  fifoCount := 0

/-! ## §2 The pool -/

/-- `addr_of_mut!(s.pool[i])`. -/
def nodeAddr (base i : ℕ) : ℕ := base + i * stride

/-- The loop over the flags. -/
def firstUnused (used : Vector Bool poolLen) : Option (Fin poolLen) :=
  (List.finRange poolLen).find? fun i => !used[i]

def localFetchMsgNode (base : ℕ) (s : FrwState) : ℕ × FrwState :=
  match firstUnused s.poolUsed with
  | none => (0, s)
  | some i =>
      (nodeAddr base i, { s with
        poolUsed := s.poolUsed.set i true
        pool := s.pool.set i { FrwMsgNode.zeroed with
          bits := (0x08 : UInt8) ||| (UInt8.ofNat i &&& 0x0f) <<< 4 } })

def localFreeMsgNode (base : ℕ) (s : FrwState) (msg : ℕ) : FrwState :=
  if msg = 0 then s
  else if msg < base then s
  else
    let idx := (msg - base) / stride
    if h : idx < poolLen ∧ (msg - base) % stride = 0 then
      { s with poolUsed := s.poolUsed.set idx false h.1 }
    else s

/-! ## §3 The FIFO -/

/-- `post`; true is `OSAL_OK`. -/
def post (s : FrwState) (node : ℕ) : Bool × FrwState :=
  if fifoLen ≤ s.fifoCount then (false, s)
  else
    let tail := (s.fifoHead + s.fifoCount) % fifoLen
    (true, { s with fifo := s.fifo.set! tail node, fifoCount := s.fifoCount + 1 })

def fifoPop (s : FrwState) : ℕ × FrwState :=
  if s.fifoCount = 0 then (0, s)
  else
    (s.fifo[s.fifoHead]!,
      { s with fifoHead := (s.fifoHead + 1) % fifoLen, fifoCount := s.fifoCount - 1 })

/-! ## §4 The machine -/

structure State where
  frw : FrwState
  held : List ℕ
  posted : List ℕ
  dispatched : List ℕ

def init : State := ⟨frw, [], [], []⟩

inductive Action where
  | fetch
  | free (msg : ℕ)
  | post (node : ℕ)
  /-- The worker's `fifo_pop`. -/
  | pop

/-- The list with a pointer that is not null. -/
def push (l : List ℕ) (p : ℕ) : List ℕ := if p = 0 then l else l ++ [p]

def step (base : ℕ) (s : State) : Action → Option State
  | .fetch =>
      let (p, frw) := localFetchMsgNode base s.frw
      some { s with frw, held := push s.held p }
  | .free msg =>
      some { s with frw := localFreeMsgNode base s.frw msg, held := s.held.filter (· ≠ msg) }
  | .post node =>
      let (ok, frw) := Frw.post s.frw node
      some { s with frw, posted := if ok then s.posted ++ [node] else s.posted }
  | .pop =>
      let (p, frw) := fifoPop s.frw
      some { s with frw, dispatched := push s.dispatched p }

/-! ## §5 The invariant -/

variable {base : ℕ} {s t : State}

def IsNode (base p : ℕ) : Prop := ∃ i : Fin poolLen, p = nodeAddr base i

/-- What the FIFO holds, oldest first. -/
def FrwState.queued (s : FrwState) : List ℕ :=
  Ring.window (fun j => s.fifo[j]!) fifoLen s.fifoHead s.fifoCount

/-- The nodes of a list of pointers. -/
def nodes (l : List ℕ) : List ℕ := l.filter (· ≠ 0)

structure Inv (base : ℕ) (s : State) : Prop where
  /-- a flag is set exactly while its node is held -/
  used : ∀ i : Fin poolLen, s.frw.poolUsed[i] = true ↔ nodeAddr base i ∈ s.held
  head_lt : s.frw.fifoHead < fifoLen
  count_le : s.frw.fifoCount ≤ fifoLen
  order : nodes s.posted = s.dispatched ++ nodes s.frw.queued

theorem nodeAddr_injective {i j : ℕ} (h : nodeAddr base i = nodeAddr base j) : i = j := by
  simp only [nodeAddr, stride] at h
  omega

theorem nodeAddr_ne_zero (hbase : 0 < base) (i : ℕ) : nodeAddr base i ≠ 0 := by
  simp only [nodeAddr]
  omega

theorem firstUnused_eq_some {used : Vector Bool poolLen} {i : Fin poolLen}
    (h : firstUnused used = some i) : used[i] = false := by
  have hnot := List.find?_some h
  simpa using hnot

theorem firstUnused_eq_none {used : Vector Bool poolLen} (h : firstUnused used = none)
    (i : Fin poolLen) : used[i] = true := by
  have hnot := List.find?_eq_none.mp h i (List.mem_finRange i)
  simpa using hnot

/-- The node that a pointer frees. -/
theorem free_cases (hbase : 0 < base) (frw : FrwState) (msg : ℕ) :
    (∃ i : Fin poolLen, msg = nodeAddr base i ∧
      localFreeMsgNode base frw msg = { frw with poolUsed := frw.poolUsed.set i false }) ∨
    (¬ IsNode base msg ∧ localFreeMsgNode base frw msg = frw) := by
  unfold localFreeMsgNode
  by_cases hnull : msg = 0
  · refine .inr ⟨?_, if_pos hnull⟩
    rintro ⟨i, rfl⟩
    exact nodeAddr_ne_zero hbase i hnull
  · rw [if_neg hnull]
    by_cases hlow : msg < base
    · refine .inr ⟨?_, if_pos hlow⟩
      rintro ⟨i, rfl⟩
      exact absurd hlow (Nat.not_lt.mpr (Nat.le_add_right _ _))
    · rw [if_neg hlow]
      by_cases hnode : (msg - base) / stride < poolLen ∧ (msg - base) % stride = 0
      · refine .inl ⟨⟨_, hnode.1⟩, ?_, dif_pos hnode⟩
        have hdiv := Nat.div_add_mod (msg - base) stride
        rw [hnode.2, Nat.add_zero, Nat.mul_comm] at hdiv
        simp only [nodeAddr, hdiv]
        omega
      · refine .inr ⟨?_, dif_neg hnode⟩
        rintro ⟨i, rfl⟩
        refine hnode ?_
        rw [nodeAddr, Nat.add_sub_cancel_left, Nat.mul_div_cancel _ (by decide), Nat.mul_mod_left]
        exact ⟨i.isLt, rfl⟩

theorem inv_init (base : ℕ) : Inv base init where
  used := fun i => by simp [init, frw]
  head_lt := by decide
  count_le := by decide
  order := rfl

/-- A fetched node was not held. -/
theorem inv_fetch (hbase : 0 < base) (h : Inv base s) (hs : step base s .fetch = some t) :
    Inv base t := by
  simp only [step, localFetchMsgNode] at hs
  cases hfirst : firstUnused s.frw.poolUsed with
  | none =>
    rw [hfirst] at hs
    cases hs
    exact h
  | some i =>
    rw [hfirst] at hs
    cases hs
    refine ⟨?_, h.head_lt, h.count_le, h.order⟩
    intro j
    have hpush : push s.held (nodeAddr base i) = s.held ++ [nodeAddr base i] :=
      if_neg (nodeAddr_ne_zero hbase i)
    simp only [hpush, List.mem_append, List.mem_singleton, ← h.used j]
    by_cases hij : (i : ℕ) = j
    · simp [Fin.ext hij]
    · have hne : nodeAddr base j ≠ nodeAddr base i := fun heq => hij (nodeAddr_injective heq).symm
      simp [Vector.getElem_set_ne, hij, hne]

theorem inv_free (hbase : 0 < base) (h : Inv base s) {msg : ℕ} (hs : step base s (.free msg) = some t) :
    Inv base t := by
  cases hs
  obtain ⟨i, rfl, hfree⟩ | ⟨hnot, hfree⟩ := free_cases hbase s.frw msg
  · refine ⟨?_, ?_, ?_, ?_⟩
    · intro j
      simp only [hfree, List.mem_filter, ← h.used j]
      by_cases hij : (i : ℕ) = j
      · simp [Fin.ext hij]
      · have hne : nodeAddr base j ≠ nodeAddr base i := fun heq => hij (nodeAddr_injective heq).symm
        simp [Vector.getElem_set_ne, hij, hne]
    · rw [hfree]
      exact h.head_lt
    · rw [hfree]
      exact h.count_le
    · rw [hfree]
      exact h.order
  · rw [hfree]
    refine ⟨?_, h.head_lt, h.count_le, h.order⟩
    intro j
    have hne : nodeAddr base j ≠ msg := fun heq => hnot ⟨j, heq.symm⟩
    simpa [hne] using h.used j

@[simp] theorem nodes_append (l l' : List ℕ) : nodes (l ++ l') = nodes l ++ nodes l' :=
  List.filter_append _ _

theorem nodes_cons (p : ℕ) (l : List ℕ) : nodes (p :: l) = push [] p ++ nodes l := by
  by_cases hp : p = 0 <;> simp [nodes, push, hp]

theorem push_eq (l : List ℕ) (p : ℕ) : push l p = l ++ push [] p := by
  by_cases hp : p = 0 <;> simp [push, hp]

/-- A posted pointer goes behind the others. -/
theorem queued_post {frw : FrwState} (hroom : frw.fifoCount < fifoLen) (node : ℕ) :
    (Frw.post frw node).2.queued = frw.queued ++ [node] := by
  have hlt : (frw.fifoHead + frw.fifoCount) % fifoLen < fifoLen := Nat.mod_lt _ (by decide)
  have hget : ∀ j, (frw.fifo.set! ((frw.fifoHead + frw.fifoCount) % fifoLen) node)[j]! =
      if (frw.fifoHead + frw.fifoCount) % fifoLen = j then node else frw.fifo[j]! :=
    fun j => ByteBuffer.getElem!_set! _ _ j _ hlt
  have hpush : Ring.window
      (fun j => (frw.fifo.set! ((frw.fifoHead + frw.fifoCount) % fifoLen) node)[j]!) fifoLen
      frw.fifoHead (frw.fifoCount + 1) = frw.queued ++ [_] :=
    Ring.window_push hroom fun j _ hj => (hget j).trans (if_neg (Ne.symm hj))
  rw [hget, if_pos rfl] at hpush
  rw [Frw.post, if_neg (Nat.not_le.mpr hroom)]
  exact hpush

theorem inv_post (h : Inv base s) {node : ℕ} (hs : step base s (.post node) = some t) :
    Inv base t := by
  simp only [step] at hs
  by_cases hfull : fifoLen ≤ s.frw.fifoCount
  · rw [Frw.post, if_pos hfull] at hs
    cases hs
    exact h
  · have hroom := Nat.lt_of_not_le hfull
    have hqueued := queued_post hroom node
    cases hs
    rw [Frw.post, if_neg hfull] at hqueued ⊢
    refine ⟨h.used, h.head_lt, hroom, ?_⟩
    rw [hqueued, if_pos rfl, nodes_append, nodes_append, h.order, List.append_assoc]

/-- The worker takes the oldest pointer. -/
theorem queued_fifoPop {frw : FrwState} (hhead : frw.fifoHead < fifoLen) (hsome : frw.fifoCount ≠ 0) :
    frw.queued = (fifoPop frw).1 :: (fifoPop frw).2.queued := by
  rw [fifoPop, if_neg hsome]
  exact Ring.window_pop _ hhead (Nat.pos_of_ne_zero hsome)

theorem inv_pop (h : Inv base s) (hs : step base s .pop = some t) : Inv base t := by
  simp only [step] at hs
  by_cases hempty : s.frw.fifoCount = 0
  · rw [fifoPop, if_pos hempty] at hs
    cases hs
    exact h
  · have hqueued := queued_fifoPop h.head_lt hempty
    have hcount := h.count_le
    have horder := h.order
    rw [hqueued, nodes_cons, ← List.append_assoc, ← push_eq] at horder
    cases hs
    rw [fifoPop, if_neg hempty] at horder ⊢
    exact ⟨h.used, Nat.mod_lt _ (by decide), Nat.le_trans (Nat.sub_le _ _) hcount, horder⟩

theorem inv_step (hbase : 0 < base) (h : Inv base s) {act : Action} (hs : step base s act = some t) :
    Inv base t := by
  cases act with
  | fetch => exact inv_fetch hbase h hs
  | free msg => exact inv_free hbase h hs
  | post node => exact inv_post h hs
  | pop => exact inv_pop h hs

/-! ## §6 Main results -/

/-- Nodes are not shared, and messages neither lost nor duplicated. -/
structure FrwLaw (base : ℕ) (s : State) : Prop where
  /-- a fetched node is one that nobody holds -/
  fetched : (localFetchMsgNode base s.frw).1 ≠ 0 →
    IsNode base (localFetchMsgNode base s.frw).1 ∧ (localFetchMsgNode base s.frw).1 ∉ s.held
  /-- null is only for a pool all of whose nodes are held -/
  exhausted : (localFetchMsgNode base s.frw).1 = 0 → ∀ p, IsNode base p → p ∈ s.held
  foreign : ∀ msg, ¬ IsNode base msg → localFreeMsgNode base s.frw msg = s.frw
  /-- the worker gets the nodes posted, in order, but for those in the FIFO -/
  order : nodes s.posted = s.dispatched ++ nodes s.frw.queued
  bound : s.frw.queued.length ≤ fifoLen
  /-- a post fails only when the FIFO is full -/
  full : ∀ node, (Frw.post s.frw node).1 = false → s.frw.queued.length = fifoLen
  /-- the worker gets null only when nothing is queued, or null is first -/
  popped : (fifoPop s.frw).1 = 0 → s.frw.queued = [] ∨ s.frw.queued.head? = some 0

theorem Inv.law (hbase : 0 < base) (h : Inv base s) : FrwLaw base s where
  fetched := by
    intro hne
    unfold localFetchMsgNode at hne ⊢
    cases hfirst : firstUnused s.frw.poolUsed with
    | none =>
      rw [hfirst] at hne
      exact absurd rfl hne
    | some i =>
      refine ⟨⟨i, rfl⟩, fun hheld => ?_⟩
      have hused := (h.used i).mpr hheld
      rw [firstUnused_eq_some hfirst] at hused
      cases hused
  exhausted := by
    rintro hnull p ⟨i, rfl⟩
    refine (h.used i).mp ?_
    unfold localFetchMsgNode at hnull
    cases hfirst : firstUnused s.frw.poolUsed with
    | none => exact firstUnused_eq_none hfirst i
    | some j =>
      rw [hfirst] at hnull
      exact absurd hnull (nodeAddr_ne_zero hbase j)
  foreign := by
    intro msg hnot
    obtain ⟨i, rfl, -⟩ | ⟨-, hfree⟩ := free_cases hbase s.frw msg
    · exact absurd ⟨i, rfl⟩ hnot
    · exact hfree
  order := h.order
  bound := by
    rw [FrwState.queued, Ring.length_window]
    exact h.count_le
  full := by
    intro node hfails
    rw [FrwState.queued, Ring.length_window]
    by_cases hfull : fifoLen ≤ s.frw.fifoCount
    · exact Nat.le_antisymm h.count_le hfull
    · rw [Frw.post, if_neg hfull] at hfails
      cases hfails
  popped := by
    intro hnull
    by_cases hempty : s.frw.fifoCount = 0
    · refine .inl (List.eq_nil_of_length_eq_zero ?_)
      rwa [FrwState.queued, Ring.length_window]
    · rw [queued_fifoPop h.head_lt hempty, hnull]
      exact .inr rfl

/-- **The law of the FRW**, in every state that calls in any order reach. -/
theorem frw_law (hbase : 0 < base) {acts : List Action} (h : Steps (step base) Always init acts s) :
    FrwLaw base s :=
  (h.invariant (inv_init base) fun _ _ _ ht _ hs => inv_step hbase ht hs).law hbase

/-- A pointer between two nodes frees nothing, and a freed node is fetched again. -/
def sampleRun : List Action :=
  [.fetch, .fetch, .post 1000, .post 1040, .free 1020, .pop, .free 1000, .fetch, .post 1000, .pop]

theorem frw_law_sample : ∃ s, s.held = [1040, 1000] ∧ s.dispatched = [1000, 1040] ∧
    s.posted = [1000, 1040, 1000] ∧ FrwLaw 1000 s := by
  have hrun : (run (step 1000) init sampleRun).map (fun s => (s.held, s.dispatched, s.posted)) =
      some ([1040, 1000], [1000, 1040], [1000, 1040, 1000]) := by decide +kernel
  obtain ⟨s, hs, hlast⟩ := Option.map_eq_some_iff.mp hrun
  obtain ⟨hheld, hrest⟩ := Prod.mk.inj hlast
  obtain ⟨hdispatched, hposted⟩ := Prod.mk.inj hrest
  exact ⟨s, hheld, hdispatched, hposted, frw_law (by decide) (Steps.of_run hs)⟩

end HisiRiscv.Wifi.Frw
