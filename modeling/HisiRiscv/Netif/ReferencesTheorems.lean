/-
HisiRiscv.Netif.ReferencesTheorems — a packet buffer lives as long as someone has a reference.

The count of a buffer is the number of its references, in the driver and in calls, so
that the `pbuf_free` that finds a count of one has the last (`Inv`). No call uses a buffer
that is freed, and a buffer to which no reference is left is freed once.

  §1 What a call has.
  §2 The invariant.
  §3 Steps that keep the references.
  §4 Steps that change them.
  §5 Main result.
-/
import HisiRiscv.Lib.Ledger
import HisiRiscv.Netif.References
import Mathlib.Data.Int.Order.Basic

namespace HisiRiscv.Netif.References

open HisiRiscv.Machine HisiRiscv.Ledger

/-! ## §1 What a call has -/

/-- A call is about to free the buffer. -/
def Pc.frees (p : ℤ) : Pc → Bool
  | .kfree q => q == p
  | .load | .driver _ | .alloc _ _ | .copy _ _ _ | .call _ _ _ | .sending _ | .countFailed _ | .read _
  | .push _ _ _ | .countReceived _ | .countDropped _ | .free _ | .done _ => false

def State.freeing (s : State) (p : ℤ) : ℕ := s.tasks.countP fun t => t.pc.frees p

/-- Where a call that fails goes has no reference. -/
theorem holds_failed (sink : Bool) (error : TxError) (p : ℤ) : (State.failed sink error).holds p = false := by
  cases sink <;> rfl

theorem frees_failed (sink : Bool) (error : TxError) (p : ℤ) : (State.failed sink error).frees p = false := by
  cases sink <;> rfl

section Counts

variable {s : State} {i : ℕ} {t : Task} {p q : ℤ}

theorem holders_goto (ht : s.tasks[i]? = some t) (pc : Pc) :
    (s.goto i t pc).holders p + (t.pc.holds p).toNat = s.holders p + (pc.holds p).toNat := by
  have h := countP_set_toNat (fun t => t.pc.holds p) ht { t with pc }
  unfold State.holders State.goto
  dsimp only at h ⊢
  omega

theorem freeing_goto (ht : s.tasks[i]? = some t) (pc : Pc) :
    (s.goto i t pc).freeing p + (t.pc.frees p).toNat = s.freeing p + (pc.frees p).toNat := by
  have h := countP_set_toNat (fun t => t.pc.frees p) ht { t with pc }
  exact h

theorem holders_spawn (call : Call) (pc : Pc) :
    (s.spawn call pc).holders p = s.holders p + (pc.holds p).toNat := by
  unfold State.holders State.spawn
  rw [List.countP_append, List.countP_singleton]
  cases pc.holds p <;> simp [Nat.add_assoc]

theorem freeing_spawn (call : Call) (pc : Pc) :
    (s.spawn call pc).freeing p = s.freeing p + (pc.frees p).toNat := by
  unfold State.freeing State.spawn
  rw [List.countP_append, List.countP_singleton]
  cases pc.frees p <;> simp

theorem holders_obtain : (s.obtain q).holders p = s.holders p + if p = q then 1 else 0 := by
  unfold State.holders State.obtain
  dsimp only
  rw [Function.update_apply]
  split_ifs with heq
  · subst heq
    omega
  · rfl

theorem holders_surrender (hq : 0 < s.driver q) :
    (s.surrender q).holders p + (if p = q then 1 else 0) = s.holders p := by
  unfold State.holders State.surrender
  dsimp only
  rw [Function.update_apply]
  split_ifs with heq
  · subst heq
    omega
  · rfl

theorem holders_pos_of_task (ht : s.tasks[i]? = some t) (hp : t.pc.holds p = true) : 0 < s.holders p :=
  Nat.lt_of_lt_of_le (List.countP_pos_iff.mpr ⟨t, List.mem_of_getElem? ht, hp⟩) (Nat.le_add_left _ _)

theorem holders_pos_of_access (h : s.Access p) : 0 < s.holders p := by
  rcases h with hdriver | ⟨t, ht, hpc⟩
  · exact Nat.lt_of_lt_of_le hdriver (Nat.le_add_right _ _)
  · refine Nat.lt_of_lt_of_le (List.countP_pos_iff.mpr ⟨t, ht, ?_⟩) (Nat.le_add_left _ _)
    rw [hpc]
    exact beq_self_eq_true p

end Counts

/-! ## §2 The invariant -/

/-- A buffer has references, which its count is, or is about to be freed. -/
def Counted (b : Buffer) (holders freeing : ℕ) : Prop :=
  freeing = 0 ∧ 0 < holders ∧ b.pbuf.refCount.toInt = holders ∨ freeing = 1 ∧ holders = 0

structure Inv (s : State) : Prop where
  noFaults : s.faults = []
  null : s.buffers 0 = none
  dead : ∀ p, s.buffers p = none → s.holders p = 0 ∧ s.freeing p = 0
  live : ∀ p b, s.buffers p = some b → Counted b (s.holders p) (s.freeing p)

theorem inv_init : Inv init :=
  ⟨rfl, rfl, fun _ _ => ⟨rfl, rfl⟩, nofun⟩

section Use

variable {s : State} {i : ℕ} {t : Task} {p : ℤ}

/-- A reference keeps its buffer. -/
theorem Inv.held (h : Inv s) (hp : 0 < s.holders p) :
    ∃ b, s.buffers p = some b ∧ s.freeing p = 0 ∧ b.pbuf.refCount.toInt = s.holders p := by
  cases hb : s.buffers p with
  | none => exact absurd (h.dead p hb).1 (Nat.pos_iff_ne_zero.mp hp)
  | some b =>
    obtain ⟨hfreeing, -, hcount⟩ | ⟨-, hzero⟩ := h.live p b hb
    · exact ⟨b, rfl, hfreeing, hcount⟩
    · omega

theorem Inv.buffer_of_frees (h : Inv s) (ht : s.tasks[i]? = some t) (hp : t.pc.frees p = true) :
    ∃ b, s.buffers p = some b ∧ s.freeing p = 1 ∧ s.holders p = 0 := by
  have hpos : 0 < s.freeing p := List.countP_pos_iff.mpr ⟨t, List.mem_of_getElem? ht, hp⟩
  cases hb : s.buffers p with
  | none => exact absurd (h.dead p hb).2 (Nat.pos_iff_ne_zero.mp hpos)
  | some b =>
    obtain ⟨hzero, -, -⟩ | ⟨hone, hzero⟩ := h.live p b hb
    · omega
    · exact ⟨b, rfl, hone, hzero⟩

end Use

/-! ## §3 Steps that keep the references -/

section Keep

variable {s u : State} {i : ℕ} {t : Task} {p : ℤ}

/-- The buffers may change but for their counts, and references may change hands. -/
theorem Inv.keep (h : Inv s) (hfaults : u.faults = s.faults)
    (hbuffers : ∀ p, (u.buffers p).map (·.pbuf.refCount) = (s.buffers p).map (·.pbuf.refCount))
    (hholders : ∀ p, u.holders p = s.holders p) (hfreeing : ∀ p, u.freeing p = s.freeing p) : Inv u where
  noFaults := hfaults.trans h.noFaults
  null := by
    have hnull := hbuffers 0
    rwa [h.null, Option.map_none, Option.map_eq_none_iff] at hnull
  dead p hp := by
    have hold := hbuffers p
    rw [hp, Option.map_none, eq_comm, Option.map_eq_none_iff] at hold
    rw [hholders, hfreeing]
    exact h.dead p hold
  live p b hb := by
    have hold := hbuffers p
    rw [hb, Option.map_some, eq_comm, Option.map_eq_some_iff] at hold
    obtain ⟨b', hb', hcount⟩ := hold
    rw [hholders, hfreeing, Counted, ← hcount]
    exact h.live p b' hb'

/-- What else happens does not matter. -/
theorem Inv.congr (h : Inv s) (hbuffers : u.buffers = s.buffers) (htasks : u.tasks = s.tasks)
    (hdriver : u.driver = s.driver) (hfaults : u.faults = s.faults) : Inv u := by
  refine h.keep hfaults (fun p => by rw [hbuffers]) (fun p => ?_) fun p => ?_
  · rw [State.holders, State.holders, htasks, hdriver]
  · rw [State.freeing, State.freeing, htasks]

/-- A call goes on with what it has. -/
theorem Inv.goto (h : Inv s) (ht : s.tasks[i]? = some t) {pc : Pc}
    (hholds : ∀ p, pc.holds p = t.pc.holds p) (hfrees : ∀ p, pc.frees p = t.pc.frees p) :
    Inv (s.goto i t pc) := by
  refine h.keep rfl (fun _ => rfl) (fun p => ?_) fun p => ?_
  · have hcount := holders_goto (p := p) ht pc
    rw [hholds] at hcount
    omega
  · have hcount := freeing_goto (p := p) ht pc
    rw [hfrees] at hcount
    omega

theorem access_eq {f : Buffer → Buffer} {b : Buffer} (hb : s.buffers p = some b) :
    s.access p f = s.put p (some (f b)) := by
  rw [State.access, hb]

/-- A buffer changes, but for its count. -/
theorem Inv.access (h : Inv s) (hp : 0 < s.holders p) {f : Buffer → Buffer}
    (hf : ∀ b, (f b).pbuf.refCount = b.pbuf.refCount) : Inv (s.access p f) := by
  obtain ⟨b, hb, -⟩ := h.held hp
  rw [access_eq hb]
  refine h.keep rfl (fun q => ?_) (fun _ => rfl) fun _ => rfl
  show (Function.update s.buffers p (some (f b)) q).map _ = _
  rw [Function.update_apply]
  split_ifs with heq
  · rw [heq, hb, Option.map_some, Option.map_some, hf]
  · rfl

theorem Inv.write (h : Inv s) {f : Buffer → Buffer} (hf : ∀ b, (f b).pbuf.refCount = b.pbuf.refCount)
    (hs : s.write p f = some u) : Inv u := by
  obtain ⟨haccess, rfl⟩ := Option.ite_none_right_eq_some.mp hs |>.imp_right Option.some.inj
  exact h.access (holders_pos_of_access haccess) hf

theorem refCount_pbufHeader (p : ℤ) (b : Pbuf) (headerSize : Int16) :
    (pbufHeader p b headerSize).2.refCount = b.refCount := by
  unfold pbufHeader
  dsimp only
  split_ifs <;> rfl

theorem Inv.spawn (h : Inv s) {call : Call} {pc : Pc} (hholds : ∀ p, pc.holds p = false)
    (hfrees : ∀ p, pc.frees p = false) : Inv (s.spawn call pc) := by
  refine h.keep rfl (fun _ => rfl) (fun p => ?_) fun p => ?_
  · rw [holders_spawn, hholds]
    rfl
  · rw [freeing_spawn, hfrees]
    rfl

/-- The driver passes a reference to a call. -/
theorem Inv.pass (h : Inv s) (hp : 0 < s.driver p) {call : Call} {pc : Pc}
    (hholds : ∀ q, pc.holds q = decide (q = p)) (hfrees : ∀ q, pc.frees q = false) :
    Inv ((s.surrender p).spawn call pc) := by
  refine h.keep rfl (fun _ => rfl) (fun q => ?_) fun q => ?_
  · have hcount := holders_surrender (p := q) hp
    rw [holders_spawn, hholds]
    by_cases heq : q = p
    · rw [if_pos heq] at hcount
      rw [decide_eq_true heq]
      exact hcount
    · rw [if_neg heq] at hcount
      rw [decide_eq_false heq]
      exact hcount
  · rw [freeing_spawn, hfrees]
    rfl

end Keep

/-! ## §4 Steps that change them -/

section Change

variable {s u : State} {i : ℕ} {t : Task} {p : ℤ} {b : Buffer}

/-- One buffer changes, with its references. -/
theorem Inv.change (h : Inv s) (hp : p ≠ 0) (ob : Option Buffer) (hfaults : u.faults = s.faults)
    (hbuffers : u.buffers = Function.update s.buffers p ob)
    (hholders : ∀ q, q ≠ p → u.holders q = s.holders q)
    (hfreeing : ∀ q, q ≠ p → u.freeing q = s.freeing q)
    (hdead : ob = none → u.holders p = 0 ∧ u.freeing p = 0)
    (hlive : ∀ b, ob = some b → Counted b (u.holders p) (u.freeing p)) : Inv u where
  noFaults := hfaults.trans h.noFaults
  null := by
    rw [hbuffers, Function.update_of_ne hp.symm]
    exact h.null
  dead q hq := by
    by_cases heq : q = p
    · subst heq
      rw [hbuffers, Function.update_self] at hq
      exact hdead hq
    · rw [hbuffers, Function.update_of_ne heq] at hq
      rw [hholders q heq, hfreeing q heq]
      exact h.dead q hq
  live q b hq := by
    by_cases heq : q = p
    · subst heq
      rw [hbuffers, Function.update_self] at hq
      exact hlive b hq
    · rw [hbuffers, Function.update_of_ne heq] at hq
      rw [hholders q heq, hfreeing q heq]
      exact h.live q b hq

theorem Inv.ne_zero (h : Inv s) (hp : 0 < s.holders p) : p ≠ 0 := by
  rintro rfl
  exact Nat.pos_iff_ne_zero.mp hp (h.dead 0 h.null).1

theorem pbufAlloc_cases (length : UInt16) (address : ℤ) (area : List UInt8) :
    s.pbufAlloc length address area = none ∨ address ≠ 0 ∧ ∃ pbuf : Pbuf,
      Netif.pbufAlloc (fun _ => address) length = some (address, pbuf) ∧ pbuf.refCount = 1 ∧
        s.pbufAlloc length address area = some (address, s.put address (some ⟨pbuf, area⟩)) := by
  unfold State.pbufAlloc Netif.pbufAlloc
  dsimp only
  split_ifs with hnull
  · exact Or.inl rfl
  · exact Or.inr ⟨hnull, _, rfl, rfl, rfl⟩

/-- A buffer is made, with one reference. -/
theorem Inv.alloc (h : Inv s) (hp : p ≠ 0) (hdead : s.buffers p = none) (hcount : b.pbuf.refCount = 1)
    (hfaults : u.faults = s.faults) (hbuffers : u.buffers = Function.update s.buffers p (some b))
    (hholders : ∀ q, u.holders q = s.holders q + if q = p then 1 else 0)
    (hfreeing : ∀ q, u.freeing q = s.freeing q) : Inv u := by
  obtain ⟨hzero, hnone⟩ := h.dead p hdead
  refine h.change hp (some b) hfaults hbuffers (fun q hq => ?_) (fun q _ => hfreeing q) nofun fun b' hb' => ?_
  · rw [hholders, if_neg hq, Nat.add_zero]
  · cases hb'
    have hone := hholders p
    rw [if_pos rfl, hzero] at hone
    refine Or.inl ⟨(hfreeing p).trans hnone, by omega, ?_⟩
    rw [hcount, hone]
    rfl

theorem toInt_add_one {x : Int32} (h : x.toInt < 2 ^ 31 - 1) : (x + 1).toInt = x.toInt + 1 := by
  rw [Int32.toInt_add]
  have hone : (1 : Int32).toInt = 1 := rfl
  have hle := x.le_toInt
  rw [hone, Int.bmod_eq_of_le] <;> omega

theorem toInt_sub_one {x : Int32} (h : 0 < x.toInt) : (x - 1).toInt = x.toInt - 1 := by
  rw [Int32.toInt_sub]
  have hone : (1 : Int32).toInt = 1 := rfl
  have hlt := x.toInt_lt
  rw [hone, Int.bmod_eq_of_le] <;> omega

/-- The driver takes a reference. -/
theorem Inv.ref (h : Inv s) (hp : s.Access p) (hrange : s.holders p < 2 ^ 31 - 1) :
    Inv ((s.pbufRef p).obtain p) := by
  have hpos := holders_pos_of_access hp
  obtain ⟨b, hb, hfreeing, hcount⟩ := h.held hpos
  rw [State.pbufRef, if_neg (h.ne_zero hpos), access_eq hb]
  refine h.change (h.ne_zero hpos) (some _) rfl rfl (fun q hq => ?_) (fun _ _ => rfl) nofun fun b' hb' => ?_
  · rw [holders_obtain, if_neg hq]
    rfl
  · have hholders : ((s.put p (some { b with pbuf :=
        { b.pbuf with refCount := b.pbuf.refCount + 1 } })).obtain p).holders p = s.holders p + 1 := by
      rw [holders_obtain, if_pos rfl]
      rfl
    cases hb'
    refine Or.inl ⟨hfreeing, by omega, ?_⟩
    rw [hholders, toInt_add_one (by omega), hcount]
    rfl

/-- What a call has, where it has no more than one buffer. -/
theorem Pc.holds_eq (pc : Pc) (hp : pc.holds p = true) (q : ℤ) : pc.holds q = decide (q = p) := by
  cases pc with
  | copy _ _ r | call _ _ r | sending r | read r | push r _ _ | countReceived r | countDropped r | free r =>
    obtain rfl : r = p := beq_iff_eq.mp hp
    exact Bool.eq_iff_iff.mpr (by rw [Pc.holds, beq_iff_eq, decide_eq_true_eq, eq_comm])
  | load | driver _ | alloc _ _ | countFailed _ | kfree _ | done _ => cases hp

/-- A call changes its buffer, and goes on. -/
theorem Inv.putGoto (h : Inv s) (ht : s.tasks[i]? = some t) (hp : p ≠ 0) {ob : Option Buffer} {pc : Pc}
    (hother : ∀ q, q ≠ p → t.pc.holds q = false ∧ pc.holds q = false ∧ t.pc.frees q = false ∧
      pc.frees q = false)
    (hdead : ob = none → s.holders p + (pc.holds p).toNat = (t.pc.holds p).toNat ∧
      s.freeing p + (pc.frees p).toNat = (t.pc.frees p).toNat)
    (hlive : ∀ b holders freeing, ob = some b →
      holders + (t.pc.holds p).toNat = s.holders p + (pc.holds p).toNat →
      freeing + (t.pc.frees p).toNat = s.freeing p + (pc.frees p).toNat → Counted b holders freeing) :
    Inv ((s.put p ob).goto i t pc) := by
  have htask : (s.put p ob).tasks[i]? = some t := ht
  have hholders : ∀ q, ((s.put p ob).goto i t pc).holders q + (t.pc.holds q).toNat =
      s.holders q + (pc.holds q).toNat := fun q => holders_goto htask pc
  have hfreeing : ∀ q, ((s.put p ob).goto i t pc).freeing q + (t.pc.frees q).toNat =
      s.freeing q + (pc.frees q).toNat := fun q => freeing_goto htask pc
  refine h.change hp ob rfl rfl (fun q hq => ?_) (fun q hq => ?_) (fun hob => ?_)
    fun b hb => hlive b _ _ hb (hholders p) (hfreeing p)
  · obtain ⟨hholds, hholds', -, -⟩ := hother q hq
    have hq' := hholders q
    rwa [hholds, hholds'] at hq'
  · obtain ⟨-, -, hfrees, hfrees'⟩ := hother q hq
    have hq' := hfreeing q
    rwa [hfrees, hfrees'] at hq'
  · obtain ⟨hnone, hnone'⟩ := hdead hob
    have hp' := hholders p
    have hf' := hfreeing p
    omega

theorem holds_other {pc : Pc} (hpc : t.pc = .free p) (hpc' : pc = .kfree p ∨ ∃ r, pc = .done r) (q : ℤ)
    (hq : q ≠ p) :
    t.pc.holds q = false ∧ pc.holds q = false ∧ t.pc.frees q = false ∧ pc.frees q = false := by
  have hne : (p == q) = false := beq_eq_false_iff_ne.mpr hq.symm
  obtain rfl | ⟨r, rfl⟩ := hpc'
  · rw [hpc]
    exact ⟨hne, rfl, rfl, hne⟩
  · rw [hpc]
    exact ⟨hne, rfl, rfl, rfl⟩

section Free

variable (h : Inv s) (ht : s.tasks[i]? = some t) (hpc : t.pc = .free p) (hb : s.buffers p = some b)

include h ht hpc hb

theorem Inv.count_of_free : p ≠ 0 ∧ 0 < s.holders p ∧ s.freeing p = 0 ∧
    b.pbuf.refCount.toInt = s.holders p := by
  have hpos : 0 < s.holders p := holders_pos_of_task ht (by rw [hpc]; exact beq_self_eq_true p)
  obtain ⟨b', hb', hfreeing, hcount⟩ := h.held hpos
  obtain rfl := Option.some.inj (hb.symm.trans hb')
  exact ⟨h.ne_zero hpos, hpos, hfreeing, hcount⟩

/-- `pbuf_free` drops a reference that is not the last one. -/
theorem Inv.drop (hlt : 1 < b.pbuf.refCount) {b' : Buffer}
    (hb' : b'.pbuf.refCount = b.pbuf.refCount - 1) (r : Return) :
    Inv ((s.put p (some b')).goto i t (.done r)) := by
  obtain ⟨hne, -, hfreeing, hcount⟩ := h.count_of_free ht hpc hb
  have hone : (1 : Int32).toInt = 1 := rfl
  rw [Int32.lt_iff_toInt_lt, hone] at hlt
  refine h.putGoto ht hne (holds_other hpc (Or.inr ⟨r, rfl⟩)) nofun fun b'' holders freeing heq hh hf => ?_
  cases heq
  have hholds : (t.pc.holds p).toNat = 1 := by rw [hpc, Pc.holds, beq_self_eq_true, Bool.toNat_true]
  have hfrees : (t.pc.frees p).toNat = 0 := by rw [hpc]; rfl
  have hdone : ((Pc.done r).holds p).toNat = 0 ∧ ((Pc.done r).frees p).toNat = 0 := ⟨rfl, rfl⟩
  refine Or.inl ⟨by omega, by omega, ?_⟩
  rw [hb', toInt_sub_one (by omega)]
  omega

/-- The last one is dropped, and the buffer is about to be freed. -/
theorem Inv.last (hle : ¬ 1 < b.pbuf.refCount) {b' : Buffer} :
    Inv ((s.put p (some b')).goto i t (.kfree p)) := by
  obtain ⟨hne, hpos, hfreeing, hcount⟩ := h.count_of_free ht hpc hb
  have hone : (1 : Int32).toInt = 1 := rfl
  rw [Int32.lt_iff_toInt_lt, hone] at hle
  refine h.putGoto ht hne (holds_other hpc (Or.inl rfl)) nofun fun b'' holders freeing heq hh hf => ?_
  have hholds : (t.pc.holds p).toNat = 1 := by rw [hpc, Pc.holds, beq_self_eq_true, Bool.toNat_true]
  have hfrees : (t.pc.frees p).toNat = 0 := by rw [hpc]; rfl
  have hkfree : ((Pc.kfree p).holds p).toNat = 0 ∧ ((Pc.kfree p).frees p).toNat = 1 :=
    ⟨rfl, by rw [Pc.frees, beq_self_eq_true, Bool.toNat_true]⟩
  exact Or.inr ⟨by omega, by omega⟩

end Free

/-- The block goes back, and nobody has it. -/
theorem Inv.kfree (h : Inv s) (ht : s.tasks[i]? = some t) (hpc : t.pc = .kfree p) (r : Return) :
    Inv ((s.put p none).goto i t (.done r)) := by
  have hfrees : t.pc.frees p = true := by rw [hpc, Pc.frees, beq_self_eq_true]
  obtain ⟨b, hb, hone, hzero⟩ := h.buffer_of_frees ht hfrees
  have hne : p ≠ 0 := by
    rintro rfl
    rw [h.null] at hb
    cases hb
  refine h.putGoto ht hne (fun q hq => ?_) (fun _ => ?_) nofun
  · rw [hpc]
    exact ⟨rfl, rfl, beq_eq_false_iff_ne.mpr hq.symm, rfl⟩
  · rw [hfrees, hzero, hone, hpc]
    exact ⟨rfl, rfl⟩

end Change

/-! ## §5 Main result -/

section Main

variable {s u : State} {i : ℕ} {t : Task}

theorem Inv.advance (h : Inv s) (ht : s.tasks[i]? = some t) (hs : s.advance i t = some u) : Inv u := by
  obtain ⟨call, pc⟩ := t
  unfold State.advance at hs
  dsimp only at hs
  have hheld : ∀ {p : ℤ}, pc.holds p = true → ∃ b, s.buffers p = some b := fun hp =>
    let ⟨b, hb, _⟩ := h.held (holders_pos_of_task ht hp)
    ⟨b, hb⟩
  split at hs
  next frame sink =>
    split_ifs at hs <;> cases hs
    · exact h.goto ht (holds_failed _ _) (frees_failed _ _)
    · exact h.goto ht (holds_failed _ _) (frees_failed _ _)
    · exact h.goto ht (fun _ => rfl) fun _ => rfl
  next sink netif =>
    split_ifs at hs <;> cases hs
    · exact h.goto ht (holds_failed _ _) (frees_failed _ _)
    · exact h.goto ht (fun _ => rfl) fun _ => rfl
  next frame sink netif send p =>
    cases hs
    have hpos : 0 < s.holders p := holders_pos_of_task ht (beq_self_eq_true p)
    obtain ⟨b, hb, -⟩ := h.held hpos
    have haccess := h.access (f := fun b => b.overwrite p b.pbuf.payload frame) hpos fun _ => rfl
    rw [access_eq hb] at haccess ⊢
    exact haccess.goto (i := i) ht (fun _ => rfl) fun _ => rfl
  next netif send p =>
    obtain ⟨b, hb⟩ := hheld (beq_self_eq_true p)
    rw [hb] at hs
    cases hs
    have hnext : Inv (s.goto i _ (.sending p)) := h.goto ht (fun _ => rfl) fun _ => rfl
    exact hnext.congr rfl rfl rfl rfl
  next p =>
    cases hs
    exact h.goto ht (fun _ => rfl) fun _ => rfl
  next error =>
    cases hs
    have hnext : Inv (s.goto i _ (.done (.transmitted (.error error)))) := h.goto ht (fun _ => rfl) fun _ => rfl
    exact hnext.congr rfl rfl rfl rfl
  next p =>
    obtain ⟨b, hb⟩ := hheld (beq_self_eq_true p)
    rw [hb] at hs
    dsimp only at hs
    split_ifs at hs <;> cases hs
    · exact h.goto ht (fun _ => rfl) fun _ => rfl
    · exact h.goto ht (fun _ => rfl) fun _ => rfl
  next p payload len =>
    obtain ⟨b, hb⟩ := hheld (beq_self_eq_true p)
    rw [hb] at hs
    cases hs
    have hnext : Inv (s.goto i _ (.countReceived p)) := h.goto ht (fun _ => rfl) fun _ => rfl
    exact hnext.congr rfl rfl rfl rfl
  next p =>
    cases hs
    have hnext : Inv (s.goto i _ (.free p)) := h.goto ht (fun _ => rfl) fun _ => rfl
    exact hnext.congr rfl rfl rfl rfl
  next p =>
    cases hs
    have hnext : Inv (s.goto i _ (.free p)) := h.goto ht (fun _ => rfl) fun _ => rfl
    exact hnext.congr rfl rfl rfl rfl
  next p =>
    obtain ⟨b, hb⟩ := hheld (beq_self_eq_true p)
    rw [hb] at hs
    dsimp only at hs
    split_ifs at hs with hlt <;> cases hs
    · exact h.drop ht rfl hb hlt rfl _
    · exact h.last ht rfl hb hlt
  next p =>
    obtain ⟨b, hb, -⟩ := h.buffer_of_frees ht (p := p) (beq_self_eq_true p)
    rw [hb] at hs
    cases hs
    exact h.kfree ht rfl _
  next => cases hs

theorem Inv.allocated (h : Inv s) (ht : s.tasks[i]? = some t) {address : ℤ} {area : List UInt8}
    (hfree : s.buffers address = none) (hs : s.allocated i t address area = some u) : Inv u := by
  obtain ⟨call, pc⟩ := t
  unfold State.allocated at hs
  dsimp only at hs
  split at hs
  next frame sink netif send =>
    obtain hnone | ⟨hne, pbuf, -, hcount, hsome⟩ :=
      pbufAlloc_cases (s := s) (UInt16.ofNat frame.length) address area
    · rw [hnone] at hs
      cases hs
      exact h.goto ht (holds_failed _ _) (frees_failed _ _)
    · rw [hsome] at hs
      cases hs
      refine h.alloc (b := ⟨pbuf, area⟩) hne hfree hcount rfl rfl (fun q => ?_) fun q => ?_
      · have hq := holders_goto (s := s.put address (some ⟨pbuf, area⟩)) (p := q) ht (.copy netif send address)
        rw [Pc.holds_eq (.copy netif send address) (beq_self_eq_true address)] at hq
        by_cases heq : q = address
        · rw [decide_eq_true heq] at hq
          rw [if_pos heq]
          exact hq
        · rw [decide_eq_false heq] at hq
          rw [if_neg heq]
          exact hq
      · exact freeing_goto (s := s.put address (some ⟨pbuf, area⟩)) (p := q) ht (.copy netif send address)
  next => cases hs

theorem Inv.step {a : Action} (h : Inv s) (hrange : InRange s a) (hs : step s a = some u) : Inv u := by
  cases a with
  | transmit frame sink =>
    cases hs
    exact h.spawn (fun _ => rfl) fun _ => rfl
  | run i =>
    obtain ⟨t, ht, hs⟩ := Option.bind_eq_some_iff.mp hs
    exact h.advance ht hs
  | kmalloc i address area =>
    unfold References.step at hs
    dsimp only at hs
    split at hs
    next frame sink pc ht =>
      obtain ⟨hfresh, hs⟩ := Option.ite_none_right_eq_some.mp hs
      exact h.allocated ht hfresh.1 hs
    next => cases hs
  | alloc length address area =>
    obtain ⟨hfresh, hs⟩ := Option.ite_none_right_eq_some.mp hs
    obtain hnone | ⟨hne, pbuf, -, hcount, hsome⟩ := pbufAlloc_cases (s := s) length address area
    · rw [hnone] at hs
      cases hs
      exact h
    · rw [hsome] at hs
      cases hs
      exact h.alloc (b := ⟨pbuf, area⟩) hne hfresh.1 hcount rfl rfl (fun _ => holders_obtain) fun _ => rfl
  | ref p =>
    unfold References.step at hs
    dsimp only at hs
    split_ifs at hs with hnull haccess <;> cases hs
    · exact h
    · exact h.ref haccess (hrange p rfl)
  | free p =>
    unfold References.step at hs
    dsimp only at hs
    split_ifs at hs with hnull hpos <;> cases hs
    · exact h.spawn (fun _ => rfl) fun _ => rfl
    · exact h.pass hpos (Pc.holds_eq (.free p) (beq_self_eq_true p)) fun _ => rfl
  | input p =>
    unfold References.step at hs
    dsimp only at hs
    split_ifs at hs with hnull hpos <;> cases hs
    · exact h.spawn (fun _ => rfl) fun _ => rfl
    · exact h.pass hpos (Pc.holds_eq (.read p) (beq_self_eq_true p)) fun _ => rfl
  | header p headerSize => exact h.write (fun b => refCount_pbufHeader p b.pbuf headerSize) hs
  | place p payload len totLen =>
    obtain ⟨-, hs⟩ := Option.ite_none_right_eq_some.mp hs
    exact h.write (f := fun b => { b with pbuf := { b.pbuf with payload, len, totLen } }) (fun _ => rfl) hs
  | store p offset byte =>
    exact h.write (f := fun b => { b with area := b.area.set offset byte }) (fun _ => rfl) hs
  | netifAdd netif =>
    cases hs
    exact h.congr rfl rfl rfl rfl
  | netifRemove netif =>
    cases hs
    split_ifs
    · exact h.keep rfl (fun _ => rfl) (fun _ => rfl) fun _ => rfl
    · exact h
  | install netif send =>
    cases hs
    exact h.congr rfl rfl rfl rfl

theorem inv_of_steps {as : List Action} (h : Steps step InRange init as s) : Inv s :=
  h.invariant inv_init fun _ _ _ hI hrange hs => hI.step hrange hs

/-- Every call has returned. -/
def Idle (s : State) : Prop := ∀ t ∈ s.tasks, ∃ r, t.pc = .done r

/-- The life of the buffers. -/
structure Owned (s : State) : Prop where
  /-- No buffer is used or freed that is not there. -/
  noFaults : s.faults = []
  /-- A buffer that someone has is there, and its count is right. -/
  held : ∀ p, 0 < s.holders p → ∃ b, s.buffers p = some b ∧ b.pbuf.refCount.toInt = s.holders p
  /-- A buffer that nobody has is being freed, by one call. -/
  released : ∀ p b, s.buffers p = some b → s.holders p = 0 → s.freeing p = 1
  /-- Calls leave no buffer behind. -/
  idle : Idle s → ∀ p, s.buffers p = none ↔ s.driver p = 0

theorem Idle.holders (h : Idle s) (p : ℤ) : s.holders p = s.driver p := by
  have hzero : (s.tasks.countP fun t => t.pc.holds p) = 0 := by
    refine List.countP_eq_zero.mpr fun t ht => ?_
    obtain ⟨r, hr⟩ := h t ht
    rw [hr]
    exact Bool.false_ne_true
  rw [State.holders, hzero, Nat.add_zero]

theorem Idle.freeing (h : Idle s) (p : ℤ) : s.freeing p = 0 := by
  refine List.countP_eq_zero.mpr fun t ht => ?_
  obtain ⟨r, hr⟩ := h t ht
  rw [hr]
  exact Bool.false_ne_true

/-- In every run, a buffer is there exactly as long as someone has a reference to it. -/
theorem references_owned (as : List Action) (s : State) (h : Steps step InRange init as s) : Owned s := by
  have hinv := inv_of_steps h
  refine ⟨hinv.noFaults, fun p hp => ?_, fun p b hb hzero => ?_, fun hidle p => ?_⟩
  · obtain ⟨b, hb, -, hcount⟩ := hinv.held hp
    exact ⟨b, hb, hcount⟩
  · obtain ⟨-, hpos, -⟩ | ⟨hone, -⟩ := hinv.live p b hb
    · omega
    · exact hone
  · rw [← hidle.holders]
    refine ⟨fun hnone => (hinv.dead p hnone).1, fun hzero => ?_⟩
    cases hb : s.buffers p with
    | none => rfl
    | some b =>
      obtain ⟨-, hpos, -⟩ | ⟨hone, -⟩ := hinv.live p b hb
      · omega
      · rw [hidle.freeing] at hone
        cases hone

/-- The driver keeps a frame that it was sent for a while. -/
def keptActions : List Action :=
  [.netifAdd 100, .install 100 7, .transmit [1, 2, 3] true, .run 0, .run 0,
    .kmalloc 0 4096 (List.replicate 87 0), .run 0, .run 0, .ref 4096, .run 0, .run 0, .free 4096, .run 1, .run 1]

theorem references_owned_kept :
    ∃ s, Steps step InRange init keptActions s ∧ Owned s ∧ s.buffers 4096 = none := by
  obtain ⟨s, hs⟩ := Option.isSome_iff_exists.mp
    (by decide +kernel : (run (guarded step InRange) init keptActions).isSome = true)
  have hfreed : (run (guarded step InRange) init keptActions).map (·.buffers 4096) = some none := by
    decide +kernel
  rw [hs, Option.map_some, Option.some_inj] at hfreed
  have hrun := Steps.of_run_guarded hs
  exact ⟨s, hrun, references_owned keptActions s hrun, hfreed⟩

end Main

end HisiRiscv.Netif.References
