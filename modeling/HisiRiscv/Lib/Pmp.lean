/-
HisiRiscv.Lib.Pmp — physical memory protection.

The protection unit of a RISC-V hart with sixteen entries, as machine mode
sees it. Entry `i` has a configuration byte (`R`, `W`, `X`, the matching mode
and the lock bit) and an address register that holds an address divided by
four. Four configuration bytes are one register of 32 bits. A locked entry
ignores writes to its byte and to its address register, and one that is
locked in top-of-range mode also protects the address register below it,
its lower bound. An access of one byte is decided by the lowest entry that
matches its address: a locked entry by its permissions, any other lets
machine mode pass, as does no entry at all.

  §1 Registers — the state and the register writes.
  §2 Checks    — which entry matches, and what it says.
  §3 Locks     — locked entries after any sequence of writes, and the
                 addresses whose check no write can change any more.
-/
import Mathlib.Algebra.Group.Nat.Defs
import Mathlib.Data.List.FinRange
import HisiRiscv.Lib.BitFields

namespace HisiRiscv.Pmp

open HisiRiscv.BitFields

/-! ## §1 Registers -/

inductive Mode where
  | off
  | tor
  | na4
  | napot
  deriving Repr, DecidableEq

/-- The configuration bytes and the address registers. -/
structure Entries where
  cfg : Fin 16 → BitVec 8
  addr : Fin 16 → BitVec 32

def locked (c : BitVec 8) : Bool := c.getLsbD 7

def mode (c : BitVec 8) : Mode :=
  match c.getLsbD 4, c.getLsbD 3 with
  | false, false => .off
  | false, true => .tor
  | true, false => .na4
  | true, true => .napot

namespace Entries

variable (s : Entries)

/-- Configuration register `k` holds the bytes of the entries `4 * k` to `4 * k + 3`. -/
def readCfg (k : Fin 4) : BitVec 32 :=
  (s.cfg ⟨4 * k, by omega⟩).setWidth 32 ||| (s.cfg ⟨4 * k + 1, by omega⟩).setWidth 32 <<< 8 |||
    (s.cfg ⟨4 * k + 2, by omega⟩).setWidth 32 <<< 16 ||| (s.cfg ⟨4 * k + 3, by omega⟩).setWidth 32 <<< 24

/-- Whether the address register of an entry accepts writes. -/
def writable (i : Fin 16) : Bool :=
  !locked (s.cfg i) &&
    !(if h : i.val + 1 < 16 then locked (s.cfg ⟨i + 1, h⟩) && mode (s.cfg ⟨i + 1, h⟩) == .tor else false)

def writeCfg (k : Fin 4) (w : BitVec 32) : Entries :=
  { s with cfg := fun i => if i.val / 4 = k.val ∧ locked (s.cfg i) = false then field 8 (i.val % 4) w else s.cfg i }

def writeAddr (i : Fin 16) (a : BitVec 32) : Entries :=
  { s with addr := fun j => if j = i ∧ s.writable i = true then a else s.addr j }

end Entries

/-- One write to a register of the unit. -/
inductive Write where
  | cfg (k : Fin 4) (w : BitVec 32)
  | addr (i : Fin 16) (a : BitVec 32)
  deriving Repr, DecidableEq

def Entries.write (s : Entries) : Write → Entries
  | .cfg k w => s.writeCfg k w
  | .addr i a => s.writeAddr i a

theorem getLsbD_byte (c : BitVec 8) (n : Nat) {j : Nat} (hj : j < 32) :
    (c.setWidth 32 <<< n).getLsbD j = if n ≤ j ∧ j < n + 8 then c.getLsbD (j - n) else false := by
  simp only [BitVec.getLsbD_shiftLeft, BitVec.getLsbD_setWidth, hj, decide_true, Bool.true_and]
  have hn : j - n < 32 := by omega
  by_cases hlow : n ≤ j
  · by_cases hhigh : j < n + 8
    · simp [hlow, hhigh, hn]
    · have hge : 8 ≤ j - n := by omega
      simp [hhigh, BitVec.getLsbD_of_ge c _ hge]
  · have hlt : j < n := Nat.lt_of_not_le hlow
    simp [hlow, hlt]

/-- A register read gives back the bytes of its entries. -/
theorem field_readCfg (s : Entries) (k : Fin 4) (j : Fin 16) (hj : j.val / 4 = k.val) :
    field 8 (j.val % 4) (s.readCfg k) = s.cfg j := by
  have hlt : j.val % 4 < 4 := Nat.mod_lt _ (by decide)
  have hsplit : j.val = 4 * k.val + j.val % 4 := by omega
  obtain ⟨j, hj16⟩ := j
  simp only at hj hlt hsplit ⊢
  generalize j % 4 = r at hlt hsplit
  subst hsplit
  apply BitVec.eq_of_getLsbD_eq
  intro i hi
  have h32 : 8 * r + i < 32 := by omega
  have hfirst := getLsbD_byte (s.cfg ⟨4 * k, by omega⟩) 0 h32
  rw [BitVec.shiftLeft_zero] at hfirst
  rw [getLsbD_field, decide_eq_true hi, Bool.true_and, Entries.readCfg, BitVec.getLsbD_or, BitVec.getLsbD_or,
    BitVec.getLsbD_or, hfirst, getLsbD_byte _ 8 h32, getLsbD_byte _ 16 h32, getLsbD_byte _ 24 h32]
  have hr : r = 0 ∨ r = 1 ∨ r = 2 ∨ r = 3 := by omega
  rcases hr with rfl | rfl | rfl | rfl
  · rw [if_pos (by omega), if_neg (by omega), if_neg (by omega), if_neg (by omega)]
    simp
  · rw [if_neg (by omega), if_pos (by omega), if_neg (by omega), if_neg (by omega)]
    simp
  · rw [if_neg (by omega), if_neg (by omega), if_pos (by omega), if_neg (by omega)]
    simp
  · rw [if_neg (by omega), if_neg (by omega), if_neg (by omega), if_pos (by omega)]
    simp

/-! ## §2 Checks -/

inductive Access where
  | read
  | write
  | execute
  deriving Repr, DecidableEq

def permits (c : BitVec 8) : Access → Bool
  | .read => c.getLsbD 0
  | .write => c.getLsbD 1
  | .execute => c.getLsbD 2

/-- The byte addresses an entry matches, by its mode, lower bound and address register. -/
def covers (base reg a : Nat) : Mode → Bool
  | .off => false
  | .tor => decide (base ≤ a ∧ a < reg * 4)
  | .na4 => decide (a / 4 = reg)
  -- the ones at the bottom of the register and the zero above them are not compared
  | .napot => a / 4 ||| (reg ^^^ (reg + 1)) == reg ||| (reg ^^^ (reg + 1))

namespace Entries

variable (s : Entries)

/-- The lower bound of entry `i` in top-of-range mode. -/
def base (i : Fin 16) : Nat :=
  if i.val = 0 then 0 else (s.addr ⟨i.val - 1, by omega⟩).toNat * 4

/-- Whether entry `i` matches a byte address. -/
def hits (a : Nat) (i : Fin 16) : Bool :=
  covers (s.base i) (s.addr i).toNat a (mode (s.cfg i))

/-- The entry that decides about an address. -/
def deciding (a : Nat) : Option (Fin 16) := (List.finRange 16).find? (s.hits a)

/-- Whether machine mode may access a byte. -/
def check (kind : Access) (a : Nat) : Bool :=
  match s.deciding a with
  | none => true
  | some i => !locked (s.cfg i) || permits (s.cfg i) kind

end Entries

/-! ## §3 Locks -/

theorem writeCfg_cfg (s : Entries) (k : Fin 4) (w : BitVec 32) (i : Fin 16) :
    (s.writeCfg k w).cfg i =
      if i.val / 4 = k.val ∧ locked (s.cfg i) = false then field 8 (i.val % 4) w else s.cfg i := rfl

theorem writeAddr_addr (s : Entries) (i j : Fin 16) (a : BitVec 32) :
    (s.writeAddr i a).addr j = if j = i ∧ s.writable i = true then a else s.addr j := rfl

/-- Nobody changes the byte of a locked entry. -/
theorem write_cfg_of_locked {s : Entries} {i : Fin 16} (h : locked (s.cfg i) = true) (w : Write) :
    (s.write w).cfg i = s.cfg i := by
  cases w with
  | cfg k w => exact if_neg fun hc => by simp [h] at hc
  | addr j a => rfl

/-- Nor an address register that is not writable. -/
theorem write_addr_of_not_writable {s : Entries} {i : Fin 16} (h : s.writable i = false) (w : Write) :
    (s.write w).addr i = s.addr i := by
  cases w with
  | cfg k w => rfl
  | addr j a =>
    refine if_neg fun hc => ?_
    rw [← hc.1, h] at hc
    exact absurd hc.2 Bool.false_ne_true

theorem not_writable_of_locked {s : Entries} {i : Fin 16} (h : locked (s.cfg i) = true) : s.writable i = false := by
  simp [Entries.writable, h]

theorem not_writable_of_tor {s : Entries} {j : Nat} (h : j + 1 < 16)
    (hlock : locked (s.cfg ⟨j + 1, h⟩) = true) (hmode : mode (s.cfg ⟨j + 1, h⟩) = .tor) :
    s.writable ⟨j, Nat.lt_of_succ_lt h⟩ = false := by
  simp [Entries.writable, h, hlock, hmode]

/-- A locked entry matches the same addresses after any write. -/
theorem hits_write {s : Entries} {i : Fin 16} (h : locked (s.cfg i) = true) (w : Write) (a : Nat) :
    (s.write w).hits a i = s.hits a i := by
  have hcfg := write_cfg_of_locked h w
  have haddr := write_addr_of_not_writable (not_writable_of_locked h) w
  have hbase : mode (s.cfg i) = .tor → (s.write w).base i = s.base i := by
    intro hmode
    unfold Entries.base
    split
    · rfl
    · next hi =>
      obtain ⟨i, hi16⟩ := i
      simp only at hi
      obtain ⟨j, rfl⟩ : ∃ j, i = j + 1 := ⟨i - 1, by omega⟩
      simp only [Nat.add_sub_cancel]
      rw [write_addr_of_not_writable (not_writable_of_tor hi16 h hmode)]
  unfold Entries.hits
  rw [hcfg, haddr]
  cases hmode : mode (s.cfg i) with
  | tor => rw [hbase hmode]
  | off => rfl
  | na4 => rfl
  | napot => rfl

/-- Up to and including the entry that decides about `a`, all entries are locked. -/
def Settled (s : Entries) (a : Nat) (i : Fin 16) : Prop :=
  s.deciding a = some i ∧ ∀ j ≤ i, locked (s.cfg j) = true

theorem deciding_eq_some_iff (s : Entries) (a : Nat) (i : Fin 16) :
    s.deciding a = some i ↔ s.hits a i = true ∧ ∀ j < i, s.hits a j = false := by
  unfold Entries.deciding
  rw [List.find?_eq_some_iff_getElem]
  constructor
  · rintro ⟨hhit, k, hk, hki, hmiss⟩
    have hval : k = i.val := by simpa using congrArg Fin.val hki
    refine ⟨hhit, fun j hj => ?_⟩
    have hjk : j.val < k := hval ▸ hj
    simpa using hmiss j.val hjk
  · rintro ⟨hhit, hmiss⟩
    refine ⟨hhit, i.val, by simp, by simp, fun k hk => ?_⟩
    have := hmiss ⟨k, hk.trans i.isLt⟩ hk
    simpa using this

/-- A settled address stays settled, by the same entry. -/
theorem Settled.write {s : Entries} {a : Nat} {i : Fin 16} (h : Settled s a i) (w : Write) :
    Settled (s.write w) a i := by
  obtain ⟨hdec, hlock⟩ := h
  have ⟨hhit, hmiss⟩ := (deciding_eq_some_iff s a i).mp hdec
  refine ⟨(deciding_eq_some_iff _ a i).mpr ⟨?_, fun j hj => ?_⟩, fun j hj => ?_⟩
  · rw [hits_write (hlock i (Fin.le_refl i)), hhit]
  · rw [hits_write (hlock j (Fin.le_of_lt hj)), hmiss j hj]
  · rw [write_cfg_of_locked (hlock j hj), hlock j hj]

/-- The registers after a sequence of writes. -/
def Entries.writes (s : Entries) (ws : List Write) : Entries := ws.foldl Entries.write s

theorem writes_cfg_of_locked {s : Entries} {i : Fin 16} (h : locked (s.cfg i) = true) (ws : List Write) :
    (s.writes ws).cfg i = s.cfg i := by
  induction ws generalizing s with
  | nil => rfl
  | cons w ws ih =>
    have hw := write_cfg_of_locked h w
    exact (ih (by rw [hw, h])).trans hw

theorem Settled.writes {s : Entries} {a : Nat} {i : Fin 16} (h : Settled s a i) (ws : List Write) :
    Settled (s.writes ws) a i := by
  induction ws generalizing s with
  | nil => exact h
  | cons w ws ih => exact ih (h.write w)

/-- What machine mode may do at a settled address no write can change. -/
theorem Settled.check {s : Entries} {a : Nat} {i : Fin 16} (h : Settled s a i) (ws : List Write)
    (kind : Access) : (s.writes ws).check kind a = permits (s.cfg i) kind := by
  have hlock := h.2 i (Fin.le_refl i)
  unfold Entries.check
  rw [(h.writes ws).1]
  simp only [writes_cfg_of_locked hlock, hlock, Bool.not_true, Bool.false_or]

end HisiRiscv.Pmp
