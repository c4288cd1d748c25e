/-
HisiRiscv.Osal.VendorMemory — the protection entries the application owns.

Before the vendor Wi-Fi runtime starts, `prepare_vendor_memory` sets up the
protection entries 0, 1 and 5 to 11 and their memory attributes. Flashboot has
set up and locked the entries 2 to 4. Each entry takes four register writes:
the end address, the attribute, the permissions with the entry still off, and
the same byte again with top-of-range mode and the lock.

Translation notes. The register writes are the actions of a machine; the
protection unit is that of `Lib.Pmp`, the two attribute registers `0x7d8` and
`0x7d9` are plain. The addresses come from the linker and are the fields of
`Layout`; `radar_start + __radar_length` wraps. The fence at the end has no
counterpart.

  §1 Writes — the register writes and the program.
  §2 Steps  — what one write does to each entry.
  §3 Setup  — what holds along the program and at its end.
  §4 Later  — what no later write can change.
-/
import Mathlib.Data.List.Pairwise
import HisiRiscv.Lib.Pmp
import HisiRiscv.Lib.Throughout

namespace HisiRiscv.Osal.VendorMemory

open HisiRiscv.BitFields HisiRiscv.Pmp HisiRiscv.Machine

/-! ## §1 Writes -/

def pmpTorLocked : BitVec 8 := 0x88
def pmpR : BitVec 8 := 0x01
def pmpW : BitVec 8 := 0x02
def pmpX : BitVec 8 := 0x04

def ROX : BitVec 8 := pmpTorLocked ||| pmpR ||| pmpX
def RW : BitVec 8 := pmpTorLocked ||| pmpR ||| pmpW
def RWX : BitVec 8 := pmpTorLocked ||| pmpR ||| pmpW ||| pmpX

/-- The protection unit, and the registers `0x7d8` and `0x7d9`. -/
structure State where
  entries : Entries
  memattr : Fin 2 → BitVec 32

/-- The entries `write_pmpaddr` has a register name for. -/
def named : List (Fin 16) := [0, 1, 5, 6, 7, 8, 9, 10, 11]

def State.writePmpaddr (s : State) (index : Fin 16) (value : BitVec 32) : Option State :=
  if index ∈ named then some { s with entries := s.entries.writeAddr index value }
  -- `unreachable!()`
  else none

/-- The attribute register of an entry. -/
def bank (index : Fin 16) : Fin 2 := if index.val < 8 then 0 else 1

def State.writeMemattr (s : State) (index : Fin 16) (attr : BitVec 8) : State :=
  let shift := if index.val < 8 then index.val * 4 else (index.val - 8) * 4
  let value := s.memattr (bank index)
  { s with
    memattr := fun b =>
      if b = bank index then (value &&& ~~~(0xf#32 <<< shift)) ||| (attr.setWidth 32 <<< shift)
      else s.memattr b }

def State.writePmpcfgByte (s : State) (index : Fin 16) (config : BitVec 8) : Option State :=
  let shift := index.val % 4 * 8
  if h : index.val / 4 < 3 then
    let value := s.entries.readCfg ⟨index.val / 4, by omega⟩
    some { s with
      entries := s.entries.writeCfg ⟨index.val / 4, by omega⟩
        ((value &&& ~~~(0xff#32 <<< shift)) ||| (config.setWidth 32 <<< shift)) }
  -- `unreachable!()`
  else none

inductive Call where
  | pmpaddr (index : Fin 16) (value : BitVec 32)
  | memattr (index : Fin 16) (attr : BitVec 8)
  | pmpcfgByte (index : Fin 16) (config : BitVec 8)
  deriving Repr, DecidableEq

def step (s : State) : Call → Option State
  | .pmpaddr index value => s.writePmpaddr index value
  | .memattr index attr => some (s.writeMemattr index attr)
  | .pmpcfgByte index config => s.writePmpcfgByte index config

/-- The arguments of one `configure_tor`. -/
structure Region where
  index : Fin 16
  endAddr : BitVec 32
  config : BitVec 8
  attr : BitVec 8
  deriving Repr, DecidableEq

def configureTor (r : Region) : List Call :=
  [.pmpaddr r.index (r.endAddr >>> 2), .memattr r.index r.attr, .pmpcfgByte r.index (r.config &&& 0x07),
    .pmpcfgByte r.index r.config]

/-- What the linker decides. -/
structure Layout where
  sramTextBegin : BitVec 32
  sramTextEnd : BitVec 32
  radarStart : BitVec 32
  radarLength : BitVec 32
  deriving Repr, DecidableEq

def Layout.textEnd (l : Layout) : BitVec 32 := l.sramTextEnd &&& ~~~0x1f#32

def Layout.radarEnd (l : Layout) : BitVec 32 := l.radarStart + l.radarLength

def plan (l : Layout) : List Region :=
  [⟨0, 0x00180000, ROX, 3⟩, ⟨1, 0x001c8000, RW, 3⟩, ⟨5, l.sramTextBegin, RWX, 7⟩, ⟨6, l.textEnd, ROX, 7⟩,
    ⟨7, l.radarStart, RWX, 7⟩, ⟨8, l.radarEnd, RWX, 3⟩, ⟨9, 0x00a98800, RWX, 7⟩, ⟨10, 0x00c01000, ROX, 3⟩,
    ⟨11, 0x4a001000, RWX, 0⟩]

def prepareVendorMemory (l : Layout) : List Call := (plan l).flatMap configureTor

/-! ## §2 Steps -/

/-- The attribute of an entry. -/
def State.attr (s : State) (i : Fin 16) : BitVec 4 := field 4 (i.val % 8) (s.memattr (bank i))

/-- Entry `i` is the same in both states. -/
structure Same (s t : State) (i : Fin 16) : Prop where
  cfg : t.entries.cfg i = s.entries.cfg i
  addr : t.entries.addr i = s.entries.addr i
  attr : t.attr i = s.attr i

theorem Same.refl (s : State) (i : Fin 16) : Same s s i := ⟨rfl, rfl, rfl⟩

theorem Same.trans {s t u : State} {i : Fin 16} (h : Same s t i) (h' : Same t u i) : Same s u i :=
  ⟨h'.cfg.trans h.cfg, h'.addr.trans h.addr, h'.attr.trans h.attr⟩

/-- What a write for entry `i` leaves alone. -/
def Frame (s t : State) (i : Fin 16) : Prop := ∀ j ≠ i, Same s t j

section Calls

variable {s : State} {i : Fin 16}

theorem writePmpaddr_spec (hi : i ∈ named) (value : BitVec 32) :
    ∃ t, s.writePmpaddr i value = some t ∧ Frame s t i ∧ t.entries.cfg = s.entries.cfg ∧ t.attr i = s.attr i ∧
      t.entries.addr i = if s.entries.writable i = true then value else s.entries.addr i := by
  refine ⟨_, if_pos hi, fun j hj => ⟨rfl, ?_, rfl⟩, rfl, rfl, ?_⟩
  · rw [writeAddr_addr, if_neg fun h => hj h.1]
  · rw [writeAddr_addr]
    simp only [true_and]

theorem mask_four : (mask 4 : BitVec 32) = 0xf#32 := by decide

theorem mask_eight : (mask 8 : BitVec 32) = 0xff#32 := by decide

theorem writeMemattr_spec {a : BitVec 8} (ha : a.toNat < 2 ^ 4) :
    Frame s (s.writeMemattr i a) i ∧ (s.writeMemattr i a).entries = s.entries ∧
      (s.writeMemattr i a).attr i = a.setWidth 4 := by
  have hshift : (if i.val < 8 then i.val * 4 else (i.val - 8) * 4) = 4 * (i.val % 8) := by
    split <;> omega
  have hfits : (a.setWidth 32).toNat < 2 ^ 4 := by
    rw [BitVec.toNat_setWidth]
    exact Nat.lt_of_le_of_lt (Nat.mod_le ..) ha
  have hfield : ∀ j, (s.writeMemattr i a).attr j = if j = i then a.setWidth 4 else s.attr j := by
    intro j
    unfold State.attr State.writeMemattr
    simp only [hshift]
    by_cases hbank : bank j = bank i
    · rw [if_pos hbank, ← mask_four]
      have hj := field_insert (k := i.val % 8) (s.memattr (bank i)) hfits (by omega : 4 * (j.val % 8) + 4 ≤ 32)
      unfold BitFields.insert at hj
      rw [hj, hbank]
      by_cases hji : j = i
      · subst hji
        rw [if_pos rfl, if_pos rfl]
        exact BitVec.setWidth_setWidth_of_le _ (by decide)
      · have hne : j.val % 8 ≠ i.val % 8 := by
          unfold bank at hbank
          have hval : j.val ≠ i.val := fun h => hji (Fin.ext h)
          split at hbank <;> split at hbank <;> omega
        rw [if_neg hne, if_neg hji]
    · have hji : j ≠ i := fun h => hbank (h ▸ rfl)
      rw [if_neg hbank, if_neg hji]
  refine ⟨fun j hj => ⟨rfl, rfl, ?_⟩, rfl, ?_⟩
  · rw [hfield, if_neg hj]
  · rw [hfield, if_pos rfl]

/-- The other bytes of the register are written back as they were read. -/
theorem writePmpcfgByte_spec (hi : i ∈ named) (config : BitVec 8) :
    ∃ t, s.writePmpcfgByte i config = some t ∧ Frame s t i ∧ t.entries.addr = s.entries.addr ∧ t.attr i = s.attr i ∧
      t.entries.cfg i = if locked (s.entries.cfg i) = false then config else s.entries.cfg i := by
  have hword : i.val / 4 < 3 := by
    revert hi
    revert i
    decide
  have hfits : (config.setWidth 32).toNat < 2 ^ 8 := by
    rw [BitVec.toNat_setWidth]
    exact Nat.lt_of_le_of_lt (Nat.mod_le ..) config.isLt
  refine ⟨_, dif_pos hword, fun j hj => ⟨?_, rfl, rfl⟩, rfl, rfl, ?_⟩
  · rw [writeCfg_cfg, ← mask_eight, Nat.mul_comm (i.val % 4) 8]
    split
    next h =>
      have hfield := field_insert (k := i.val % 4) (s.entries.readCfg ⟨i.val / 4, by omega⟩) hfits
        (by omega : 8 * (j.val % 4) + 8 ≤ 32)
      unfold BitFields.insert at hfield
      have hne : j.val % 4 ≠ i.val % 4 := by
        have hval : j.val ≠ i.val := fun h => hj (Fin.ext h)
        have hdiv := h.1
        simp only at hdiv
        omega
      rw [hfield, if_neg hne, field_readCfg _ _ _ h.1]
    next => rfl
  · rw [writeCfg_cfg, ← mask_eight, Nat.mul_comm (i.val % 4) 8]
    have hfield := field_insert (j := i.val % 4) (k := i.val % 4) (s.entries.readCfg ⟨i.val / 4, by omega⟩) hfits
      (by omega : 8 * (i.val % 4) + 8 ≤ 32)
    unfold BitFields.insert at hfield
    rw [hfield, if_pos rfl, BitVec.setWidth_setWidth_of_le _ (by decide), BitVec.setWidth_eq]
    simp only [true_and]

end Calls

/-! ## §3 Setup -/

/-- The entry is configured as asked for. An address register that the entry above had locked keeps its value. -/
structure Complete (s₀ s : State) (r : Region) : Prop where
  cfg : s.entries.cfg r.index = r.config
  attr : s.attr r.index = r.attr.setWidth 4
  addr : s.entries.addr r.index =
    if s₀.entries.writable r.index = true then r.endAddr >>> 2 else s₀.entries.addr r.index

/-- No entry is locked before it is complete, and the entries of others are untouched. -/
structure Guarded (s₀ : State) (rs : List Region) (s : State) : Prop where
  own : ∀ r ∈ rs, locked (s.entries.cfg r.index) = false ∨ Complete s₀ s r
  others : ∀ j, (∀ r ∈ rs, r.index ≠ j) → Same s₀ s j

/-- The first entries are complete, all the others as they were. -/
structure Progress (s₀ : State) (rs : List Region) (s : State) : Prop where
  complete : ∀ r ∈ rs, Complete s₀ s r
  rest : ∀ j, (∀ r ∈ rs, r.index ≠ j) → Same s₀ s j

/-- A region `configure_tor` can set up. -/
structure Region.Ok (r : Region) : Prop where
  named : r.index ∈ named
  locks : locked r.config = true
  attr : r.attr.toNat < 2 ^ 4

theorem locked_permissions (c : BitVec 8) : locked (c &&& 0x07) = false := by
  unfold locked
  rw [BitVec.getLsbD_and, show (0x07 : BitVec 8).getLsbD 7 = false from by decide, Bool.and_false]

section Setup

variable {s₀ s t : State} {done rs : List Region} {r : Region}

theorem Complete.of_same {q : Region} (h : Complete s₀ s q) (hsame : Same s t q.index) : Complete s₀ t q :=
  ⟨hsame.cfg.trans h.cfg, hsame.attr.trans h.attr, hsame.addr.trans h.addr⟩

/-- Writes for the entry that is being set up keep the guard, as long as it is open or complete. -/
theorem Progress.guarded (h : Progress s₀ done s) (hfresh : ∀ q ∈ done, q.index ≠ r.index)
    (hlater : ∀ q ∈ rs, q.index ≠ r.index ∧ ∀ p ∈ done, p.index ≠ q.index)
    (hopen : ∀ q ∈ rs, locked (s₀.entries.cfg q.index) = false) (hframe : Frame s t r.index)
    (hr : locked (t.entries.cfg r.index) = false ∨ Complete s₀ t r) : Guarded s₀ (done ++ r :: rs) t where
  own q hq := by
    rcases List.mem_append.mp hq with hq | hq
    · exact Or.inr ((h.complete q hq).of_same (hframe _ (hfresh q hq)))
    · rcases List.mem_cons.mp hq with rfl | hq
      · exact hr
      · have hsame := (h.rest q.index (hlater q hq).2).trans (hframe _ (hlater q hq).1)
        exact Or.inl (hsame.cfg ▸ hopen q hq)
  others j hj := by
    have hjr : j ≠ r.index := (hj r (by simp)).symm
    exact (h.rest j fun q hq => hj q (by simp [hq])).trans (hframe j hjr)

/-- The entry above decides whether the address register can be written, and it is set up later. -/
theorem Progress.writable (h : Progress s₀ done s) (hbefore : ∀ q ∈ done, q.index < r.index) :
    s.entries.writable r.index = s₀.entries.writable r.index := by
  have hsame : ∀ j, r.index ≤ j → s.entries.cfg j = s₀.entries.cfg j := fun j hj =>
    (h.rest j fun q hq => Fin.ne_of_lt (Fin.lt_of_lt_of_le (hbefore q hq) hj)).cfg
  unfold Entries.writable
  rw [hsame _ (Fin.le_refl _)]
  split
  next habove => rw [hsame ⟨r.index + 1, habove⟩ (Fin.mk_le_mk.mpr (Nat.le_succ _))]
  next => rfl

/-- One `configure_tor`: the guard holds after each of its writes, and one more entry is complete. -/
theorem Progress.configureTor (h : Progress s₀ done s) (hr : r.Ok) (hbefore : ∀ q ∈ done, q.index < r.index)
    (hlater : ∀ q ∈ rs, r.index < q.index) (hunlocked : locked (s₀.entries.cfg r.index) = false)
    (hopen : ∀ q ∈ rs, locked (s₀.entries.cfg q.index) = false) :
    Throughout step (Guarded s₀ (done ++ r :: rs)) (Progress s₀ (done ++ [r])) s (VendorMemory.configureTor r) := by
  have hfresh : ∀ q ∈ done, q.index ≠ r.index := fun q hq => Fin.ne_of_lt (hbefore q hq)
  have hothers : ∀ q ∈ rs, q.index ≠ r.index ∧ ∀ p ∈ done, p.index ≠ q.index := fun q hq =>
    ⟨(Fin.ne_of_lt (hlater q hq)).symm, fun p hp => Fin.ne_of_lt (Fin.lt_trans (hbefore p hp) (hlater q hq))⟩
  have hguard : ∀ {t}, Frame s t r.index → (locked (t.entries.cfg r.index) = false ∨ Complete s₀ t r) →
      Guarded s₀ (done ++ r :: rs) t := fun hframe hown => h.guarded hfresh hothers hopen hframe hown
  have hself := h.rest r.index hfresh
  have hcfg : locked (s.entries.cfg r.index) = false := hself.cfg ▸ hunlocked
  obtain ⟨s₁, hs₁, hframe₁, hcfg₁, -, haddr₁⟩ := writePmpaddr_spec (s := s) hr.named (r.endAddr >>> 2)
  obtain ⟨hframe₂, hentries₂, hattr₂⟩ := writeMemattr_spec (s := s₁) (i := r.index) hr.attr
  obtain ⟨s₃, hs₃, hframe₃, haddr₃, hattr₃, hcfg₃⟩ :=
    writePmpcfgByte_spec (s := s₁.writeMemattr r.index r.attr) hr.named (r.config &&& 0x07)
  obtain ⟨s₄, hs₄, hframe₄, haddr₄, hattr₄, hcfg₄⟩ := writePmpcfgByte_spec (s := s₃) hr.named r.config
  have hto₂ : Frame s (s₁.writeMemattr r.index r.attr) r.index := fun j hj => (hframe₁ j hj).trans (hframe₂ j hj)
  have hto₃ : Frame s s₃ r.index := fun j hj => (hto₂ j hj).trans (hframe₃ j hj)
  have hto₄ : Frame s s₄ r.index := fun j hj => (hto₃ j hj).trans (hframe₄ j hj)
  have hopen₁ : Pmp.locked (s₁.entries.cfg r.index) = false := by rw [hcfg₁, hcfg]
  rw [hentries₂, if_pos hopen₁] at hcfg₃
  have hopen₃ : locked (s₃.entries.cfg r.index) = false := by rw [hcfg₃, locked_permissions]
  rw [if_pos hopen₃] at hcfg₄
  have hcomplete : Complete s₀ s₄ r := by
    refine ⟨hcfg₄, hattr₄.trans (hattr₃.trans hattr₂), ?_⟩
    rw [haddr₄, haddr₃, hentries₂, haddr₁, h.writable hbefore, hself.addr]
  refine Throughout.cons (hguard (fun j _ => Same.refl s j) (Or.inl hcfg)) hs₁ ?_
  refine Throughout.cons (hguard hframe₁ (Or.inl hopen₁)) rfl ?_
  refine Throughout.cons (hguard hto₂ (Or.inl (hentries₂ ▸ hopen₁))) hs₃ ?_
  refine Throughout.cons (hguard hto₃ (Or.inl hopen₃)) hs₄ ⟨hguard hto₄ (Or.inr hcomplete), fun q hq => ?_, ?_⟩
  · rcases List.mem_append.mp hq with hq | hq
    · exact (h.complete q hq).of_same (hto₄ _ (hfresh q hq))
    · exact List.mem_singleton.mp hq ▸ hcomplete
  · intro j hj
    have hjr : j ≠ r.index := (hj r (by simp)).symm
    exact (h.rest j fun q hq => hj q (by simp [hq])).trans (hto₄ j hjr)

/-- What is still to be set up is open. -/
theorem Progress.guard (h : Progress s₀ done s) (rs : List Region) (hapart : ∀ q ∈ rs, ∀ p ∈ done, p.index ≠ q.index)
    (hopen : ∀ q ∈ rs, locked (s₀.entries.cfg q.index) = false) : Guarded s₀ (done ++ rs) s where
  own q hq := by
    rcases List.mem_append.mp hq with hq | hq
    · exact Or.inr (h.complete q hq)
    · exact Or.inl ((h.rest q.index (hapart q hq)).cfg ▸ hopen q hq)
  others j hj := h.rest j fun q hq => hj q (List.mem_append_left _ hq)

/-- The whole program, by the entries that are still to be set up. -/
theorem Progress.program (h : Progress s₀ done s) (hok : ∀ r ∈ rs, r.Ok)
    (hsorted : (done ++ rs).Pairwise fun q r => q.index < r.index)
    (hopen : ∀ r ∈ rs, locked (s₀.entries.cfg r.index) = false) :
    Throughout step (Guarded s₀ (done ++ rs)) (Progress s₀ (done ++ rs)) s (rs.flatMap VendorMemory.configureTor) := by
  induction rs generalizing done s with
  | nil =>
    rw [List.append_nil]
    have hguard := h.guard [] (by simp) (by simp)
    rw [List.append_nil] at hguard
    exact ⟨hguard, h⟩
  | cons r rs ih =>
    have hsplit : done ++ r :: rs = (done ++ [r]) ++ rs := by simp
    obtain ⟨-, hrest, hcross⟩ := List.pairwise_append.mp hsorted
    have hfirst := h.configureTor (hok r (by simp)) (fun q hq => hcross q hq r (by simp))
      (List.pairwise_cons.mp hrest).1 (hopen r (by simp)) fun q hq => hopen q (by simp [hq])
    rw [List.flatMap_cons]
    refine hfirst.append fun t ht => ?_
    rw [hsplit] at hsorted ⊢
    exact ih ht (fun q hq => hok q (by simp [hq])) hsorted fun q hq => hopen q (by simp [hq])

end Setup

theorem locked_permissionBytes : locked ROX = true ∧ locked RW = true ∧ locked RWX = true := by decide

theorem plan_ok (l : Layout) : ∀ r ∈ plan l, r.Ok := by
  intro r hr
  simp only [plan, List.mem_cons, List.not_mem_nil, or_false] at hr
  rcases hr with rfl | rfl | rfl | rfl | rfl | rfl | rfl | rfl | rfl <;>
    exact ⟨by simp [named], by simp [locked_permissionBytes], by simp⟩

theorem plan_sorted (l : Layout) : (plan l).Pairwise fun q r => q.index < r.index := by
  simp [plan]

theorem map_index_plan (l : Layout) : (plan l).map Region.index = named := rfl

theorem mem_named {l : Layout} {r : Region} (hr : r ∈ plan l) : r.index ∈ named :=
  map_index_plan l ▸ List.mem_map_of_mem hr

theorem prepare_throughout (l : Layout) {s : State} (hopen : ∀ i ∈ named, locked (s.entries.cfg i) = false) :
    Throughout step (Guarded s (plan l)) (Progress s (plan l)) s (prepareVendorMemory l) := by
  have hstart : Progress s [] s := ⟨by simp, fun j _ => Same.refl s j⟩
  exact hstart.program (plan_ok l) (plan_sorted l) fun r hr => hopen r.index (mem_named hr)

/-- At no point of the setup is an entry locked that is not complete, or an entry of others changed. -/
theorem guarded_throughout (l : Layout) {s : State} {as : List Call}
    (hopen : ∀ i ∈ named, locked (s.entries.cfg i) = false) (has : as <+: prepareVendorMemory l) :
    ∃ t, run step s as = some t ∧ Guarded s (plan l) t := by
  obtain ⟨bs, hbs⟩ := has
  have h := prepare_throughout l hopen
  rw [← hbs] at h
  exact h.of_prefix

/-! ## §4 Later -/

/-- The entry is configured as listed. -/
structure Configured (t : State) (r : Region) : Prop where
  cfg : t.entries.cfg r.index = r.config
  attr : t.attr r.index = r.attr.setWidth 4
  addr : t.entries.addr r.index = r.endAddr >>> 2

/-- What the setup has made of `s`: its own entries are as listed, the others as they were. -/
structure Prepared (l : Layout) (s t : State) : Prop where
  configured : ∀ r ∈ plan l, Configured t r
  rest : ∀ j, (∀ r ∈ plan l, r.index ≠ j) → Same s t j

theorem mode_permissionBytes : mode ROX = .tor ∧ mode RW = .tor ∧ mode RWX = .tor := by decide

theorem toNat_shiftRight_two (x : BitVec 32) : (x >>> 2).toNat = x.toNat / 4 := by
  rw [BitVec.toNat_ushiftRight, Nat.shiftRight_eq_div_pow]

section Later

variable {l : Layout} {s t : State}

theorem Progress.locked (h : Progress s (plan l) t)
    (hboot : ∀ i ∈ ([2, 3, 4] : List (Fin 16)), locked (s.entries.cfg i) = true) {i : Fin 16} (hi : i ≤ 11) :
    Pmp.locked (t.entries.cfg i) = true := by
  have hcases : i ∈ named ∨ i ∈ ([2, 3, 4] : List (Fin 16)) ∧ i ∉ named := by
    revert hi
    revert i
    decide
  rcases hcases with hi | ⟨hi, hnot⟩
  · rw [← map_index_plan l] at hi
    obtain ⟨r, hr, rfl⟩ := List.mem_map.mp hi
    rw [(h.complete r hr).cfg]
    exact (plan_ok l r hr).locks
  · have hrest := h.rest i fun r hr hri => hnot (hri ▸ mem_named hr)
    rw [hrest.cfg]
    exact hboot i hi

/-- A register that could not be written must hold its end already. -/
theorem Progress.prepared (h : Progress s (plan l) t)
    (hends : ∀ r ∈ plan l, s.entries.writable r.index = true ∨ s.entries.addr r.index = r.endAddr >>> 2) :
    Prepared l s t where
  configured r hr := by
    refine ⟨(h.complete r hr).cfg, (h.complete r hr).attr, (h.complete r hr).addr.trans ?_⟩
    split
    · rfl
    · exact (hends r hr).resolve_left ‹_›
  rest := h.rest

/-- An owned entry ends at the end that is listed, and begins where the one below it ends. -/
theorem Prepared.hits (h : Prepared l s t) {r : Region} (hr : r ∈ plan l) (a : Nat) :
    t.entries.hits a r.index = decide (t.entries.base r.index ≤ a ∧ a < r.endAddr.toNat / 4 * 4) := by
  have hmode : mode r.config = .tor := by
    simp only [plan, List.mem_cons, List.not_mem_nil, or_false] at hr
    rcases hr with rfl | rfl | rfl | rfl | rfl | rfl | rfl | rfl | rfl <;> simp [mode_permissionBytes]
  rw [Entries.hits, (h.configured r hr).cfg, hmode, (h.configured r hr).addr, toNat_shiftRight_two]
  rfl

end Later

/-- The hart after flashboot: the entries 2 to 4 are locked, with the flash between the ROM's data and the text. -/
def booted : State where
  entries :=
    { cfg := fun i => if i ∈ ([2, 3, 4] : List (Fin 16)) then 0x88 else 0
      addr := fun i =>
        if i = 1 then 0x00072000 else if i = 2 then 0x00080000 else if i = 3 then 0x00120000
        else if i = 4 then 0x00280000 else 0 }
  memattr := fun _ => 0

def sampleLayout : Layout := ⟨0x00a00000, 0x00a20010, 0x00a80000, 0x2000⟩

theorem guarded_throughout_booted :
    ∃ t, run step booted ((prepareVendorMemory sampleLayout).take 5) = some t ∧
      Guarded booted (plan sampleLayout) t :=
  guarded_throughout sampleLayout (by decide) (List.take_prefix 5 _)

end HisiRiscv.Osal.VendorMemory
