/-
HisiRiscv.Lib.ByteMemory — a flat memory of bytes, and values laid out in it.

A write replaces the bytes of its window (`read_write`) and no others (`write_outside`). A
`Codec` says how the values of a type lie in memory, and `save` and `load` inherit the two facts.
`roundUp` is the rule by which a C compiler places the fields of a record.
-/
import Mathlib.Data.List.GetD
import Mathlib.Algebra.Group.Nat.Defs

namespace HisiRiscv.ByteMemory

abbrev Memory : Type := ℕ → UInt8

section Windows

variable {m : Memory} {address address' n : ℕ} {bytes : List UInt8}

def read (m : Memory) (address n : ℕ) : List UInt8 := (List.range n).map fun i => m (address + i)

def write (m : Memory) (address : ℕ) (bytes : List UInt8) : Memory := fun a =>
  if address ≤ a ∧ a < address + bytes.length then bytes.getD (a - address) 0 else m a

theorem write_outside {a : ℕ} (h : a < address ∨ address + bytes.length ≤ a) :
    write m address bytes a = m a := if_neg (by omega)

theorem read_write : read (write m address bytes) address bytes.length = bytes := by
  refine List.ext_getElem (by rw [read, List.length_map, List.length_range]) fun i _ hi => ?_
  have hinside : address ≤ address + i ∧ address + i < address + bytes.length := by omega
  simp only [read, List.getElem_map, List.getElem_range, write]
  rw [if_pos hinside, Nat.add_sub_cancel_left, List.getD_eq_getElem _ _ hi]

theorem read_write_apart (h : address' + n ≤ address ∨ address + bytes.length ≤ address') :
    read (write m address bytes) address' n = read m address' n := by
  refine List.map_congr_left fun i hi => write_outside ?_
  have hlt := List.mem_range.mp hi
  omega

theorem read_congr {m' : Memory} (h : ∀ a, address ≤ a → a < address + n → m' a = m a) :
    read m' address n = read m address n := by
  refine List.map_congr_left fun i hi => h _ (Nat.le_add_right ..) ?_
  exact Nat.add_lt_add_left (List.mem_range.mp hi) _

/-- A little-endian word. -/
def word (m : Memory) (address : ℕ) : UInt32 :=
  UInt32.ofNat ((read m address 4).foldr (fun byte n => byte.toNat + 256 * n) 0)

end Windows

/-! ## Values in memory -/

structure Codec (V : Type) where
  size : ℕ
  align : ℕ
  align_pos : 0 < align
  /-- what bytes mean that no value has is left open -/
  decode : List UInt8 → V
  encode : V → List UInt8
  length_encode : ∀ v, (encode v).length = size
  decode_encode : ∀ v, decode (encode v) = v

/-- An array of bytes, which lies in memory as it is. -/
def Codec.bytes (n : ℕ) : Codec (Vector UInt8 n) where
  size := n
  align := 1
  align_pos := Nat.one_pos
  decode := fun bytes => Vector.ofFn fun i => bytes.getD i 0
  encode := fun v => v.toList
  length_encode := fun v => v.length_toList
  decode_encode := fun v => by
    ext i hi
    simp

/-- A little-endian word. -/
def Codec.word : Codec UInt32 where
  size := 4
  align := 4
  align_pos := by decide
  decode := fun bytes => UInt32.ofNat (bytes.foldr (fun byte n => byte.toNat + 256 * n) 0)
  encode := fun v => [v.toUInt8, (v >>> 8).toUInt8, (v >>> 16).toUInt8, (v >>> 24).toUInt8]
  length_encode := fun _ => rfl
  decode_encode := fun v => by
    have hlt := v.toNat_lt
    apply UInt32.toNat_inj.mp
    simp only [List.foldr_cons, List.foldr_nil, UInt32.toNat_ofNat', UInt32.toNat_toUInt8,
      UInt32.toNat_shiftRight, UInt32.reduceToNat, Nat.reduceMod, Nat.shiftRight_eq_div_pow]
    omega

section Values

variable {V : Type} (codec : Codec V) {m : Memory} {address address' : ℕ}

def load (m : Memory) (address : ℕ) : V := codec.decode (read m address codec.size)

def save (m : Memory) (address : ℕ) (v : V) : Memory := write m address (codec.encode v)

theorem save_outside {a : ℕ} (v : V) (h : a < address ∨ address + codec.size ≤ a) :
    save codec m address v a = m a := write_outside (by rwa [codec.length_encode])

theorem load_save (v : V) : load codec (save codec m address v) address = v := by
  have hread : read (write m address (codec.encode v)) address (codec.encode v).length = _ := read_write
  rw [codec.length_encode] at hread
  rw [load, save, hread, codec.decode_encode]

theorem load_congr {m' : Memory} (h : ∀ a, address ≤ a → a < address + codec.size → m' a = m a) :
    load codec m' address = load codec m address := by
  rw [load, load, read_congr h]

theorem word_congr {m' : Memory} (h : ∀ a, address ≤ a → a < address + 4 → m' a = m a) :
    word m' address = word m address := by
  rw [word, word, read_congr h]

theorem word_save_self (v : UInt32) : word (save Codec.word m address v) address = v :=
  load_save Codec.word v

/-- A store leaves the words and the values apart from it. -/
theorem word_save (v : V) (h : address' + 4 ≤ address ∨ address + codec.size ≤ address') :
    word (save codec m address v) address' = word m address' := by
  rw [word, word, save, read_write_apart (by rwa [codec.length_encode])]

theorem load_save_apart {W : Type} (other : Codec W) (v : V)
    (h : address' + other.size ≤ address ∨ address + codec.size ≤ address') :
    load other (save codec m address v) address' = load other m address' := by
  rw [load, load, save, read_write_apart (by rwa [codec.length_encode])]

end Values

/-- The next multiple of `align`. -/
def roundUp (n align : ℕ) : ℕ := (n + (align - 1)) / align * align

theorem le_roundUp {n align : ℕ} (h : 0 < align) : n ≤ roundUp n align := by
  have hdiv := Nat.div_add_mod (n + (align - 1)) align
  have hmod := Nat.mod_lt (n + (align - 1)) h
  rw [Nat.mul_comm] at hdiv
  rw [roundUp]
  omega

end HisiRiscv.ByteMemory
