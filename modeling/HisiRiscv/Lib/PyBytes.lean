/-
HisiRiscv.Lib.PyBytes — byte strings: their lines, and their text.

`bytes.splitlines` splits at a line feed, a carriage return or both in a row. `decode` with
`errors="replace"` writes a replacement character for the longest part of a sequence that a byte
breaks off, and goes on at this byte. The ASCII text of a byte string is the byte string again
(`decode_encode`).

  §1 Lines.
  §2 UTF-8.
-/
import HisiRiscv.Lib.PyText

namespace HisiRiscv.PyBytes

open PyText

abbrev Bytes : Type := List UInt8

/-! ## §1 Lines -/

def isNewline (b : UInt8) : Bool := b == 10 || b == 13

/-- `bytes.splitlines`. -/
def splitlines : Bytes → List Bytes
  | [] => []
  | 13 :: 10 :: bytes => [] :: splitlines bytes
  | b :: bytes =>
    if isNewline b then [] :: splitlines bytes
    else
      match splitlines bytes with
      | [] => [[b]]
      | line :: lines => (b :: line) :: lines

section Lines

variable {line rest newline : Bytes} {b : UInt8}

theorem splitlines_cons (h : isNewline b = false) : splitlines (b :: rest) =
    match splitlines rest with
    | [] => [[b]]
    | line :: lines => (b :: line) :: lines := by
  rw [splitlines, h]
  · rfl
  · rintro bytes rfl -
    cases h

theorem splitlines_line (hline : ∀ b ∈ line, isNewline b = false)
    (hnewline : newline = [10] ∨ newline = [13, 10]) :
    splitlines (line ++ (newline ++ rest)) = line :: splitlines rest := by
  induction line with
  | nil =>
    obtain rfl | rfl := hnewline
    · rfl
    · rfl
  | cons b line ih =>
    obtain ⟨hb, hline⟩ := List.forall_mem_cons.mp hline
    rw [List.cons_append, splitlines_cons hb, ih hline]

theorem splitlines_last (hline : ∀ b ∈ line, isNewline b = false) (hne : line ≠ []) :
    splitlines line = [line] := by
  induction line with
  | nil => exact absurd rfl hne
  | cons b line ih =>
    obtain ⟨hb, hline⟩ := List.forall_mem_cons.mp hline
    rw [splitlines_cons hb]
    by_cases hnil : line = []
    · subst hnil
      rfl
    · rw [ih hline hnil]

/-- Lines with an end, and a last one without. -/
theorem splitlines_unlines {lines : List Bytes} {last : Bytes}
    (hlines : ∀ line ∈ lines, ∀ b ∈ line, isNewline b = false)
    (hlast : ∀ b ∈ last, isNewline b = false) (hnewline : newline = [10] ∨ newline = [13, 10]) :
    splitlines ((lines.flatMap fun line => line ++ newline) ++ last) =
      lines ++ if last = [] then [] else [last] := by
  induction lines with
  | nil =>
    rw [List.flatMap_nil, List.nil_append, List.nil_append]
    split
    · rename_i hnil
      rw [hnil]
      rfl
    · rename_i hne
      exact splitlines_last hlast hne
  | cons line lines ih =>
    obtain ⟨hline, hlines⟩ := List.forall_mem_cons.mp hlines
    rw [List.flatMap_cons, List.append_assoc, List.append_assoc, splitlines_line hline hnewline,
      ih hlines, List.cons_append]

end Lines

/-! ## §2 UTF-8 -/

/-- A sequence that has begun: the bytes to come, the value so far, and the bounds of the next
byte. -/
structure Pending where
  missing : ℕ
  value : ℕ
  low : UInt8
  high : UInt8

def replacement : Char := '\uFFFD'

/-- The first byte of a character. -/
def lead (b : UInt8) : Char ⊕ Pending :=
  let n := b.toNat
  if n < 0x80 then .inl (Char.ofNat n)
  else if 0xc2 ≤ n ∧ n ≤ 0xdf then .inr ⟨1, n - 0xc0, 0x80, 0xbf⟩
  else if n = 0xe0 then .inr ⟨2, 0, 0xa0, 0xbf⟩
  else if n = 0xed then .inr ⟨2, 0xd, 0x80, 0x9f⟩
  else if 0xe1 ≤ n ∧ n ≤ 0xef then .inr ⟨2, n - 0xe0, 0x80, 0xbf⟩
  else if n = 0xf0 then .inr ⟨3, 0, 0x90, 0xbf⟩
  else if 0xf1 ≤ n ∧ n ≤ 0xf3 then .inr ⟨3, n - 0xf0, 0x80, 0xbf⟩
  else if n = 0xf4 then .inr ⟨3, 4, 0x80, 0x8f⟩
  else .inl replacement

/-- A further byte of a character, if it belongs to the sequence. -/
def Pending.next (p : Pending) (b : UInt8) : Option (Char ⊕ Pending) :=
  if p.low ≤ b ∧ b ≤ p.high then
    let value := p.value * 64 + (b.toNat - 0x80)
    some (if p.missing = 1 then .inl (Char.ofNat value) else .inr ⟨p.missing - 1, value, 0x80, 0xbf⟩)
  else none

def decodeFrom : Option Pending → Bytes → Text
  | none, [] => []
  | some _, [] => [replacement]
  | pending, b :: bytes =>
    let (broken, read) :=
      match pending with
      | none => ([], lead b)
      | some p =>
        match p.next b with
        | some read => ([], read)
        | none => ([replacement], lead b)
    broken ++
      match read with
      | .inl c => c :: decodeFrom none bytes
      | .inr p => decodeFrom (some p) bytes

/-- `bytes.decode(errors="replace")`. -/
def decode (bytes : Bytes) : Text := decodeFrom none bytes

/-- The bytes of an ASCII text. -/
def encode (text : Text) : Bytes := text.map fun c => UInt8.ofNat c.toNat

theorem decode_encode {text : Text} (h : ∀ c ∈ text, c.toNat < 128) : decode (encode text) = text := by
  induction text with
  | nil => rfl
  | cons c text ih =>
    obtain ⟨hc, htext⟩ := List.forall_mem_cons.mp h
    have hn : (UInt8.ofNat c.toNat).toNat = c.toNat := by
      rw [UInt8.toNat_ofNat']
      omega
    have hlead : lead (UInt8.ofNat c.toNat) = .inl c := by
      rw [lead, hn, if_pos hc, Char.ofNat_toNat]
    rw [decode, encode] at ih ⊢
    rw [List.map_cons, decodeFrom]
    simp only [hlead, ih htext, List.nil_append]

end HisiRiscv.PyBytes
