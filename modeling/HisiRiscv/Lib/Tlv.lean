/-
HisiRiscv.Lib.Tlv — elements of a type byte, a length byte and a body, one after the other.

`parse` takes bytes apart into the complete elements at their front and what is left: nothing, or the
beginning of an element that has been cut off. `parse_append` says what becomes of two parts that
are parsed as one: the elements of the second are its own only if nothing of the first is left.

  §1 One element.
  §2 A sequence.
  §3 A cursor.
-/
import Mathlib.Data.List.Basic

namespace HisiRiscv.Tlv

/-! ## §1 One element -/

structure Element where
  id : UInt8
  body : List UInt8
  fits : body.length < 256
  deriving DecidableEq

def Element.encode (e : Element) : List UInt8 := e.id :: UInt8.ofNat e.body.length :: e.body

theorem length_take_lt (len : UInt8) (rest : List UInt8) : (rest.take len.toNat).length < 256 :=
  Nat.lt_of_le_of_lt (List.length_take_le ..) len.toNat_lt

/-- The element at the front and what follows it, unless it is cut off. -/
def next : List UInt8 → Option (Element × List UInt8)
  | tag :: len :: rest =>
    if len.toNat ≤ rest.length then
      some (⟨tag, rest.take len.toNat, length_take_lt len rest⟩, rest.drop len.toNat)
    else none
  | _ => none

section Next

variable {bytes rest : List UInt8} {e : Element}

@[simp] theorem next_nil : next [] = none := rfl

theorem next_cons_of_le (tag : UInt8) {len : UInt8} (h : len.toNat ≤ rest.length) :
    next (tag :: len :: rest) =
      some (⟨tag, rest.take len.toNat, length_take_lt len rest⟩, rest.drop len.toNat) :=
  if_pos h

theorem next_cons_of_lt (tag : UInt8) {len : UInt8} (h : rest.length < len.toNat) :
    next (tag :: len :: rest) = none :=
  if_neg (Nat.not_le_of_lt h)

theorem toNat_length (e : Element) : (UInt8.ofNat e.body.length).toNat = e.body.length := by
  rw [UInt8.toNat_ofNat', Nat.mod_eq_of_lt e.fits]

theorem next_encode (e : Element) (rest : List UInt8) : next (e.encode ++ rest) = some (e, rest) := by
  have hle : (UInt8.ofNat e.body.length).toNat ≤ (e.body ++ rest).length := by
    rw [toNat_length, List.length_append]
    exact Nat.le_add_right ..
  rw [Element.encode, List.cons_append, List.cons_append, next_cons_of_le e.id hle]
  simp [Nat.mod_eq_of_lt e.fits]

theorem next_eq_some_iff : next bytes = some (e, rest) ↔ bytes = e.encode ++ rest := by
  constructor
  · intro h
    match bytes with
    | [] => cases h
    | [_] => cases h
    | tag :: len :: tail =>
      by_cases hle : len.toNat ≤ tail.length
      · rw [next_cons_of_le tag hle] at h
        obtain ⟨rfl, rfl⟩ := Prod.mk.inj (Option.some.inj h)
        simp [Element.encode, Nat.min_eq_left hle]
      · rw [next_cons_of_lt tag (Nat.lt_of_not_le hle)] at h
        cases h
  · rintro rfl
    exact next_encode e rest

theorem length_rest_lt (h : next bytes = some (e, rest)) : rest.length < bytes.length := by
  rw [next_eq_some_iff.mp h]
  simp [Element.encode]
  omega

/-- A complete element does not depend on what follows. -/
theorem next_append (h : next bytes = some (e, rest)) (more : List UInt8) :
    next (bytes ++ more) = some (e, rest ++ more) := by
  rw [next_eq_some_iff.mp h, List.append_assoc, next_encode]

/-- An element that is cut off, completed by bytes of what follows. -/
theorem next_completed (tag : UInt8) {len : UInt8} {part : List UInt8} (more : List UInt8)
    (hpart : part.length ≤ len.toNat) (hmore : len.toNat - part.length ≤ more.length) :
    ∃ e : Element, next (tag :: len :: part ++ more) = some (e, more.drop (len.toNat - part.length)) ∧
      e.id = tag ∧ e.body = part ++ more.take (len.toNat - part.length) := by
  have hle : len.toNat ≤ (part ++ more).length := by
    rw [List.length_append]
    omega
  refine ⟨⟨tag, (part ++ more).take len.toNat, length_take_lt len _⟩, ?_, rfl, ?_⟩
  · rw [List.cons_append, List.cons_append, next_cons_of_le tag hle, List.drop_append,
      List.drop_of_length_le hpart, List.nil_append]
  · dsimp only
    rw [List.take_append, List.take_of_length_le hpart]

end Next

/-! ## §2 A sequence -/

/-- The complete elements at the front, and what is left. -/
def parse (bytes : List UInt8) : List Element × List UInt8 :=
  match _h : next bytes with
  | none => ([], bytes)
  | some (e, rest) => (e :: (parse rest).1, (parse rest).2)
termination_by bytes.length
decreasing_by all_goals exact length_rest_lt ‹_›

def complete (bytes : List UInt8) : List Element := (parse bytes).1

def cut (bytes : List UInt8) : List UInt8 := (parse bytes).2

section Parse

variable {bytes rest : List UInt8} {e : Element}

theorem parse_none (h : next bytes = none) : parse bytes = ([], bytes) := by
  unfold parse
  split
  · rfl
  · rename_i heq
    rw [h] at heq
    cases heq

theorem parse_some (h : next bytes = some (e, rest)) :
    parse bytes = (e :: (parse rest).1, (parse rest).2) := by
  conv_lhs => unfold parse
  split
  · rename_i heq
    rw [h] at heq
    cases heq
  · rename_i heq
    rw [h] at heq
    obtain ⟨rfl, rfl⟩ := Prod.mk.inj (Option.some.inj heq)
    rfl

theorem complete_none (h : next bytes = none) : complete bytes = [] := by
  rw [complete, parse_none h]

theorem complete_some (h : next bytes = some (e, rest)) : complete bytes = e :: complete rest := by
  rw [complete, parse_some h, complete]

theorem cut_some (h : next bytes = some (e, rest)) : cut bytes = cut rest := by
  rw [cut, parse_some h, cut]

theorem parse_encode (es : List Element) {tail : List UInt8} (h : next tail = none) :
    parse (es.flatMap Element.encode ++ tail) = (es, tail) := by
  induction es with
  | nil => exact parse_none h
  | cons e es ih =>
    rw [List.flatMap_cons, List.append_assoc, parse_some (next_encode e _), ih]

/-- **Two parts parsed as one.** -/
theorem complete_append (p b : List UInt8) :
    complete (p ++ b) = complete p ++ complete (cut p ++ b) := by
  induction p using parse.induct with
  | case1 p h => rw [complete_none h, cut, parse_none h, List.nil_append]
  | case2 p e rest h ih =>
    rw [complete_some (next_append h b), complete_some h, cut_some h, ih, List.cons_append]

end Parse

/-! ## §3 A cursor -/

section Cursor

variable {bytes : List UInt8} {offset : ℕ}

theorem next_of_length_lt (h : bytes.length < offset + 2) : next (bytes.drop offset) = none := by
  have hlen : (bytes.drop offset).length < 2 := by
    rw [List.length_drop]
    omega
  match hdrop : bytes.drop offset with
  | [] => rfl
  | [_] => rfl
  | _ :: _ :: _ =>
    rw [hdrop, List.length_cons, List.length_cons] at hlen
    omega

/-- What a walk sees at an offset with two bytes behind it. -/
theorem next_drop (h : offset + 2 ≤ bytes.length) :
    ∃ id len : UInt8, bytes[offset]? = some id ∧ bytes[offset + 1]? = some len ∧
      (bytes.length < offset + 2 + len.toNat → next (bytes.drop offset) = none) ∧
      (offset + 2 + len.toNat ≤ bytes.length →
        ∃ e : Element, next (bytes.drop offset) = some (e, bytes.drop (offset + 2 + len.toNat)) ∧
          e.id = id ∧ e.body = (bytes.drop (offset + 2)).take len.toNat) := by
  refine ⟨bytes[offset], bytes[offset + 1], List.getElem?_eq_getElem _, List.getElem?_eq_getElem _, ?_⟩
  have hdrop : bytes.drop offset = bytes[offset] :: bytes[offset + 1] :: bytes.drop (offset + 2) := by
    rw [List.drop_eq_getElem_cons (by omega), List.drop_eq_getElem_cons (by omega)]
  have hlen : (bytes.drop (offset + 2)).length = bytes.length - (offset + 2) := List.length_drop
  rw [hdrop]
  constructor
  · intro hlt
    exact next_cons_of_lt _ (by omega)
  · intro hle
    rw [next_cons_of_le _ (by omega), List.drop_drop]
    exact ⟨_, rfl, rfl, rfl⟩

end Cursor

end HisiRiscv.Tlv
