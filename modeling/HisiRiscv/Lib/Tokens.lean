/-
HisiRiscv.Lib.Tokens — tokens in a text that is put together from parts.

A text is `Complete` for an opener if each occurrence of the opener begins a whole token,
and `Every` word of it may be of one kind. Both survive a cut between tokens and a join at an
element that no token has.

  §1 Words.
  §2 Words of one kind.
  §3 Whole tokens.
-/
import Mathlib.Data.List.Infix

namespace HisiRiscv.Tokens

variable {α : Type*} {w v a b l s : List α} {x : α}

/-! ## §1 Words -/

/-- A word stops before an element that it does not have. -/
theorem prefix_before (h : w <+: a ++ x :: b) (hx : x ∉ w) : w <+: a := by
  obtain hle | ⟨t, rfl⟩ := List.prefix_or_prefix_of_prefix h (List.prefix_append a (x :: b))
  · exact hle
  · rw [List.prefix_append_right_inj] at h
    cases t with
    | nil => simp
    | cons y t =>
      obtain ⟨rfl, -⟩ := List.cons_prefix_cons.mp h
      exact absurd (by simp) hx

theorem suffix_append_iff : s <:+ a ++ b ↔ s <:+ b ∨ ∃ t, t ≠ [] ∧ t <:+ a ∧ s = t ++ b := by
  induction a with
  | nil =>
    constructor
    · exact .inl
    · rintro (h | ⟨t, hne, ht, -⟩)
      · exact h
      · exact absurd (List.suffix_nil.mp ht) hne
  | cons c a ih =>
    rw [List.cons_append, List.suffix_cons_iff, ih]
    constructor
    · rintro (rfl | h | ⟨t, hne, ht, rfl⟩)
      · exact .inr ⟨c :: a, by simp, List.suffix_rfl, rfl⟩
      · exact .inl h
      · exact .inr ⟨t, hne, ht.trans (List.suffix_cons c a), rfl⟩
    · rintro (h | ⟨t, hne, ht, rfl⟩)
      · exact .inr (.inl h)
      · obtain rfl | ht := List.suffix_cons_iff.mp ht
        · exact .inl rfl
        · exact .inr (.inr ⟨t, hne, ht, rfl⟩)

/-- A word lies in one of two parts, or begins in the first one. -/
theorem infix_append_cases (h : w <:+: a ++ b) :
    w <:+: b ∨ ∃ s, s ≠ [] ∧ s <:+ a ∧ w <+: s ++ b := by
  obtain ⟨s, hs, hsuf⟩ := List.infix_iff_prefix_suffix.mp h
  obtain hb | ⟨t, hne, ht, rfl⟩ := suffix_append_iff.mp hsuf
  · exact .inl (hs.isInfix.trans hb.isInfix)
  · exact .inr ⟨t, hne, ht, hs⟩

/-- A word does not reach over an element that it does not have. -/
theorem infix_around (h : w <:+: a ++ x :: b) (hx : x ∉ w) : w <:+: a ∨ w <:+: b := by
  obtain h | ⟨s, -, hs, h⟩ := infix_append_cases h
  · obtain h | h := List.infix_cons_iff.mp h
    · cases w with
      | nil => exact .inr List.nil_infix
      | cons y w =>
        obtain ⟨rfl, -⟩ := List.cons_prefix_cons.mp h
        exact absurd List.mem_cons_self hx
    · exact .inr h
  · exact .inl ((prefix_before h hx).isInfix.trans hs.isInfix)

/-- The text begins with an element of a kind. -/
def Begins (K : α → Prop) (l : List α) : Prop := ∃ x l', l = x :: l' ∧ K x

/-- The text ends with an element of a kind. -/
def Ends (K : α → Prop) (l : List α) : Prop := ∃ l' x, l = l' ++ [x] ∧ K x

variable {K : α → Prop}

theorem Begins.imp {K' : α → Prop} (hK : ∀ x, K x → K' x) (h : Begins K l) : Begins K' l := by
  obtain ⟨x, l', rfl, hx⟩ := h
  exact ⟨x, l', rfl, hK x hx⟩

theorem Ends.imp {K' : α → Prop} (hK : ∀ x, K x → K' x) (h : Ends K l) : Ends K' l := by
  obtain ⟨l', x, rfl, hx⟩ := h
  exact ⟨l', x, rfl, hK x hx⟩

theorem Begins.append (h : Begins K a) : Begins K (a ++ b) := by
  obtain ⟨x, l', rfl, hx⟩ := h
  exact ⟨x, l' ++ b, rfl, hx⟩

theorem Ends.append (h : Ends K b) : Ends K (a ++ b) := by
  obtain ⟨l', x, rfl, hx⟩ := h
  exact ⟨a ++ l', x, by simp, hx⟩

theorem Ends.suffix (h : Ends K l) (hs : s <:+ l) (hne : s ≠ []) : Ends K s := by
  obtain ⟨l', x, rfl, hx⟩ := h
  obtain hs | ⟨t, -, -, rfl⟩ := suffix_append_iff.mp hs
  · obtain rfl | hs := List.suffix_cons_iff.mp hs
    · exact ⟨[], x, rfl, hx⟩
    · exact absurd (List.suffix_nil.mp hs) hne
  · exact ⟨t, x, rfl, hx⟩

/-! ## §2 Words of one kind -/

def Every (kind : List α → Prop) (l : List α) : Prop := ∀ v, v <:+: l → kind v

/-- An element that only words of the kind have. -/
def Barrier (kind : List α → Prop) (x : α) : Prop := ∀ v, x ∈ v → kind v

variable {kind : List α → Prop}

theorem Every.mono (h : Every kind l) (ha : a <:+: l) : Every kind a :=
  fun v hv => h v (hv.trans ha)

theorem Every.append_cons (ha : Every kind a) (hb : Every kind b) (hx : Barrier kind x) :
    Every kind (a ++ x :: b) := by
  intro v hv
  by_cases hmem : x ∈ v
  · exact hx v hmem
  · obtain h | h := infix_around hv hmem
    · exact ha v h
    · exact hb v h

theorem Every.append (ha : Every kind a) (hb : Every kind b)
    (h : Ends (Barrier kind) a ∨ Begins (Barrier kind) b) : Every kind (a ++ b) := by
  obtain ⟨a', x, rfl, hx⟩ | ⟨x, b', rfl, hx⟩ := h
  · rw [List.append_assoc, List.singleton_append]
    exact (ha.mono (List.prefix_append a' [x]).isInfix).append_cons hb hx
  · exact ha.append_cons (hb.mono (List.suffix_cons x b').isInfix) hx

/-! ## §3 Whole tokens -/

/-- Each occurrence of the opener `w` begins a token. -/
def Complete (w : List α) (tok : List α → Prop) (l : List α) : Prop :=
  ∀ s, s <:+ l → w <+: s → ∃ v, tok v ∧ v <+: s

/-- No token that begins before `b` ends in `b`. -/
def Clear (w : List α) (tok : List α → Prop) (b : List α) : Prop :=
  ∀ y z, tok (y ++ z) → w <+: y → z <+: b → z = []

variable {tok : List α → Prop}

theorem Complete.suffix (h : Complete w tok l) (hs : s <:+ l) : Complete w tok s :=
  fun t ht => h t (ht.trans hs)

theorem Complete.cut (h : Complete w tok (a ++ b)) (hb : Clear w tok b) : Complete w tok a := by
  intro s hs hw
  obtain ⟨v, hv, hpre⟩ := h (s ++ b) (List.suffix_append_self_iff.mpr hs)
    (hw.trans (List.prefix_append s b))
  obtain hle | ⟨z, rfl⟩ := List.prefix_or_prefix_of_prefix hpre (List.prefix_append s b)
  · exact ⟨v, hv, hle⟩
  · have hz := hb s z hv hw ((List.prefix_append_right_inj s).mp hpre)
    subst hz
    exact ⟨s ++ [], hv, by simp⟩

theorem Complete.append (ha : Complete w tok a) (hb : Complete w tok b)
    (h : Ends (· ∉ w) a ∨ Begins (· ∉ w) b) : Complete w tok (a ++ b) := by
  intro s hs hw
  obtain hs | ⟨t, hne, ht, rfl⟩ := suffix_append_iff.mp hs
  · exact hb s hs hw
  · have hwt : w <+: t := by
      obtain ⟨a', x, rfl, hx⟩ | ⟨x, b', rfl, hx⟩ := h
      · obtain ht | ⟨t', -, -, rfl⟩ := suffix_append_iff.mp ht
        · obtain rfl | ht := List.suffix_cons_iff.mp ht
          · exact (prefix_before (a := []) hw hx).trans List.nil_prefix
          · exact absurd (List.suffix_nil.mp ht) hne
        · rw [List.append_assoc, List.singleton_append] at hw
          exact (prefix_before hw hx).trans (List.prefix_append t' [x])
      · exact prefix_before hw hx
    obtain ⟨v, hv, hpre⟩ := ha t ht hwt
    exact ⟨v, hv, hpre.trans (List.prefix_append t b)⟩

/-- A text without an element of the opener. -/
theorem Complete.of_not_mem (hx : x ∈ w) (h : x ∉ l) : Complete w tok l :=
  fun _ hs hw => absurd ((hw.isInfix.trans hs.isInfix).subset hx) h

end HisiRiscv.Tokens
