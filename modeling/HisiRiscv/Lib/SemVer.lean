/-
HisiRiscv.Lib.SemVer — the precedence of Semantic Versioning 2.0, and the order of texts.

A version is its three numbers and, for a prerelease, the identifiers between the dots.
Numeric identifiers are below the others and compare as numbers, a list of identifiers is above its
own beginnings, and a release is above its prereleases; all of this is one linear order,
`Precedence`. As texts, two prereleases are ordered by the first identifiers that differ, each with
the dot behind it if there is one (`dotted_lt_iff`), so the two orders agree unless these two stand
the other way round (`Displaced`, `text_lt_iff`).

  §1 Identifiers.
  §2 Precedence.
  §3 The order of texts.
-/
import Mathlib.Data.Char
import Mathlib.Data.List.Lex
import Mathlib.Data.Prod.Lex
import Mathlib.Data.Sum.Order
import HisiRiscv.Lib.PyText

namespace HisiRiscv.SemVer

open PyText

/-! ## §1 Identifiers -/

/-- The numeric identifiers are below the alphanumeric ones. -/
abbrev Identifier : Type := ℕ ⊕ₗ Text

def number (digits : Text) : ℕ := digits.foldl (fun n c => n * 10 + (c.toNat - 48)) 0

def identifier (text : Text) : Identifier :=
  if text ≠ [] ∧ text.all Char.isDigit then toLex (.inl (number text)) else toLex (.inr text)

/-- `text.split(".")`. -/
def splitDots : Text → List Text
  | [] => [[]]
  | c :: text =>
    if c = '.' then [] :: splitDots text
    else
      match splitDots text with
      | [] => [[c]]
      | id :: ids => (c :: id) :: ids

def identifiers (text : Text) : List Identifier := (splitDots text).map identifier

/-! ## §2 Precedence -/

abbrev Precedence : Type := ℕ ×ₗ ℕ ×ₗ ℕ ×ₗ WithTop (List Identifier)

/-- A release is above its prereleases. -/
def prerelease : Option Text → WithTop (List Identifier)
  | none => ⊤
  | some text => (identifiers text : List Identifier)

def precedence (major minor patch : ℕ) (pre : Option Text) : Precedence :=
  toLex (major, toLex (minor, toLex (patch, prerelease pre)))

theorem precedence_lt_iff {major minor patch major' minor' patch' : ℕ} {pre pre' : Option Text} :
    precedence major minor patch pre < precedence major' minor' patch' pre' ↔
      major < major' ∨ major = major' ∧ (minor < minor' ∨ minor = minor' ∧ (patch < patch' ∨
        patch = patch' ∧ prerelease pre < prerelease pre')) := by
  simp only [precedence, Prod.Lex.toLex_lt_toLex]

/-! ## §3 The order of texts -/

/-- Each identifier with a dot before it. -/
def dotted (ids : List Text) : Text := ids.flatMap fun id => '.' :: id

/-- An identifier with the dot behind it, if others follow. -/
def stopped (id : Text) (rest : List Text) : Text := if rest = [] then id else id ++ ['.']

/-- Of two lists of identifiers, the first two that differ stand the other way round as texts. -/
def Displaced : List Text → List Text → Prop
  | a :: x, b :: y => if a = b then Displaced x y else stopped b y < stopped a x
  | _, _ => False

theorem dotted_splitDots (text : Text) : dotted (splitDots text) = '.' :: text := by
  induction text with
  | nil => rfl
  | cons c text ih =>
    rw [splitDots]
    split
    · rename_i hc
      rw [dotted, List.flatMap_cons, ← dotted, ih, hc]
      rfl
    · split
      · rename_i hnil
        rw [hnil] at ih
        cases ih
      · rename_i id ids hcons
        rw [hcons, dotted, List.flatMap_cons, List.cons_append, List.cons.injEq] at ih
        rw [dotted, List.flatMap_cons, List.cons_append, List.cons_append, ih.2]

theorem dot_notMem_splitDots (text : Text) : ∀ id ∈ splitDots text, '.' ∉ id := by
  induction text with
  | nil => simp [splitDots]
  | cons c text ih =>
    rw [splitDots]
    split
    · exact List.forall_mem_cons.mpr ⟨by simp, ih⟩
    · rename_i hc
      have hdot : '.' ≠ c := fun h => hc h.symm
      split
      · simp [hdot]
      · rename_i id ids hcons
        rw [hcons] at ih
        obtain ⟨hid, hids⟩ := List.forall_mem_cons.mp ih
        exact List.forall_mem_cons.mpr ⟨by simp [hdot, hid], hids⟩

/-- Two identifiers that differ decide, with what stands behind the shorter one. -/
theorem append_dotted_lt_iff {a b : Text} {x y : List Text} (ha : '.' ∉ a) (hb : '.' ∉ b)
    (hne : a ≠ b) : a ++ dotted x < b ++ dotted y ↔ stopped a x < stopped b y := by
  have stopped_cons : ∀ c id (rest : List Text), stopped (c :: id) rest = c :: stopped id rest := by
    intro c id rest
    rw [stopped, stopped]
    split
    · rfl
    · rfl
  induction a generalizing b with
  | nil =>
    cases b with
    | nil => exact absurd rfl hne
    | cons d b =>
      have hd : '.' ≠ d := fun h => hb (h ▸ List.mem_cons_self)
      rw [stopped_cons, List.nil_append, List.cons_append]
      cases x with
      | nil => exact iff_of_true (List.nil_lt_cons _ _) (List.nil_lt_cons _ _)
      | cons id x =>
        rw [dotted, List.flatMap_cons, List.cons_append, stopped, if_neg (List.cons_ne_nil _ _),
          List.nil_append, List.cons_lt_cons_iff, List.cons_lt_cons_iff]
        simp only [hd, false_and, or_false]
  | cons c a ih =>
    have hc : c ≠ '.' := fun h => ha (h ▸ List.mem_cons_self)
    cases b with
    | nil =>
      rw [stopped_cons, List.nil_append, List.cons_append]
      cases y with
      | nil => exact iff_of_false (List.not_lt_nil _) (List.not_lt_nil _)
      | cons id y =>
        rw [dotted, dotted, List.flatMap_cons, List.cons_append, stopped, stopped,
          if_neg (List.cons_ne_nil id y), List.nil_append, List.cons_lt_cons_iff,
          List.cons_lt_cons_iff]
        simp only [hc, false_and, or_false]
    | cons d b =>
      rw [stopped_cons, stopped_cons, List.cons_append, List.cons_append, List.cons_lt_cons_iff,
        List.cons_lt_cons_iff]
      by_cases hcd : c = d
      · subst hcd
        have hrest : a ++ dotted x < b ++ dotted y ↔ stopped a x < stopped b y :=
          ih (fun h => ha (List.mem_cons_of_mem _ h)) (fun h => hb (List.mem_cons_of_mem _ h))
            fun h => hne (congrArg (c :: ·) h)
        simp only [lt_self_iff_false, true_and, false_or, hrest]
      · simp only [hcd, false_and, or_false]

theorem stopped_ne {a b : Text} {x y : List Text} (ha : '.' ∉ a) (hb : '.' ∉ b) (hne : a ≠ b) :
    stopped a x ≠ stopped b y := by
  rw [stopped, stopped]
  split <;> split
  · exact hne
  · exact fun h => ha (by rw [h]; simp)
  · exact fun h => hb (by rw [← h]; simp)
  · exact fun h => hne (List.append_cancel_right h)

theorem append_left_lt_iff {a x y : Text} : a ++ x < a ++ y ↔ x < y := by
  induction a with
  | nil => rfl
  | cons c a ih =>
    rw [List.cons_append, List.cons_append, List.cons_lt_cons_iff]
    simp only [lt_self_iff_false, true_and, false_or, ih]

/-- For two lists in the order of precedence. -/
theorem dotted_lt_iff {x y : List Text} (hx : ∀ id ∈ x, '.' ∉ id) (hy : ∀ id ∈ y, '.' ∉ id)
    (below : x.map identifier < y.map identifier) : dotted x < dotted y ↔ ¬ Displaced x y := by
  induction x generalizing y with
  | nil =>
    cases y with
    | nil => exact absurd below (List.not_lt_nil _)
    | cons b y => exact iff_of_true (List.nil_lt_cons _ _) id
  | cons a x ih =>
    cases y with
    | nil => exact absurd below (List.not_lt_nil _)
    | cons b y =>
      rw [List.forall_mem_cons] at hx hy
      have step : dotted (a :: x) < dotted (b :: y) ↔ a ++ dotted x < b ++ dotted y := by
        rw [dotted, dotted, List.flatMap_cons, List.flatMap_cons, List.cons_append,
          List.cons_append, List.cons_lt_cons_iff]
        simp only [lt_self_iff_false, true_and, false_or]
        rfl
      rw [step, Displaced]
      by_cases hab : a = b
      · subst hab
        rw [List.map_cons, List.map_cons, List.cons_lt_cons_iff] at below
        simp only [lt_self_iff_false, true_and, false_or] at below
        rw [if_pos rfl, ← ih hx.2 hy.2 below]
        exact append_left_lt_iff
      · rw [if_neg hab, append_dotted_lt_iff hx.1 hy.1 hab, not_lt]
        exact ⟨le_of_lt, fun h => lt_of_le_of_ne h (stopped_ne hx.1 hy.1 hab)⟩

/-- Texts in the order of precedence. -/
theorem text_lt_iff {text text' : Text} (below : identifiers text < identifiers text') :
    text < text' ↔ ¬ Displaced (splitDots text) (splitDots text') := by
  rw [← dotted_lt_iff (dot_notMem_splitDots text) (dot_notMem_splitDots text') below,
    dotted_splitDots, dotted_splitDots, List.cons_lt_cons_iff]
  simp only [lt_self_iff_false, true_and, false_or]

end HisiRiscv.SemVer
