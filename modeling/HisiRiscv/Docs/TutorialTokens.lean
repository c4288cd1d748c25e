/-
HisiRiscv.Docs.TutorialTokens — what the patterns of the tutorial pages match.

`matchToken` finds exactly the whole tokens (`matchToken_sound`, `matchToken_append`), and a line's
tokens are all found (`mem_findIds`). No two tokens overlap, since only the first two characters of a
token are opening braces.

  §1 Matching.
  §2 The characters of a token.
  §3 Finding.
  §4 Lines.
-/
import HisiRiscv.Docs.Tutorial

namespace HisiRiscv.Docs.Tutorial

open PyText Scan Tokens

/-! ## §1 Matching -/

section Matching

variable {α : Type} {char : α → Char} {w key : Text} {l r v : List α} {n : ℕ}

theorem after_eq_some : after char w l = some r ↔ ∃ v, l = v ++ r ∧ v.map char = w := by
  rw [after, Option.ite_none_right_eq_some, Option.some_inj]
  constructor
  · rintro ⟨hpre, rfl⟩
    refine ⟨l.take w.length, (List.take_append_drop _ l).symm, ?_⟩
    rw [List.map_take, ← List.prefix_iff_eq_take.mp hpre]
  · rintro ⟨v, rfl, rfl⟩
    simp

theorem span_append {p : α → Bool} {a b : List α} (ha : ∀ x ∈ a, p x = true)
    (hb : ∀ x ∈ b.head?, p x = false) :
    (a ++ b).takeWhile p = a ∧ (a ++ b).dropWhile p = b := by
  rw [List.takeWhile_append_of_pos ha, List.dropWhile_append_of_pos ha]
  cases b with
  | nil => simp
  | cons x b => simp [hb x rfl]

theorem isSpace_eq_false_of_isIdChar {c : Char} (h : isIdChar c = true) : isSpace c = false := by
  simp only [isIdChar, Bool.or_eq_true, decide_eq_true_eq] at h
  obtain ((h | rfl) | rfl) | rfl := h
  · delta Char.isAlphanum Char.isAlpha Char.isUpper Char.isLower Char.isDigit at h
    simp only [Bool.or_eq_true, decide_eq_true_eq, Bool.and_eq_true, ge_iff_le, UInt32.le_iff_toNat_le,
      Char.toNat_val, Char.reduceToNat] at h
    simp only [isSpace, Bool.or_eq_false_iff, Bool.and_eq_false_iff, beq_eq_false_iff_ne,
      decide_eq_false_iff_not]
    omega
  · decide
  · decide
  · decide

theorem of_mem_map_takeWhile {p : Char → Bool} :
    ∀ c ∈ (l.takeWhile fun x => p (char x)).map char, p c = true := by
  intro c hc
  obtain ⟨x, hx, rfl⟩ := List.mem_map.mp hc
  have hp := List.mem_takeWhile_imp hx
  exact hp

theorem matchToken_sound (h : matchToken char w l = some (n, key)) :
    ∃ v r, l = v ++ r ∧ IsToken w (v.map char) key ∧ n = v.length := by
  simp only [matchToken, Option.bind_eq_bind, Option.bind_eq_some_iff,
    Option.ite_none_left_eq_some, Option.some.injEq, Prod.mk.injEq, not_or, after_eq_some] at h
  obtain ⟨rest, ⟨v, rfl, rfl⟩, r, ⟨u, hu, hclose⟩, ⟨hspaces, hid⟩, rfl, rfl⟩ := h
  set spaces := rest.takeWhile fun x => isSpace (char x)
  set rest₁ := rest.dropWhile fun x => isSpace (char x)
  set ids := rest₁.takeWhile fun x => isIdChar (char x)
  set rest₂ := rest₁.dropWhile fun x => isIdChar (char x)
  set spaces' := rest₂.takeWhile fun x => isSpace (char x)
  have hrest : rest = spaces ++ (ids ++ (spaces' ++ (u ++ r))) := by
    rw [← hu, List.takeWhile_append_dropWhile, List.takeWhile_append_dropWhile,
      List.takeWhile_append_dropWhile]
  refine ⟨v ++ (spaces ++ (ids ++ (spaces' ++ u))), r, ?_, ⟨?_, ?_, ?_⟩, ?_⟩
  · simp only [hrest, List.append_assoc]
  · refine ⟨spaces.map char, spaces'.map char, ?_, ?_, ?_, ?_⟩
    · simp only [List.map_append, hclose]
    · simpa using hspaces
    · exact of_mem_map_takeWhile
    · exact of_mem_map_takeWhile
  · simpa using hid
  · exact of_mem_map_takeWhile
  · rw [hrest]
    simp only [List.length_append]
    omega

theorem matchToken_append (h : IsToken w (v.map char) key) :
    matchToken char w (v ++ r) = some (v.length, key) := by
  obtain ⟨⟨spaces, spaces', hv, hne, hspaces, hspaces'⟩, hid, hidChars⟩ := h
  obtain ⟨v₀, u₁, rfl, rfl, hu₁⟩ := List.map_eq_append_iff.mp hv
  obtain ⟨v₁, u₂, rfl, rfl, hu₂⟩ := List.map_eq_append_iff.mp hu₁
  obtain ⟨v₂, u₃, rfl, rfl, hu₃⟩ := List.map_eq_append_iff.mp hu₂
  obtain ⟨v₃, v₄, rfl, rfl, hclose⟩ := List.map_eq_append_iff.mp hu₃
  have hhead : ∀ x ∈ (v₄ ++ r).head?, char x = '}' := by
    cases v₄ with
    | nil => cases hclose
    | cons x v₄ =>
      rintro _ ⟨⟩
      exact (List.cons.inj hclose).1
  have hspaces : ∀ x ∈ v₁, isSpace (char x) = true := List.forall_mem_map.mp hspaces
  have hspaces' : ∀ x ∈ v₃, isSpace (char x) = true := List.forall_mem_map.mp hspaces'
  have hidChars : ∀ x ∈ v₂, isIdChar (char x) = true := List.forall_mem_map.mp hidChars
  have h₃ := span_append hspaces' (b := v₄ ++ r) fun x hx => by rw [hhead x hx]; rfl
  have h₂ := span_append hidChars (b := v₃ ++ (v₄ ++ r)) fun x hx => by
    cases v₃ with
    | nil =>
      rw [hhead x hx]
      rfl
    | cons y v₃ =>
      cases hx
      by_contra hidChar
      have hspace := isSpace_eq_false_of_isIdChar (by simpa using hidChar)
      rw [hspaces' x List.mem_cons_self] at hspace
      cases hspace
  have h₁ := span_append hspaces (b := v₂ ++ (v₃ ++ (v₄ ++ r))) fun x hx => by
    cases v₂ with
    | nil => exact absurd rfl hid
    | cons y v₂ =>
      cases hx
      exact isSpace_eq_false_of_isIdChar (hidChars x List.mem_cons_self)
  have hopen : after char (v₀.map char) (v₀ ++ (v₁ ++ (v₂ ++ (v₃ ++ v₄))) ++ r) =
      some (v₁ ++ (v₂ ++ (v₃ ++ (v₄ ++ r)))) :=
    after_eq_some.mpr ⟨v₀, by simp only [List.append_assoc], rfl⟩
  have hclosed : after char closer (v₄ ++ r) = some r := after_eq_some.mpr ⟨v₄, rfl, hclose⟩
  have hne : ¬ (v₁ = [] ∨ v₂ = []) := by simpa using And.intro hne hid
  simp only [matchToken, hopen, hclosed, h₁, h₂, h₃, Option.bind_eq_bind, Option.bind_some,
    if_neg hne, List.length_append, Option.some.injEq, Prod.mk.injEq, and_true]
  omega

theorem advances_matchToken : Advances (matchToken char w) := by
  intro s n key h
  obtain ⟨v, r, rfl, hv, rfl⟩ := matchToken_sound h
  obtain ⟨spaces, spaces', hshape, -⟩ := hv.shape
  have hlength := congrArg List.length hshape
  simp only [List.length_map, List.length_append, closer, List.length_cons] at hlength
  rw [List.length_append]
  omega

end Matching

/-! ## §2 The characters of a token -/

def IsOpener (w : Text) : Prop :=
  ∃ name : Text, w = '{' :: '{' :: '#' :: name ∧ name.all isIdChar = true

theorem isOpener_of_mem {w : Text} (h : w ∈ openers) : IsOpener w := by
  simp only [openers, List.mem_cons, List.not_mem_nil, or_false] at h
  obtain rfl | rfl | rfl | rfl | rfl := h <;> exact ⟨_, rfl, rfl⟩

/-- The characters after the two opening braces. -/
def isTailChar (c : Char) : Bool := isSpace c || isIdChar c || c = '#' || c = '}'

/-- The characters of a token. -/
def isTokenChar (c : Char) : Bool := isTailChar c || c = '{'

variable {w t key y z r : Text}

/-- A token is two opening braces, and ends with a closing one. -/
theorem IsToken.eq_cons (hw : IsOpener w) (h : IsToken w t key) :
    ∃ tail, t = '{' :: '{' :: (tail ++ ['}']) ∧ tail.all isTailChar = true := by
  obtain ⟨name, rfl, hname⟩ := hw
  obtain ⟨⟨spaces, spaces', rfl, -, hspaces, hspaces'⟩, -, hid⟩ := h
  refine ⟨'#' :: (name ++ (spaces ++ (key ++ (spaces' ++ ['}'])))), ?_, ?_⟩
  · simp [closer]
  · rw [List.all_eq_true] at hname ⊢
    intro c hc
    simp only [List.mem_cons, List.mem_append, List.not_mem_nil, or_false] at hc
    obtain rfl | hc | hc | hc | hc | rfl := hc
    · rfl
    · simp [isTailChar, hname c hc]
    · simp [isTailChar, hspaces c hc]
    · simp [isTailChar, hid c hc]
    · simp [isTailChar, hspaces' c hc]
    · rfl

theorem IsToken.ne_nil (hw : IsOpener w) (h : IsToken w t key) : t ≠ [] := by
  obtain ⟨tail, rfl, -⟩ := h.eq_cons hw
  simp

theorem IsToken.isTokenChar (hw : IsOpener w) (h : IsToken w t key) :
    ∀ c ∈ t, isTokenChar c = true := by
  obtain ⟨tail, rfl, htail⟩ := h.eq_cons hw
  rw [List.all_eq_true] at htail
  intro c hc
  simp only [List.mem_cons, List.mem_append, List.not_mem_nil, or_false] at hc
  obtain rfl | rfl | hc | rfl := hc
  · rfl
  · rfl
  · simp [Tutorial.isTokenChar, htail c hc]
  · rfl

/-- What follows the two braces of a token begins with no brace. -/
theorem IsToken.not_mem_tail (hw : IsOpener w) (h : IsToken w (y ++ z) key) (hy : 2 ≤ y.length) :
    '{' ∉ z := by
  obtain ⟨tail, heq, htail⟩ := h.eq_cons hw
  obtain ⟨a, b, y, rfl⟩ : ∃ a b y', y = a :: b :: y' := by
    cases y with
    | nil => simp at hy
    | cons a y =>
      cases y with
      | nil => simp at hy
      | cons b y => exact ⟨a, b, y, rfl⟩
  simp only [List.cons_append, List.cons.injEq] at heq
  intro hmem
  have hmem : '{' ∈ tail ++ ['}'] := heq.2.2 ▸ List.mem_append_right y hmem
  rw [List.mem_append, List.mem_singleton] at hmem
  obtain hmem | hmem := hmem
  · exact absurd (List.all_eq_true.mp htail _ hmem) (by decide)
  · exact absurd hmem (by decide)

/-- No opener begins inside a token. -/
theorem IsToken.no_opener_inside (hw : IsOpener w) (h : IsToken w (y ++ z) key) (hy : y ≠ [])
    (hz : z ≠ []) : ¬ ['{', '{'] <+: z ++ r := by
  intro hpre
  obtain ⟨c, z, rfl⟩ := List.exists_cons_of_ne_nil hz
  obtain ⟨rfl, hpre⟩ := List.cons_prefix_cons.mp hpre
  by_cases hlen : 2 ≤ y.length
  · exact h.not_mem_tail hw hlen List.mem_cons_self
  · obtain ⟨tail, heq, htail⟩ := h.eq_cons hw
    obtain ⟨a, y, rfl⟩ := List.exists_cons_of_ne_nil hy
    cases y with
    | cons b y => simp at hlen
    | nil =>
      simp only [List.cons_append, List.nil_append, List.cons.injEq] at heq
      obtain ⟨-, -, rfl⟩ := heq
      cases tail with
      | nil => simp at hpre
      | cons d tail =>
        have hd := (List.cons_prefix_cons.mp (List.cons_prefix_cons.mp hpre).2).1
        subst hd
        exact absurd (List.all_eq_true.mp htail _ List.mem_cons_self) (by decide)

/-! ## §3 Finding -/

theorem IsOpener.braces_prefix (hw : IsOpener w) : ['{', '{'] <+: w := by
  obtain ⟨name, rfl, -⟩ := hw
  exact ⟨_, rfl⟩

theorem IsToken.opener_prefix (h : IsToken w t key) : w <+: t := by
  obtain ⟨spaces, spaces', rfl, -⟩ := h.shape
  exact List.prefix_append _ _

theorem matchToken_at {l v : Text} (h : IsToken w v key) (hv : v <+: l) :
    matchToken id w l = some (v.length, key) := by
  obtain ⟨r, rfl⟩ := hv
  exact matchToken_append (by simpa using h)

/-- The tokens of a line are found. -/
theorem mem_findIds {line : Text} (hw : IsOpener w) (h : Names w line key) :
    key ∈ findIds w line := by
  obtain ⟨v, hv, htoken⟩ := h
  have hadvances : Advances (matchToken id w) := advances_matchToken
  have hsilent : ∀ {a s t : Text}, Silent (matchToken id w) a s → t ≠ [] → t <:+ a →
      ¬ v <+: t ++ s := by
    intro a s t ha hne ht hpre
    have hnone := ha t hne ht
    rw [matchToken_at htoken hpre] at hnone
    cases hnone
  induction line using scan_induction hadvances with
  | silent line hline =>
    obtain ⟨t, hpre, ht⟩ := List.infix_iff_prefix_suffix.mp hv
    refine absurd ?_ (hsilent hline ?_ ht)
    · simpa using hpre
    · rintro rfl
      exact htoken.ne_nil hw (List.prefix_nil.mp hpre)
  | step a s n x ha hs ih =>
    rw [findIds, findAll_append_match hadvances ha hs]
    obtain ⟨u, r, rfl, hu, rfl⟩ := matchToken_sound hs
    rw [List.map_id] at hu
    obtain hv | ⟨t, hne, ht, hpre⟩ := infix_append_cases hv
    · -- the token is the match, or begins in it, or after it
      obtain hv | ⟨t, hne, ht, hpre⟩ := infix_append_cases hv
      · rw [List.drop_left] at ih ⊢
        exact List.mem_cons_of_mem _ (ih hv)
      · obtain ⟨y, rfl⟩ := ht
        cases y with
        | nil =>
          rw [List.nil_append] at hs
          rw [matchToken_at htoken hpre, Option.some_inj, Prod.mk.injEq] at hs
          rw [hs.2]
          exact List.mem_cons_self
        | cons c y =>
          have hbraces := hw.braces_prefix.trans (htoken.opener_prefix.trans hpre)
          exact absurd hbraces (hu.no_opener_inside hw (by simp) hne)
    · exact absurd hpre (hsilent ha hne ht)

/-! ## §4 Lines -/

theorem exists_line {page : Page} {v : Text} (hv : v <:+: page.content) (hne : v ≠ [])
    (hline : ∀ c ∈ v, isLineBreak c = false) : ∃ line ∈ page.lines, v <:+: line :=
  infix_splitlines hline hne (infix_universalNewlines hline hv)

end HisiRiscv.Docs.Tutorial
