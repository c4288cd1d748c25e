/-
HisiRiscv.Lib.Substitute — replacing the matches of a scanned text, where a replacement may
fail.

A text is a part in which no match begins, or such a part before a match and the rest
(`scan_induction`). What the copied parts and the replacements have, the new text has
(`sub_rule`).

  §1 The decomposition of a text.
  §2 Substitution.
-/
import HisiRiscv.Lib.Scan

namespace HisiRiscv.Scan

variable {α β ε : Type*} {m : List α → Option (ℕ × β)} {l a s out : List α} {n : ℕ} {x : β}

/-! ## §1 The decomposition of a text -/

/-- A match has a character at least, and ends in the text. -/
def Advances (m : List α → Option (ℕ × β)) : Prop :=
  ∀ s n x, m s = some (n, x) → 0 < n ∧ n ≤ s.length

theorem silent_or_match (m : List α → Option (ℕ × β)) (l : List α) :
    Silent m l [] ∨ ∃ a s n x, l = a ++ s ∧ Silent m a s ∧ m s = some (n, x) := by
  induction l with
  | nil => exact .inl fun s hne hs => absurd (List.suffix_nil.mp hs) hne
  | cons c l ih =>
    cases hm : m (c :: l) with
    | some nx =>
      obtain ⟨n, x⟩ := nx
      exact .inr ⟨[], c :: l, n, x, rfl, fun s hne hs => absurd (List.suffix_nil.mp hs) hne, hm⟩
    | none =>
      obtain h | ⟨a, s, n, x, rfl, h, hs⟩ := ih
      · exact .inl (Silent.cons (by simpa using hm) h)
      · exact .inr ⟨c :: a, s, n, x, rfl, Silent.cons hm h, hs⟩

/-- Induction along the matches. -/
theorem scan_induction {motive : List α → Prop} (hm : Advances m)
    (silent : ∀ l, Silent m l [] → motive l)
    (step : ∀ a s n x, Silent m a s → m s = some (n, x) → motive (s.drop n) → motive (a ++ s))
    (l : List α) : motive l := by
  induction hlen : l.length using Nat.strong_induction_on generalizing l with
  | h len ih =>
    subst hlen
    obtain h | ⟨a, s, n, x, rfl, ha, hs⟩ := silent_or_match m l
    · exact silent l h
    · obtain ⟨hn, hle⟩ := hm s n x hs
      refine step a s n x ha hs (ih (s.drop n).length ?_ (s.drop n) rfl)
      rw [List.length_drop, List.length_append]
      omega

theorem scan_of_silent (h : Silent m l []) : scan m l = l.map .inl := by
  simpa using scan_append_silent h

theorem scan_append_match (hm : Advances m) (ha : Silent m a s) (hs : m s = some (n, x)) :
    scan m (a ++ s) = a.map .inl ++ .inr x :: scan m (s.drop n) := by
  obtain ⟨hn, hle⟩ := hm s n x hs
  rw [scan_append_silent ha, scan_some hs hn]
  rintro rfl
  rw [List.length_nil] at hle
  omega

theorem findAll_append_match (hm : Advances m) (ha : Silent m a s) (hs : m s = some (n, x)) :
    findAll m (a ++ s) = x :: findAll m (s.drop n) := by
  have hcopied : (a.map (Sum.inl (β := β))).filterMap Sum.getRight? = [] := by
    rw [List.filterMap_eq_nil_iff, List.forall_mem_map]
    exact fun _ _ => rfl
  rw [findAll, scan_append_match hm ha hs, List.filterMap_append, hcopied, List.nil_append]
  rfl

/-! ## §2 Substitution -/

/-- Puts a text in the place of each match; the first failure is that of the whole. -/
def substitute (replace : β → Except ε (List α)) : List (α ⊕ β) → Except ε (List α)
  | [] => .ok []
  | .inl c :: parts => do
    let rest ← substitute replace parts
    return c :: rest
  | .inr x :: parts => do
    let new ← replace x
    let rest ← substitute replace parts
    return new ++ rest

/-- `re.sub`. -/
def sub (m : List α → Option (ℕ × β)) (replace : β → Except ε (List α)) (l : List α) :
    Except ε (List α) :=
  substitute replace (scan m l)

variable {replace : β → Except ε (List α)} {parts : List (α ⊕ β)}

theorem substitute_match_eq_ok : substitute replace (.inr x :: parts) = .ok out ↔
    ∃ new rest, replace x = .ok new ∧ substitute replace parts = .ok rest ∧ out = new ++ rest := by
  rw [substitute]
  cases replace x with
  | error e => simp [bind, Except.bind]
  | ok new =>
    cases substitute replace parts with
    | error e => simp [bind, Except.bind]
    | ok rest => simp [bind, Except.bind, pure, Except.pure, eq_comm]

theorem substitute_copied_eq_ok : substitute replace (a.map .inl ++ parts) = .ok out ↔
    ∃ rest, substitute replace parts = .ok rest ∧ out = a ++ rest := by
  induction a generalizing out with
  | nil => simp
  | cons c a ih =>
    rw [List.map_cons, List.cons_append, substitute]
    cases h : substitute replace (a.map .inl ++ parts) with
    | error e =>
      simp only [bind, Except.bind, reduceCtorEq, false_iff]
      rintro ⟨rest, hrest, -⟩
      rw [ih.mpr ⟨rest, hrest, rfl⟩] at h
      cases h
    | ok rest =>
      obtain ⟨rest', hrest, rfl⟩ := ih.mp h
      simp [bind, Except.bind, pure, Except.pure, hrest, eq_comm]

theorem sub_of_silent (h : Silent m l []) : sub m replace l = .ok l := by
  have hcopy : substitute replace (l.map .inl ++ []) = .ok l :=
    substitute_copied_eq_ok.mpr ⟨[], rfl, by simp⟩
  rwa [List.append_nil, ← scan_of_silent h] at hcopy

theorem sub_append_match_eq_ok (hm : Advances m) (ha : Silent m a s) (hs : m s = some (n, x)) :
    sub m replace (a ++ s) = .ok out ↔ ∃ new rest, replace x = .ok new ∧
      sub m replace (s.drop n) = .ok rest ∧ out = a ++ (new ++ rest) := by
  rw [sub, scan_append_match hm ha hs, substitute_copied_eq_ok]
  constructor
  · rintro ⟨out, hout, rfl⟩
    obtain ⟨new, rest, hnew, hrest, rfl⟩ := substitute_match_eq_ok.mp hout
    exact ⟨new, rest, hnew, hrest, rfl⟩
  · rintro ⟨new, rest, hnew, hrest, rfl⟩
    exact ⟨new ++ rest, substitute_match_eq_ok.mpr ⟨new, rest, hnew, hrest, rfl⟩, rfl⟩

theorem sub_isOk (hm : Advances m)
    (h : ∀ s, s <:+ l → ∀ n x, m s = some (n, x) → ∃ new, replace x = .ok new) :
    ∃ out, sub m replace l = .ok out := by
  induction l using scan_induction hm with
  | silent l hl => exact ⟨l, sub_of_silent hl⟩
  | step a s n x ha hs ih =>
    obtain ⟨new, hnew⟩ := h s (List.suffix_append a s) n x hs
    obtain ⟨rest, hrest⟩ := ih fun t ht =>
      h t (ht.trans ((List.drop_suffix n s).trans (List.suffix_append a s)))
    exact ⟨a ++ (new ++ rest), (sub_append_match_eq_ok hm ha hs).mpr ⟨new, rest, hnew, hrest, rfl⟩⟩

/-- The rule of substitution: `R` holds of the new text if it holds of a copied part and can be
put together. -/
theorem sub_rule {Q R : List α → Prop} (hm : Advances m)
    (suffix : ∀ l s, s <:+ l → Q l → Q s)
    (copied : ∀ a s, Silent m a s → (s = [] ∨ (m s).isSome) → Q (a ++ s) → R a)
    (join : ∀ a s n x new rest, m s = some (n, x) → Q s → replace x = .ok new → R a → R rest →
      R (a ++ (new ++ rest)))
    (hl : Q l) (h : sub m replace l = .ok out) : R out := by
  induction l using scan_induction hm generalizing out with
  | silent l hsilent =>
    rw [sub_of_silent hsilent] at h
    cases h
    exact copied l [] hsilent (.inl rfl) (by simpa using hl)
  | step a s n x ha hs ih =>
    obtain ⟨new, rest, hnew, hrest, rfl⟩ := (sub_append_match_eq_ok hm ha hs).mp h
    have hsuffix := List.suffix_append a s
    exact join a s n x new rest hs (suffix _ _ hsuffix hl) hnew
      (copied a s ha (.inr (by rw [hs]; rfl)) hl)
      (ih (suffix _ _ ((List.drop_suffix n s).trans hsuffix) hl) hrest)

theorem substitute_eq_substituteAll {f : β → List α} :
    substitute (fun x => (.ok (f x) : Except ε (List α))) parts = .ok (substituteAll f parts) := by
  induction parts with
  | nil => rfl
  | cons part parts ih =>
    cases part with
    | inl c =>
      rw [substitute, ih]
      rfl
    | inr x =>
      rw [substitute, ih]
      rfl

end HisiRiscv.Scan
