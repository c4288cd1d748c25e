/-
HisiRiscv.Docs.TutorialPasses — what a pass over a page keeps.

A property of contents is `Compositional` if it survives a cut between tokens and a join at a
generated character that no token has. Three are: that no opener is written in the content
(`Free`), that the tokens have keys of a kind (`Only`), and that each written opener begins a
whole token (`Whole`). Every pass keeps a compositional property that its new texts have
(`Compositional.sub`).

  §1 Seals and cuts.
  §2 Three properties.
  §3 Parts of the new texts.
  §4 The passes.
-/
import HisiRiscv.Docs.TutorialTokens

namespace HisiRiscv.Docs.Tutorial

open PyText Scan Tokens

/-! ## §1 Seals and cuts -/

/-- A generated character that no token has. -/
def Seal (x : Cell) : Prop := x.page = false ∧ isTokenChar x.char = false

/-- No token that begins before the content ends in it. -/
def Apart (b : Content) : Prop :=
  ∀ z, z <+: b → z ≠ [] →
    '{' ∈ text z ∨ (∃ c ∈ text z, isTokenChar c = false) ∨ (text z).getLast? ≠ some '}'

structure Compositional (Q : Content → Prop) : Prop where
  nil : Q []
  suffix : ∀ {l s}, s <:+ l → Q l → Q s
  cut : ∀ {a b}, Apart b → Q (a ++ b) → Q a
  front : ∀ {a t}, '{' ∉ t → Q a → Q (generated t ++ a)
  tail : ∀ {a t}, '{' ∉ t → '}' ∉ t → Q a → Q (a ++ generated t)
  append : ∀ {a b}, Ends Seal a ∨ Begins Seal b → Q a → Q b → Q (a ++ b)

theorem apart_brace {c : Cell} {b : Content} (hc : c.char = '{') : Apart (c :: b) := by
  intro z hz hne
  obtain ⟨d, z, rfl⟩ := List.exists_cons_of_ne_nil hne
  obtain ⟨rfl, -⟩ := List.cons_prefix_cons.mp hz
  left
  rw [text, List.map_cons, hc]
  exact List.mem_cons_self

theorem apart_of_not_isTokenChar {c : Cell} {b : Content} (hc : isTokenChar c.char = false) :
    Apart (c :: b) := by
  intro z hz hne
  obtain ⟨d, z, rfl⟩ := List.exists_cons_of_ne_nil hne
  obtain ⟨rfl, -⟩ := List.cons_prefix_cons.mp hz
  exact .inr (.inl ⟨d.char, List.mem_cons_self, hc⟩)

theorem apart_of_spaces {b : Content} (hb : ∀ c ∈ b, isSpace c.char = true) : Apart b := by
  intro z hz hne
  right
  right
  rw [text, List.getLast?_map]
  intro hlast
  obtain ⟨c, hc, hchar⟩ := Option.map_eq_some_iff.mp hlast
  have hspace := hb c (hz.subset (List.mem_of_getLast? hc))
  rw [hchar] at hspace
  exact absurd hspace (by decide)

/-- The literal that `hide` looks for has a character that no token has, and no brace before. -/
theorem apart_blockClass {b : Content} (hb : blockClass <+: text b) : Apart b := by
  intro z hz hne
  right
  have hpre : text z <+: text b := hz.map Cell.char
  obtain hle | hle := List.prefix_or_prefix_of_prefix hb hpre
  · left
    exact ⟨'=', hle.subset (by decide), by decide⟩
  · right
    intro hlast
    exact absurd (hle.subset (List.mem_of_getLast? hlast)) (by decide)

/-! ## §2 Three properties -/

/-- The opener is not written in the content. -/
def Free (w : Text) : Content → Prop := Every fun v => v ≠ written w

/-- The keys of the tokens are of a kind. -/
def Only (w : Text) (P : Text → Prop) : Content → Prop :=
  Every fun v => ∀ key, IsToken w (text v) key → P key

/-- Each written opener begins a token. -/
def Whole (w : Text) : Content → Prop := Complete (written w) fun v => ∃ key, IsToken w (text v) key

variable {w t : Text} {P : Text → Prop} {a b l : Content} {Q : Content → Prop}

theorem not_mem_written {x : Cell} (hx : x.page = false) : x ∉ written w := by
  intro hmem
  obtain ⟨c, -, rfl⟩ := List.mem_map.mp hmem
  cases hx

theorem brace_mem_written (hw : IsOpener w) : ⟨'{', true⟩ ∈ written w := by
  obtain ⟨name, rfl, -⟩ := hw
  exact List.mem_cons_self

theorem barrier_of_generated {x : Cell} (hx : x.page = false) :
    Barrier (fun v => v ≠ written w) x := by
  rintro v hmem rfl
  exact not_mem_written hx hmem

theorem free_of_generated (hw : IsOpener w) (h : ∀ x ∈ l, x.page = false) : Free w l := by
  rintro v hv rfl
  exact absurd (h _ (hv.subset (brace_mem_written hw))) (by simp)

theorem page_generated : ∀ x ∈ generated t, x.page = false := by
  intro x hx
  obtain ⟨c, -, rfl⟩ := List.mem_map.mp hx
  rfl

theorem ends_generated (ht : t ≠ []) : Ends (fun x => x.page = false) (generated t) := by
  obtain ⟨t, c, rfl⟩ := (List.eq_nil_or_concat' t).resolve_left ht
  exact ⟨generated t, ⟨c, false⟩, by simp [generated], rfl⟩

theorem begins_generated (ht : t ≠ []) : Begins (fun x => x.page = false) (generated t) := by
  obtain ⟨c, t, rfl⟩ := List.exists_cons_of_ne_nil ht
  exact ⟨_, _, rfl, rfl⟩

theorem Free.front (hw : IsOpener w) (ha : Free w a) : Free w (generated t ++ a) := by
  by_cases ht : t = []
  · subst ht
    exact ha
  · exact (free_of_generated hw page_generated).append ha
      (.inl ((ends_generated ht).imp fun x hx => barrier_of_generated hx))

theorem compositional_free (hw : IsOpener w) : Compositional (Free w) where
  nil := free_of_generated hw (by simp)
  suffix := fun hs h => h.mono hs.isInfix
  cut := fun _ h => h.mono (List.prefix_append _ _).isInfix
  front := fun _ ha => ha.front hw
  tail := by
    intro a t _ _ ha
    by_cases ht : t = []
    · subst ht
      simpa [generated] using ha
    · exact ha.append (free_of_generated hw page_generated)
        (.inr ((begins_generated ht).imp fun x hx => barrier_of_generated hx))
  append := fun h ha hb => ha.append hb
    (h.imp (·.imp fun x hx => barrier_of_generated hx.1)
      (·.imp fun x hx => barrier_of_generated hx.1))

theorem barrier_of_not_isTokenChar (hw : IsOpener w) {x : Cell}
    (hx : isTokenChar x.char = false) : Barrier (fun v => ∀ key, IsToken w (text v) key → P key) x := by
  intro v hmem key hv
  have hchar := hv.isTokenChar hw x.char (List.mem_map_of_mem hmem)
  rw [hx] at hchar
  cases hchar

theorem only_of_not_mem (hw : IsOpener w) (h : '{' ∉ text l) : Only w P l := by
  intro v hv key htoken
  obtain ⟨tail, heq, -⟩ := htoken.eq_cons hw
  have hmem : '{' ∈ text v := heq ▸ List.mem_cons_self
  exact absurd ((hv.map Cell.char).subset hmem) h

theorem text_generated : text (generated t) = t := by
  simp [text, generated, Function.comp_def]

theorem IsToken.getLast? (hw : IsOpener w) {v key : Text} (h : IsToken w v key) :
    v.getLast? = some '}' := by
  obtain ⟨tail, rfl, -⟩ := h.eq_cons hw
  rw [← List.cons_append, ← List.cons_append, List.getLast?_concat]

theorem getLast?_text_append {s z : Content} (hz : z ≠ []) :
    (text (s ++ z)).getLast? = (text z).getLast? := by
  rw [text, List.map_append, List.getLast?_append_of_ne_nil _ (by simpa using hz), text]

theorem compositional_only (hw : IsOpener w) : Compositional (Only w P) where
  nil := only_of_not_mem hw (by simp [text])
  suffix := fun hs h => h.mono hs.isInfix
  cut := fun _ h => h.mono (List.prefix_append _ _).isInfix
  front := by
    intro a t hopen ha v hv key htoken
    obtain hv | ⟨s, hne, hs, hpre⟩ := infix_append_cases hv
    · exact ha v hv key htoken
    · -- the token begins with a brace, which `t` does not have
      obtain ⟨x, s, rfl⟩ := List.exists_cons_of_ne_nil hne
      obtain ⟨tail, heq, -⟩ := htoken.eq_cons hw
      cases v with
      | nil => cases heq
      | cons y v =>
        obtain ⟨rfl, -⟩ := List.cons_prefix_cons.mp hpre
        have hmem : y.char ∈ text (generated t) :=
          List.mem_map_of_mem (hs.subset List.mem_cons_self)
        rw [text_generated, (List.cons.inj heq).1] at hmem
        exact absurd hmem hopen
  tail := by
    intro a t hopen hclose ha v hv key htoken
    have ht : Only w P (generated t) := only_of_not_mem hw (by rwa [text_generated])
    obtain hv | ⟨s, hne, hs, hpre⟩ := infix_append_cases hv
    · exact ht v hv key htoken
    · obtain hle | ⟨z, rfl⟩ := List.prefix_or_prefix_of_prefix hpre (List.prefix_append s _)
      · exact ha v (hle.isInfix.trans hs.isInfix) key htoken
      · -- the token ends with a brace, which `t` does not have
        rw [List.prefix_append_right_inj] at hpre
        by_cases hz : z = []
        · subst hz
          exact ha _ (by simpa using hs.isInfix) key htoken
        · have hlast := htoken.getLast? hw
          rw [getLast?_text_append hz] at hlast
          have hmem := (hpre.map Cell.char).subset (List.mem_of_getLast? hlast)
          rw [← text, text_generated] at hmem
          exact absurd hmem hclose
  append := fun h ha hb => ha.append hb
    (h.imp (·.imp fun x hx => barrier_of_not_isTokenChar hw hx.2)
      (·.imp fun x hx => barrier_of_not_isTokenChar hw hx.2))

theorem whole_of_generated (hw : IsOpener w) (h : ∀ x ∈ l, x.page = false) : Whole w l :=
  Complete.of_not_mem (brace_mem_written hw) fun hmem => absurd (h _ hmem) (by simp)

theorem compositional_whole (hw : IsOpener w) : Compositional (Whole w) where
  nil := Complete.of_not_mem (brace_mem_written hw) (by simp)
  suffix := fun hs h => h.suffix hs
  cut := by
    intro a b hb h
    refine h.cut fun y z ⟨key, htoken⟩ hy hz => ?_
    by_contra hne
    obtain hbrace | ⟨c, hc, hchar⟩ | hlast := hb z hz hne
    · rw [text, List.map_append] at htoken
      refine htoken.not_mem_tail hw ?_ hbrace
      obtain ⟨name, rfl, -⟩ := hw
      have hle := hy.length_le
      simp only [written, List.length_map, List.length_cons] at hle ⊢
      omega
    · have hchar' := htoken.isTokenChar hw c (by
        rw [text, List.map_append]
        exact List.mem_append_right _ hc)
      rw [hchar] at hchar'
      cases hchar'
    · rw [← getLast?_text_append hne] at hlast
      exact hlast (htoken.getLast? hw)
  front := by
    intro a t _ ha
    by_cases ht : t = []
    · subst ht
      exact ha
    · exact (whole_of_generated hw page_generated).append ha
        (.inl ((ends_generated ht).imp fun x hx => not_mem_written hx))
  tail := by
    intro a t _ _ ha
    by_cases ht : t = []
    · subst ht
      simpa [generated] using ha
    · exact ha.append (whole_of_generated hw page_generated)
        (.inr ((begins_generated ht).imp fun x hx => not_mem_written hx))
  append := fun h ha hb => ha.append hb
    (h.imp (·.imp fun x hx => not_mem_written hx.1) (·.imp fun x hx => not_mem_written hx.1))

/-! ## §3 Parts of the new texts -/

/-- The content can be put between others. -/
def Sealed (l : Content) : Prop := Begins Seal l ∧ Ends Seal l

theorem begins_seal {c : Char} (h : t.head? = some c) (hc : isTokenChar c = false) :
    Begins Seal (generated t) := by
  obtain ⟨t, rfl⟩ := List.head?_eq_some_iff.mp h
  exact ⟨⟨c, false⟩, generated t, rfl, rfl, hc⟩

theorem ends_seal {c : Char} (h : t.getLast? = some c) (hc : isTokenChar c = false) :
    Ends Seal (generated t) := by
  obtain ⟨t, rfl⟩ := List.getLast?_eq_some_iff.mp h
  exact ⟨generated t, ⟨c, false⟩, by simp [generated], rfl, hc⟩

theorem escapeChar_eq_some {c : Char} {e : Text} (h : escapeChar c = some e) :
    isTokenChar c = false ∧ e.head? = some '&' ∧ e.getLast? = some ';' ∧ '{' ∉ e ∧ '}' ∉ e := by
  rw [escapeChar] at h
  split_ifs at h with hc hc hc hc hc
  all_goals
    obtain rfl := hc
    obtain rfl := Option.some.inj h
    decide

section Parts

variable (hQ : Compositional Q)

include hQ

theorem Compositional.plain (hopen : '{' ∉ t) (hclose : '}' ∉ t) : Q (generated t) :=
  hQ.tail hopen hclose hQ.nil

theorem Compositional.strip (h : Q l) : Q (strip Cell.char l) := by
  have hdrop := hQ.suffix (List.dropWhile_suffix fun x => isSpace (Cell.char x)) h
  rw [← List.rdropWhile_append_rtakeWhile (l := l.dropWhile _)] at hdrop
  refine hQ.cut (apart_of_spaces fun c hc => ?_) hdrop
  have hspace := List.mem_rtakeWhile_imp hc
  exact hspace

theorem Compositional.escape (hl : Q l) : Q (escape l) := by
  have hbehind : ∀ a, Q (a ++ l) → Q (a ++ Tutorial.escape l) := by
    induction l with
    | nil => exact fun _ h => h
    | cons c l ih =>
      intro a h
      have htail : Q l := hQ.suffix (List.suffix_cons c l) (hQ.suffix (List.suffix_append a _) h)
      rw [Tutorial.escape, List.flatMap_cons, ← Tutorial.escape]
      cases hc : escapeChar c.char with
      | none =>
        have hnext := ih htail (a ++ [c]) (by simpa using h)
        simpa using hnext
      | some e =>
        obtain ⟨hchar, hhead, hlast, hopen, hclose⟩ := escapeChar_eq_some hc
        refine hQ.append (.inr (begins_seal hhead rfl).append) ?_ ?_
        · exact hQ.cut (apart_of_not_isTokenChar hchar) h
        · exact hQ.append (.inl (ends_seal hlast rfl)) (hQ.plain hopen hclose) (ih htail [] htail)
  exact hbehind [] hl

theorem Compositional.chipBlock {chip : Text} (hchip : Q (generated chip)) (hl : Q l) :
    Q (chipBlock chip l) ∧ Sealed (chipBlock chip l) := by
  have hleft : Ends Seal (generated "<div class=\"hisi-chip-block\" data-hisi-chip=\"".toList) :=
    ends_seal rfl rfl
  have hright : Begins Seal (generated "</div>".toList) := begins_seal rfl rfl
  refine ⟨?_, (begins_seal rfl rfl).append, ?_⟩
  · refine hQ.append (.inl hleft) (hQ.plain (by decide) (by decide)) ?_
    refine hQ.append (.inr (begins_seal rfl rfl).append) (hQ.escape hchip) ?_
    refine hQ.append (.inl (ends_seal rfl rfl)) (hQ.plain (by decide) (by decide)) ?_
    exact hQ.append (.inr hright) hl (hQ.plain (by decide) (by decide))
  · exact (ends_seal rfl rfl).append.append.append.append

theorem Compositional.htmlCodeBlock {body : Text} (hbody : Q (generated body)) :
    Q (htmlCodeBlock body) := by
  refine hQ.append (.inl (ends_seal rfl rfl)) (hQ.plain (by decide) (by decide)) ?_
  exact hQ.append (.inr (begins_seal rfl rfl)) (hQ.escape hbody) (hQ.plain (by decide) (by decide))

theorem Compositional.join {parts : List Content} (hne : parts ≠ [])
    (h : ∀ part ∈ parts, Q part ∧ Sealed part) :
    Q (join (generated ['\n']) parts) ∧ Sealed (join (generated ['\n']) parts) := by
  induction parts with
  | nil => exact absurd rfl hne
  | cons part parts ih =>
    obtain ⟨⟨hpart, hsealed⟩, hparts⟩ := List.forall_mem_cons.mp h
    cases parts with
    | nil => exact ⟨hpart, hsealed⟩
    | cons next parts =>
      obtain ⟨hrest, hrestSealed⟩ := ih (by simp) hparts
      refine ⟨hQ.append (.inl hsealed.2) hpart ?_, hsealed.1.append, hrestSealed.2.append.append⟩
      exact hQ.append (.inr hrestSealed.1) (hQ.plain (by decide) (by decide)) hrest

end Parts

/-! ## §4 The passes -/

theorem advances_matchLiteral (hw : t ≠ []) : Advances (matchLiteral t) := by
  intro s n x h
  obtain ⟨r, hr, hn⟩ := Option.map_eq_some_iff.mp h
  obtain ⟨v, rfl, rfl⟩ := after_eq_some.mp hr
  cases hn
  rw [List.length_append, List.length_map]
  refine ⟨List.length_pos_iff.mpr ?_, by omega⟩
  rintro rfl
  exact hw rfl

theorem prefix_of_matchLiteral (h : (matchLiteral t l).isSome = true) : t <+: text l := by
  obtain ⟨x, hx⟩ := Option.isSome_iff_exists.mp h
  obtain ⟨r, hr, -⟩ := Option.map_eq_some_iff.mp hx
  obtain ⟨v, rfl, rfl⟩ := after_eq_some.mp hr
  exact ⟨text r, by simp [text]⟩

theorem sub_hide : sub (matchLiteral blockClass)
    (fun _ => (.ok (generated hiddenClass) : Except Failure Content)) l = .ok (hide l) :=
  substitute_eq_substituteAll

theorem Compositional.hide (hQ : Compositional Q) (hl : Q l) : Q (hide l) := by
  refine sub_rule (R := Q) (advances_matchLiteral (by decide)) (fun _ _ => hQ.suffix) ?_ ?_ hl sub_hide
  · intro a s _ hs h
    obtain rfl | hs := hs
    · simpa using h
    · exact hQ.cut (apart_blockClass (prefix_of_matchLiteral hs)) h
  · intro a s n x new rest _ _ hnew ha hrest
    cases hnew
    rw [← List.append_assoc]
    exact hQ.append (.inl (ends_seal rfl rfl).append) (hQ.tail (by decide) (by decide) ha) hrest

theorem begins_hide (hl : Begins Seal l) : Begins Seal (hide l) := by
  obtain ⟨x, l, rfl, hx⟩ := hl
  have hnone : matchLiteral blockClass (x :: l) = none := by
    by_contra hsome
    obtain ⟨c, hc⟩ := prefix_of_matchLiteral (Option.isSome_iff_ne_none.mpr hsome)
    have hchar : x.char = 'c' := (List.cons.inj hc).1.symm
    exact absurd hx.2 (by rw [hchar]; decide)
  rw [hide, scan_cons_none hnone]
  exact ⟨x, hide l, rfl, hx⟩

theorem hide_of_silent (h : Silent (matchLiteral blockClass) l []) : hide l = l :=
  (Except.ok.inj ((sub_of_silent h).symm.trans sub_hide)).symm

theorem ends_hide (hl : Ends Seal l) : Ends Seal (hide l) := by
  have hadvances : Advances (matchLiteral blockClass) := advances_matchLiteral (by decide)
  induction l using scan_induction hadvances with
  | silent l h => rwa [hide_of_silent h]
  | step a s n x ha hs ih =>
    obtain ⟨new, rest, hnew, hrest, heq⟩ :=
      (sub_append_match_eq_ok hadvances ha hs).mp (sub_hide (l := a ++ s))
    cases hnew
    rw [heq]
    obtain rfl : hide (s.drop n) = rest := Except.ok.inj (sub_hide.symm.trans hrest)
    by_cases hdrop : s.drop n = []
    · have hnil : hide [] = [] := rfl
      rw [hdrop, hnil, List.append_nil]
      exact (ends_seal rfl rfl).append
    · have hsuffix : s.drop n <:+ a ++ s := (List.drop_suffix n s).trans (List.suffix_append a s)
      exact (ih (hl.suffix hsuffix hdrop)).append.append

theorem Sealed.hide (h : Sealed l) : Sealed (hide l) := ⟨begins_hide h.1, ends_hide h.2⟩

theorem apart_of_matchToken (hw : IsOpener w) (h : (matchToken Cell.char w l).isSome = true) : Apart l := by
  obtain ⟨⟨n, key⟩, hl⟩ := Option.isSome_iff_exists.mp h
  obtain ⟨v, r, rfl, htoken, -⟩ := matchToken_sound hl
  obtain ⟨tail, heq, -⟩ := htoken.eq_cons hw
  cases v with
  | nil => cases heq
  | cons c v => exact apart_brace (List.cons.inj heq).1

/-- What a pass keeps, if the keys are of a kind. -/
theorem Compositional.pass {replace : Text → Except Failure Content} {out : Content} (hQ : Compositional Q)
    (hw : IsOpener w) (hnew : ∀ key new, P key → replace key = .ok new → Q new ∧ Sealed new)
    (hkeys : Only w P l) (hl : Q l) (h : sub (matchToken Cell.char w) replace l = .ok out) : Q out := by
  refine sub_rule (Q := fun l => Q l ∧ Only w P l) (R := Q) advances_matchToken
    (fun _ _ hs hl => ⟨hQ.suffix hs hl.1, hl.2.mono hs.isInfix⟩) ?_ ?_ ⟨hl, hkeys⟩ h
  · rintro a s _ hs ⟨h, -⟩
    obtain rfl | hs := hs
    · simpa using h
    · exact hQ.cut (apart_of_matchToken hw hs) h
  · rintro a s n key new rest hs ⟨-, hkeys⟩ hx ha hrest
    obtain ⟨v, r, rfl, htoken, -⟩ := matchToken_sound hs
    have hkey := hkeys v (List.prefix_append v r).isInfix key htoken
    obtain ⟨hQnew, hbegins, hends⟩ := hnew key new hkey hx
    exact hQ.append (.inr hbegins.append) ha (hQ.append (.inl hends) hQnew hrest)

/-- A pass leaves no opener of its own, when each one begins a token. -/
theorem free_of_pass {replace : Text → Except Failure Content} {out : Content} (hw : IsOpener w)
    (hnew : ∀ key new, replace key = .ok new → (∀ x ∈ new, x.page = false) ∧ Sealed new)
    (hl : Whole w l) (h : sub (matchToken Cell.char w) replace l = .ok out) : Free w out := by
  have hfree := compositional_free hw
  refine sub_rule (R := Free w) advances_matchToken (fun _ _ hs h => h.suffix hs) ?_ ?_ hl h
  · rintro a s ha - hwhole _ hv rfl
    obtain ⟨t, hpre, ht⟩ := List.infix_iff_prefix_suffix.mp hv
    obtain ⟨v, ⟨key, htoken⟩, hv⟩ := hwhole (t ++ s) (List.suffix_append_self_iff.mpr ht)
      (hpre.trans (List.prefix_append t s))
    obtain ⟨r, hr⟩ := hv
    have hne : t ≠ [] := by
      rintro rfl
      exact absurd (hpre.subset (brace_mem_written hw)) List.not_mem_nil
    have hnone := ha t hne ht
    rw [← hr, matchToken_append htoken] at hnone
    cases hnone
  · intro a s n key new rest _ _ hx ha hrest
    obtain ⟨hpage, hbegins, hends⟩ := hnew key new hx
    exact hfree.append (.inr hbegins.append) ha
      (hfree.append (.inl hends) (free_of_generated hw hpage) hrest)

/-- A pass succeeds, when the keys of the tokens have a text. -/
theorem pass_isOk {replace : Text → Except Failure Content}
    (hnew : ∀ key, P key → ∃ new, replace key = .ok new) (hl : Only w P l) :
    ∃ out, sub (matchToken Cell.char w) replace l = .ok out := by
  refine sub_isOk advances_matchToken fun s hs n key h => ?_
  obtain ⟨v, r, rfl, htoken, -⟩ := matchToken_sound h
  exact hnew key (hl v ((List.prefix_append v r).isInfix.trans hs.isInfix) key htoken)

section Replacements

variable {snippets : List (Text × Text)} {chips : Chips} {key : Text} {new : Content}

theorem mem_of_get {β : Type} {dict : List (Text × β)} {value : β} (h : get dict key = some value) :
    (key, value) ∈ dict := by
  obtain ⟨before, behind, rfl, -⟩ := List.lookup_eq_some_iff.mp h
  exact List.mem_append_right before List.mem_cons_self

theorem exists_get {β : Type} {dict : List (Text × β)} (h : key ∈ keys dict) :
    ∃ value, get dict key = some value := by
  cases hget : get dict key with
  | some value => exact ⟨value, rfl⟩
  | none =>
    obtain ⟨⟨_, value⟩, hmem, rfl⟩ := List.mem_map.mp h
    have hne := List.lookup_eq_none_iff.mp hget _ hmem
    simp at hne

theorem mem_variants {chip body : Text} : (chip, body) ∈ variants snippets chips key ↔
    chip ∈ chips.selectable ∧ get snippets (key ++ '.' :: chip) = some body := by
  simp only [variants, List.mem_filterMap, List.mem_eraseDups, Option.map_eq_some_iff, Prod.mk.injEq]
  constructor
  · rintro ⟨_, hchip, _, hbody, rfl, rfl⟩
    exact ⟨hchip, hbody⟩
  · rintro ⟨hchip, hbody⟩
    exact ⟨chip, hchip, body, hbody, rfl, rfl⟩

theorem Compositional.replaceSnippet (hQ : Compositional Q)
    (hbrought : ∀ t ∈ brought snippets chips key, Q (generated t))
    (h : replaceSnippet snippets chips key = .ok new) : Q new ∧ Sealed new := by
  rw [Tutorial.replaceSnippet] at h
  rw [brought] at hbrought
  cases hvariants : variants snippets chips key with
  | nil =>
    simp only [hvariants] at h hbrought
    split at h
    · cases h
    · rename_i body hbody
      obtain rfl := Except.ok.inj h
      refine ⟨hQ.front (by decide) (hQ.tail (by decide) (by decide) (hbrought body ?_)), ?_, ?_⟩
      · rw [hbody]
        exact List.mem_cons_self
      · exact (begins_seal rfl rfl).append
      · exact (ends_seal rfl rfl).append.append
  | cons block blocks =>
    simp only [hvariants] at h hbrought
    obtain rfl := Except.ok.inj h
    refine hQ.join (by simp) (List.forall_mem_map.mpr ?_)
    rintro ⟨chip, body⟩ hmem
    have hboth {t : Text} (ht : t ∈ [chip, body]) : Q (generated t) :=
      hbrought t (List.mem_flatMap.mpr ⟨(chip, body), hmem, ht⟩)
    exact hQ.chipBlock (hboth (by simp)) (hQ.htmlCodeBlock (hboth (by simp)))

theorem Compositional.replaceField (hQ : Compositional Q) (hkey : Q (generated key))
    (hvalues : ∀ value, Q (generated value)) (h : replaceField chips key = .ok new) :
    Q new ∧ Sealed new := by
  rw [Tutorial.replaceField] at h
  split at h
  · cases h
  · rename_i value _
    obtain rfl := Except.ok.inj h
    refine ⟨?_, (begins_seal rfl rfl).append, (ends_seal rfl rfl).append.append.append.append⟩
    refine hQ.append (.inl (ends_seal rfl rfl)) (hQ.plain (by decide) (by decide)) ?_
    refine hQ.append (.inr (begins_seal rfl rfl).append) (hQ.escape hkey) ?_
    refine hQ.append (.inl (ends_seal rfl rfl)) (hQ.plain (by decide) (by decide)) ?_
    exact hQ.append (.inr (begins_seal rfl rfl)) (hQ.escape (hvalues value))
      (hQ.plain (by decide) (by decide))

end Replacements

theorem matchApiLink_sound {n : ℕ} {path label : Content}
    (h : matchApiLink Cell.char l = some (n, path, label)) :
    (0 < n ∧ n ≤ l.length) ∧ path <:+: l ∧ label <:+: l := by
  simp only [matchApiLink, Option.bind_eq_bind, Option.bind_eq_some_iff,
    Option.ite_none_left_eq_some, Option.some.injEq, Prod.mk.injEq, not_or, after_eq_some] at h
  obtain ⟨rest, ⟨v, rfl, hv⟩, r₁, ⟨u₁, hu₁, -⟩, r₂, ⟨u₂, hu₂, -⟩, -, rfl, rfl, rfl⟩ := h
  have hr₁ : r₁ <:+ rest := (List.suffix_append u₁ r₁).trans (hu₁ ▸ List.dropWhile_suffix _)
  have hr₂ : r₂ <:+ r₁ := (List.suffix_append u₂ r₂).trans (hu₂ ▸ List.dropWhile_suffix _)
  have hrest := List.suffix_append v rest
  have hrun := (List.takeWhile_prefix (fun x => decide (Cell.char x ≠ '|') && decide (Cell.char x ≠ '}'))
    (l := rest)).isInfix.trans hrest.isInfix
  refine ⟨?_, ?_, (List.takeWhile_prefix _).isInfix.trans (hr₁.trans hrest).isInfix⟩
  · have hle := (hr₂.trans hr₁).length_le
    have hpos := congrArg List.length hv
    rw [List.length_map, show apiLinkOpener.length = 11 from rfl] at hpos
    rw [List.length_append]
    omega
  · split_ifs
    · exact (List.drop_suffix _ _).isInfix.trans hrun
    · exact (List.dropWhile_suffix _).isInfix.trans hrun

theorem Free.replaceApiLink (apiBase : Text) (chips : Chips) {path label : Content} (hw : IsOpener w)
    (hpath : Free w path) (hlabel : Free w label) :
    Free w (replaceApiLink apiBase chips (path, label)) ∧
      Sealed (Tutorial.replaceApiLink apiBase chips (path, label)) := by
  have hfree := compositional_free hw
  have hpath := hfree.strip hpath
  refine ⟨?_, (begins_seal rfl rfl).append, ?_⟩
  · refine Free.front hw ?_
    refine hfree.append (.inr (begins_seal rfl rfl).append) (hfree.escape hpath) (Free.front hw ?_)
    refine hfree.append (.inr (begins_seal rfl rfl).append) (hfree.escape ?_) (Free.front hw ?_)
    · exact Free.front hw (hfree.suffix (List.dropWhile_suffix _) hpath)
    · exact hfree.append (.inr (begins_seal rfl rfl)) (hfree.escape (hfree.strip hlabel))
        (free_of_generated hw page_generated)
  · exact (ends_seal rfl rfl).append.append.append.append.append.append

theorem Free.renderApiLinks {apiBase : Text} {chips : Chips} (hw : IsOpener w) (hl : Free w l) :
    Free w (renderApiLinks apiBase chips l) := by
  have hfree := compositional_free hw
  have hsub : sub (matchApiLink Cell.char)
      (fun x => (.ok (Tutorial.replaceApiLink apiBase chips x) : Except Failure Content)) l =
      .ok (Tutorial.renderApiLinks apiBase chips l) := substitute_eq_substituteAll
  refine sub_rule (R := Free w) (fun _ _ _ h => (matchApiLink_sound h).1) (fun _ _ => hfree.suffix)
    ?_ ?_ hl hsub
  · intro a s _ _ h
    exact h.mono (List.prefix_append a s).isInfix
  · rintro a s n ⟨path, label⟩ new rest hs hl hnew ha hrest
    obtain ⟨-, hpath, hlabel⟩ := matchApiLink_sound hs
    obtain rfl := Except.ok.inj hnew
    obtain ⟨hnew, hbegins, hends⟩ :=
      Free.replaceApiLink apiBase chips hw (hl.mono hpath) (hl.mono hlabel)
    exact hfree.append (.inr hbegins.append) ha (hfree.append (.inl hends) hnew hrest)

end HisiRiscv.Docs.Tutorial
