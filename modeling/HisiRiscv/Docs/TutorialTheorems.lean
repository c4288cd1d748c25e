/-
HisiRiscv.Docs.TutorialTheorems — a checked tutorial is rendered.

The checker and the preprocessor read the contracts alike (`loadSnippets_of_parse`). What the checker
finds in the lines of a page is what the preprocessor finds in the page, for tokens that stand on one line
(`exists_lineErrors`). A checked page is rendered, and no token is left of it, if its blocks are closed
and what they leave fits (`checked_page_rendered`). What the checker does not look at is listed in
`Blocks` and `Fits`; for each of it a book passes the check and is not rendered
(`not_checked_page_rendered`).

  §1 The contracts.
  §2 What is checked.
  §3 Rendering.
  §4 Main result.
  §5 Books.
-/
import HisiRiscv.Docs.TutorialBlocks

namespace HisiRiscv.Docs.Tutorial

open PyText Scan Tokens

/-! ## §1 The contracts -/

section Contracts

variable {contractsPath line : Text} {lines : List Text} {st st' : Parser} {n : ℕ}

/-- The snippet that is loaded for the lines that are parsed. -/
def loadedSnippet (snippet : Text × List Text) : Text × Text :=
  (snippet.1, stripNewlines (join ['\n'] snippet.2))

def loaded (st : Parser) : Loader := ⟨st.snippets.map loadedSnippet, st.current, st.lines⟩

theorem keys_loaded (snippets : List (Text × List Text)) :
    keys (snippets.map loadedSnippet) = keys snippets := by
  rw [keys, keys, List.map_map]
  rfl

/-- Errors stay. -/
theorem parseLine_errors (h : parseLine contractsPath st (line, n) = .ok st') :
    st.errors <+: st'.errors := by
  simp only [parseLine] at h
  split at h
  · split at h
    · obtain rfl := Except.ok.inj h
      exact List.prefix_append _ _
    · cases h
    · obtain rfl := Except.ok.inj h
      exact List.prefix_rfl
  · split at h
    · split at h
      · obtain rfl := Except.ok.inj h
        exact List.prefix_append _ _
      · split_ifs at h
        · obtain rfl := Except.ok.inj h
          exact List.prefix_append _ _
        · obtain rfl := Except.ok.inj h
          exact List.prefix_append _ _
        · obtain rfl := Except.ok.inj h
          exact List.prefix_rfl
    · split at h
      · obtain rfl := Except.ok.inj h
        exact List.prefix_rfl
      · obtain rfl := Except.ok.inj h
        exact List.prefix_rfl

/-- A line that adds no error is read alike. -/
theorem loadLine_of_parseLine (h : parseLine contractsPath st (line, n) = .ok st')
    (herrors : st'.errors = []) : loadLine (loaded st) line = .ok (loaded st') := by
  have hno {message : Text} {st : Parser} : (st.error message).errors ≠ [] := by simp [Parser.error]
  simp only [parseLine] at h
  simp only [loadLine, loaded, keys_loaded]
  split at h
  · rename_i hstart
    rw [if_pos hstart]
    split at h
    · obtain rfl := Except.ok.inj h
      exact absurd herrors hno
    · cases h
    · obtain rfl := Except.ok.inj h
      rfl
  · rename_i hstart
    rw [if_neg hstart]
    split at h
    · rename_i hend
      rw [if_pos hend]
      split at h
      · obtain rfl := Except.ok.inj h
        exact absurd herrors hno
      · split_ifs at h with hduplicate hempty
        · obtain rfl := Except.ok.inj h
          exact absurd herrors hno
        · obtain rfl := Except.ok.inj h
          exact absurd herrors hno
        · obtain rfl := Except.ok.inj h
          rw [if_neg hduplicate, List.map_append]
          rfl
    · rename_i hend
      rw [if_neg hend]
      split at h
      · obtain rfl := Except.ok.inj h
        rfl
      · obtain rfl := Except.ok.inj h
        rfl

theorem parseLines_errors {k : ℕ} (h : (lines.zipIdx k).foldlM (parseLine contractsPath) st = .ok st') :
    st.errors <+: st'.errors := by
  induction lines generalizing st k with
  | nil =>
    obtain rfl := Except.ok.inj h
    exact List.prefix_rfl
  | cons line lines ih =>
    rw [List.zipIdx_cons, List.foldlM_cons] at h
    cases hline : parseLine contractsPath st (line, k) with
    | error e =>
      rw [hline] at h
      cases h
    | ok next =>
      rw [hline] at h
      exact (parseLine_errors hline).trans (ih h)

theorem loadLines_of_parseLines {k : ℕ}
    (h : (lines.zipIdx k).foldlM (parseLine contractsPath) st = .ok st') (herrors : st'.errors = []) :
    lines.foldlM loadLine (loaded st) = .ok (loaded st') := by
  induction lines generalizing st k with
  | nil =>
    obtain rfl := Except.ok.inj h
    rfl
  | cons line lines ih =>
    rw [List.zipIdx_cons, List.foldlM_cons] at h
    cases hline : parseLine contractsPath st (line, k) with
    | error e =>
      rw [hline] at h
      cases h
    | ok next =>
      rw [hline] at h
      have hnext : next.errors = [] := List.prefix_nil.mp (herrors ▸ parseLines_errors h)
      rw [List.foldlM_cons, loadLine_of_parseLine hline hnext]
      exact ih h

/-- Contracts without errors are loaded. -/
theorem loadSnippets_of_parse {contracts : Text} {snippets : List (Text × List Text)}
    (h : parseSnippets contractsPath contracts = .ok (snippets, [])) :
    loadSnippets contracts = .ok (snippets.map loadedSnippet) := by
  rw [parseSnippets] at h
  cases hfold : ((splitlines (universalNewlines contracts)).zipIdx 1).foldlM (parseLine contractsPath)
      ⟨[], [], none, []⟩ with
  | error e =>
    rw [hfold] at h
    cases h
  | ok st =>
    rw [hfold] at h
    have hst : st.current = none ∧ st.snippets = snippets ∧ st.errors = [] := by
      cases hcurrent : st.current with
      | none =>
        simp only [bind, Except.bind, hcurrent, pure, Except.pure, Except.ok.injEq, Prod.mk.injEq] at h
        exact ⟨rfl, h⟩
      | some current =>
        simp [bind, Except.bind, hcurrent, pure, Except.pure] at h
    obtain ⟨hcurrent, rfl, herrors⟩ := hst
    have hload := loadLines_of_parseLines hfold herrors
    have hstart : loaded ⟨[], [], none, []⟩ = ⟨[], none, []⟩ := rfl
    rw [hstart] at hload
    rw [loadSnippets, hload]
    simp only [bind, Except.bind, loaded, hcurrent]

end Contracts

/-! ## §2 What is checked -/

section Checker

variable {root contracts : Text} {snippets : List (Text × List Text)} {chips : Chips} {tutorials : List Page}
  {page : Page} {w key here line : Text}

theorem of_lineErrors (h : lineErrors snippets chips here line = []) :
    (∀ key ∈ findIds snippetOpener line, key ∈ keys snippets ∨ hasVariants snippets key = true) ∧
      (∀ key ∈ findIds fieldOpener line, ∀ chip ∈ chips.chips, chip.1 ∈ chips.selectable → key ∈ keys chip.2) ∧
      ∀ key ∈ findIds chipIfOpener line, key ∈ keys chips.chips := by
  simp only [lineErrors, List.append_eq_nil_iff, List.map_eq_nil_iff, List.filter_eq_nil_iff,
    List.flatMap_eq_nil_iff, fieldErrors, Bool.and_eq_true, Bool.not_eq_true', not_and,
    List.contains_iff_mem, Bool.not_eq_false, Bool.not_eq_true] at h
  obtain ⟨⟨⟨⟨-, hsnippet⟩, hfield⟩, hchipIf⟩, -⟩ := h
  refine ⟨fun key hkey => ?_, hfield, hchipIf⟩
  by_cases hmem : key ∈ keys snippets
  · exact .inl hmem
  · exact .inr (hsnippet key hkey (by simpa using hmem))

/-- A token on one line of a page is looked at. -/
theorem exists_lineErrors {v : Text} (h : pageErrors snippets chips page = []) (hw : IsOpener w)
    (hv : v <:+: page.content) (htoken : IsToken w v key) (hline : ¬ Broken v) :
    ∃ here line, lineErrors snippets chips here line = [] ∧ key ∈ findIds w line := by
  have hone : ∀ c ∈ v, isLineBreak c = false := fun c hc =>
    Bool.eq_false_of_not_eq_true fun hbreak => hline ⟨c, hc, hbreak⟩
  obtain ⟨line, hmem, hin⟩ := exists_line hv (htoken.ne_nil hw) hone
  rw [← List.zipIdx_map_fst 1 page.lines] at hmem
  obtain ⟨⟨_, lineno⟩, hnumbered, rfl⟩ := List.mem_map.mp hmem
  exact ⟨_, _, List.flatMap_eq_nil_iff.mp h _ hnumbered, mem_findIds hw ⟨v, hin, htoken⟩⟩

theorem isOpener_snippet : IsOpener snippetOpener := isOpener_of_mem (by simp [openers])

theorem isOpener_field : IsOpener fieldOpener := isOpener_of_mem (by simp [openers])

/-- A tutorial passes the check if nothing is wrong. -/
theorem main_eq_zero (h : main root contracts chips tutorials = .ok 0) : ∃ contractsPath snippets,
    parseSnippets contractsPath contracts = .ok (snippets, []) ∧
      ∀ page ∈ tutorials, pageErrors snippets chips page = [] := by
  rw [main, checkErrors] at h
  cases hparse : parseSnippets (root ++ "/scripts/tutorial-contracts.sh".toList) contracts with
  | error e =>
    rw [hparse] at h
    cases h
  | ok parsed =>
    obtain ⟨snippets, errors⟩ := parsed
    rw [hparse] at h
    simp only [bind, Except.bind, pure, Except.pure, Except.ok.injEq, ite_eq_left_iff, imp_false,
      not_not, List.append_eq_nil_iff, Nat.one_ne_zero] at h
    obtain ⟨⟨rfl, hpages⟩, -⟩ := h
    exact ⟨_, snippets, hparse, fun page hpage => List.flatMap_eq_nil_iff.mp hpages page hpage⟩

end Checker

/-! ## §3 Rendering -/

section Rendering

variable {w t : Text} {P : Text → Prop} {Q : Content → Prop} {snippets : List (Text × Text)} {chips : Chips}
  {l out : Content} {key : Text}

theorem names_written {v : Content} (hv : v <:+: written t) (htoken : IsToken w (text v) key) :
    Names w t key := by
  refine ⟨text v, ?_, htoken⟩
  rw [← text_written (t := t)]
  exact hv.map Cell.char

theorem only_written (h : ∀ key, Names w t key → P key) : Only w P (written t) :=
  fun _ hv key htoken => h key (names_written hv htoken)

theorem only_generated (h : ∀ key, Names w t key → P key) : Only w P (generated t) := by
  intro v hv key htoken
  refine h key ⟨text v, ?_, htoken⟩
  rw [← text_generated (t := t)]
  exact hv.map Cell.char

theorem whole_written (h : Complete w (fun v => ∃ key, IsToken w v key) t) : Whole w (written t) := by
  intro s hs hw
  have hs' : text s <:+ t := text_written (t := t) ▸ hs.map Cell.char
  have hw' : w <+: text s := text_written (t := w) ▸ hw.map Cell.char
  obtain ⟨v, ⟨key, htoken⟩, hv⟩ := h (text s) hs' hw'
  refine ⟨s.take v.length, ⟨key, ?_⟩, List.take_prefix _ s⟩
  rwa [text, List.map_take, ← text, ← List.prefix_iff_eq_take.mp hv]

theorem Compositional.renderSnippets (hQ : Compositional Q)
    (hbrought : Only snippetOpener (fun key => ∀ t ∈ brought snippets chips key, Q (generated t)) l)
    (hl : Q l) (h : renderSnippets snippets chips l = .ok out) : Q out :=
  hQ.pass isOpener_snippet (fun _ _ hkey hnew => hQ.replaceSnippet hkey hnew) hbrought hl h

theorem compositional_page : Compositional fun l => ∀ x ∈ l, x.page = false where
  nil := by simp
  suffix := fun hs h x hx => h x (hs.subset hx)
  cut := fun _ h x hx => h x (List.mem_append_left _ hx)
  front := fun _ h => List.forall_mem_append.mpr ⟨page_generated, h⟩
  tail := fun _ _ h => List.forall_mem_append.mpr ⟨h, page_generated⟩
  append := fun _ ha hb => List.forall_mem_append.mpr ⟨ha, hb⟩

theorem free_snippet (hl : Whole snippetOpener l) (h : renderSnippets snippets chips l = .ok out) :
    Free snippetOpener out :=
  free_of_pass isOpener_snippet
    (fun _ _ hnew => compositional_page.replaceSnippet (fun _ _ => page_generated) hnew) hl h

theorem free_field (hl : Whole fieldOpener l) (h : renderChipFields chips l = .ok out) :
    Free fieldOpener out :=
  free_of_pass isOpener_field (fun _ _ hnew => compositional_page.replaceField page_generated
    (fun _ => page_generated) hnew) hl h

theorem Free.renderChipFields (hw : IsOpener w) (hl : Free w l) (h : renderChipFields chips l = .ok out) :
    Free w out :=
  (compositional_free hw).pass (P := fun _ => True) isOpener_field
    (fun _ _ _ hnew => (compositional_free hw).replaceField (free_of_generated hw page_generated)
      (fun _ => free_of_generated hw page_generated) hnew) (fun _ _ _ _ => trivial) hl h

theorem Free.renderSnippets (hw : IsOpener w) (hl : Free w l)
    (h : renderSnippets snippets chips l = .ok out) : Free w out :=
  (compositional_free hw).renderSnippets (fun _ _ _ _ _ _ => free_of_generated hw page_generated) hl h

theorem exists_replaceSnippet (h : Known snippets chips key) :
    ∃ new, replaceSnippet snippets chips key = .ok new := by
  rw [replaceSnippet]
  split
  · rename_i hnone
    obtain hmem | ⟨chip, hchip, hmem⟩ := h
    · obtain ⟨body, hbody⟩ := exists_get hmem
      rw [hbody]
      exact ⟨_, rfl⟩
    · obtain ⟨body, hbody⟩ := exists_get hmem
      have hvariant := mem_variants.mpr ⟨hchip, hbody⟩
      rw [hnone] at hvariant
      cases hvariant
  · exact ⟨_, rfl⟩

theorem exists_replaceField (h : key ∈ keys chips.defaultData) :
    ∃ new, replaceField chips key = .ok new := by
  obtain ⟨value, hvalue⟩ := exists_get h
  rw [replaceField, hvalue]
  exact ⟨_, rfl⟩

/-- The fields of the chips that are selectable are fields of the default chip. -/
theorem mem_defaultData (hdefault : chips.default ∈ chips.selectable)
    (h : ∀ chip ∈ chips.chips, chip.1 ∈ chips.selectable → key ∈ keys chip.2) : key ∈ keys chips.defaultData := by
  obtain ⟨data, hdata⟩ := exists_get chips.default_mem
  rw [Chips.defaultData, hdata]
  exact h (chips.default, data) (mem_of_get hdata) hdefault

/-- What is left of a page after the passes. -/
theorem rendered {payload apiBase page : Text} {parts names : List Text} (hblocks : Blocks chips page parts names)
    (hchips : ∀ head chip, head <:+: page → IsToken chipIfOpener head chip → ¬ Broken head →
      chip ∈ keys chips.chips)
    (hwhole : ∀ part ∈ parts, ∀ w ∈ [snippetOpener, fieldOpener],
      Complete w (fun t => ∃ id, IsToken w t id) part)
    (hsnippet : ∀ t ∈ parts ++ names, ∀ key, Names snippetOpener t key → Known snippets chips key)
    (hfield : ∀ t ∈ parts ++ names, ∀ key, Names fieldOpener t key → key ∈ keys chips.defaultData)
    (hbrought : ∀ t ∈ parts ++ names, ∀ key, Names snippetOpener t key → ∀ new ∈ brought snippets chips key,
      ∀ field, Names fieldOpener new field → field ∈ keys chips.defaultData) :
    Rendered payload apiBase snippets chips page := by
  -- the blocks
  obtain ⟨out₁, hout₁, hleft⟩ := assembled_of_blocks hblocks hchips
  have hfree₁ {w : Text} (hw : w ∈ blockOpeners) : Free w out₁ := by
    have hopener := isOpener_of_mem_block hw
    exact hleft _ (compositional_free hopener)
      (fun part hpart => free_written ((hblocks.parts_spec part hpart).2 w hw))
      fun _ _ => free_of_generated hopener page_generated
  have hwhole₁ {w : Text} (hw : w ∈ [snippetOpener, fieldOpener]) (hopener : IsOpener w) : Whole w out₁ :=
    hleft _ (compositional_whole hopener) (fun part hpart => whole_written (hwhole part hpart w hw))
      fun _ _ => whole_of_generated hopener page_generated
  have honly₁ {w : Text} {P : Text → Prop} (hopener : IsOpener w)
      (h : ∀ t ∈ parts ++ names, ∀ key, Names w t key → P key) : Only w P out₁ :=
    hleft _ (compositional_only hopener) (fun t ht => only_written (h t (List.mem_append_left names ht)))
      fun t ht => only_generated (h t (List.mem_append_right parts ht))
  -- the snippets
  obtain ⟨out₂, hout₂⟩ : ∃ out, renderSnippets snippets chips out₁ = .ok out :=
    pass_isOk (fun _ => exists_replaceSnippet) (honly₁ isOpener_snippet hsnippet)
  have hwhole₂ := (compositional_whole isOpener_field).renderSnippets
    (fun _ _ _ _ _ _ => whole_of_generated isOpener_field page_generated)
    (hwhole₁ (by simp) isOpener_field) hout₂
  have honly₂ := (compositional_only isOpener_field).renderSnippets
    (honly₁ isOpener_snippet fun t ht key hkey new hnew => only_generated (hbrought t ht key hkey new hnew))
    (honly₁ isOpener_field hfield) hout₂
  -- the fields
  obtain ⟨out₃, hout₃⟩ : ∃ out, renderChipFields chips out₂ = .ok out :=
    pass_isOk (fun _ => exists_replaceField) honly₂
  have hfree₃ : ∀ w ∈ openers, Free w out₃ := by
    intro w hw
    have hopener := isOpener_of_mem hw
    simp only [openers, List.mem_cons, List.not_mem_nil, or_false] at hw
    rcases hw with rfl | rfl | hw
    · exact (free_snippet (hwhole₁ (by simp) hopener) hout₂).renderChipFields hopener hout₃
    · exact free_field hwhole₂ hout₃
    · have hblock : w ∈ blockOpeners := by
        simpa only [blockOpeners, List.mem_cons, List.not_mem_nil, or_false] using hw
      exact ((hfree₁ hblock).renderSnippets hopener hout₂).renderChipFields hopener hout₃
  refine ⟨manifestScript payload ++ renderApiLinks apiBase chips out₃, ?_, fun w hw hleft => ?_⟩
  · simp only [render, hout₁, hout₂, hout₃, bind, Except.bind, pure, Except.pure]
  · have hopener := isOpener_of_mem hw
    exact Free.front hopener ((hfree₃ w hw).renderApiLinks hopener) (written w) hleft rfl

end Rendering

/-! ## §4 Main result -/

/-- Contracts that pass the check are loaded, and a page that passes it is rendered and has no token left,
if its blocks are closed and what they leave fits. -/
theorem checked_page_rendered {root contracts : Text} {chips : Chips} {tutorials : List Page}
    (payload apiBase : Text) (h : main root contracts chips tutorials = .ok 0) :
    ∃ snippets, loadSnippets contracts = .ok snippets ∧ ∀ page ∈ tutorials,
      Renderable snippets chips page.content → Rendered payload apiBase snippets chips page.content := by
  obtain ⟨contractsPath, snippets, hparse, hpages⟩ := main_eq_zero h
  refine ⟨snippets.map loadedSnippet, loadSnippets_of_parse hparse, ?_⟩
  rintro page hpage ⟨parts, names, hblocks, hfits⟩
  have hseen {w v key : Text} (hw : IsOpener w) (hv : v <:+: page.content) (htoken : IsToken w v key)
      (hline : ¬ Broken v) := exists_lineErrors (hpages page hpage) hw hv htoken hline
  refine rendered hblocks ?_ hfits.whole ?_ ?_ hfits.brought
  · intro head chip hhead htoken hline
    obtain ⟨here, line, hhere, hchip⟩ := hseen isOpener_chipIf hhead htoken hline
    exact (of_lineErrors hhere).2.2 chip hchip
  · rw [List.forall_mem_append]
    refine ⟨?_, hfits.nameSnippet⟩
    rintro part hpart key ⟨v, hv, htoken⟩
    by_cases hline : Broken v
    · exact hfits.snippet part hpart v key hv htoken (.inl hline)
    · have hpage := hv.trans (hblocks.parts_spec part hpart).1
      obtain ⟨here, line, hhere, hkey⟩ := hseen isOpener_snippet hpage htoken hline
      obtain hmem | hvariant := (of_lineErrors hhere).1 key hkey
      · rw [Known, keys_loaded]
        exact .inl hmem
      · obtain ⟨variant, hvariant, hpre⟩ := List.any_eq_true.mp hvariant
        refine hfits.snippet part hpart v key hv htoken (.inr ⟨variant, ?_, of_decide_eq_true hpre⟩)
        rwa [keys_loaded]
  · rw [List.forall_mem_append]
    refine ⟨?_, hfits.nameField⟩
    rintro part hpart key ⟨v, hv, htoken⟩
    by_cases hunseen : Broken v ∨ chips.default ∉ chips.selectable
    · exact hfits.field part hpart v key hv htoken hunseen
    · rw [not_or, not_not] at hunseen
      have hpage := hv.trans (hblocks.parts_spec part hpart).1
      obtain ⟨here, line, hhere, hkey⟩ := hseen isOpener_field hpage htoken hunseen.1
      exact mem_defaultData hunseen.2 ((of_lineErrors hhere).2.1 key hkey)

/-! ## §5 Books -/

def token (w : Text) (space : Char) (id : Text) : Text := w ++ space :: (id ++ closer)

def chipElse : Text := chipElseOpener ++ closer

def chipEnd : Text := chipEndOpener ++ closer

theorem isToken_token {w id : Text} {space : Char} (hspace : isSpace space = true) (hne : id ≠ [])
    (hid : ∀ c ∈ id, isIdChar c = true) : IsToken w (token w space id) id where
  shape := ⟨[space], [], rfl, by simp, by simpa using hspace, by simp⟩
  id_ne_nil := hne
  isIdChar := hid

theorem complete_of_matchToken {w t : Text} (h : ∀ s ∈ t.tails, w <+: s → (matchToken id w s).isSome = true) :
    Complete w (fun v => ∃ key, IsToken w v key) t := by
  intro s hs hw
  obtain ⟨⟨n, key⟩, hmatch⟩ := Option.isSome_iff_exists.mp (h s ((List.mem_tails s t).mpr hs) hw)
  obtain ⟨v, r, rfl, htoken, -⟩ := matchToken_sound hmatch
  rw [List.map_id] at htoken
  exact ⟨v, ⟨key, htoken⟩, List.prefix_append v r⟩

/-- What can be computed of it. -/
theorem fits_of_findIds {snippets : List (Text × Text)} {chips : Chips} {parts names : List Text}
    (hwhole : ∀ part ∈ parts, ∀ w ∈ [snippetOpener, fieldOpener], ∀ s ∈ part.tails, w <+: s →
      (matchToken id w s).isSome = true)
    (hsnippet : ∀ t ∈ parts ++ names, ∀ key ∈ findIds snippetOpener t, key ∈ keys snippets)
    (hfield : ∀ t ∈ parts ++ (names ++ snippets.map Prod.snd ++ chips.selectable),
      ∀ key ∈ findIds fieldOpener t, key ∈ keys chips.defaultData) : Fits snippets chips parts names := by
  have hfound {w t key : Text} (hw : w ∈ [snippetOpener, fieldOpener]) (h : Names w t key) :
      key ∈ findIds w t := by
    refine mem_findIds (isOpener_of_mem ?_) h
    exact List.mem_append_left [chipIfOpener, chipElseOpener, chipEndOpener] hw
  have hbrought {key t : Text} (ht : t ∈ brought snippets chips key) :
      t ∈ snippets.map Prod.snd ++ chips.selectable := by
    rw [brought] at ht
    cases hvariants : variants snippets chips key with
    | nil =>
      simp only [hvariants, Option.mem_toList] at ht
      exact List.mem_append_left _ (List.mem_map_of_mem (f := Prod.snd) (mem_of_get ht))
    | cons block blocks =>
      simp only [hvariants] at ht
      obtain ⟨⟨chip, body⟩, hmem, ht⟩ := List.mem_flatMap.mp ht
      rw [← hvariants] at hmem
      obtain ⟨hchip, hbody⟩ := mem_variants.mp hmem
      simp only [List.mem_cons, List.not_mem_nil, or_false] at ht
      obtain rfl | rfl := ht
      · exact List.mem_append_right _ hchip
      · exact List.mem_append_left _ (List.mem_map_of_mem (f := Prod.snd) (mem_of_get hbody))
  refine ⟨fun part hpart w hw => complete_of_matchToken (hwhole part hpart w hw), ?_, ?_, ?_, ?_, ?_⟩
  · intro part hpart v key hv htoken _
    exact .inl (hsnippet part (List.mem_append_left names hpart) key (hfound (by simp) ⟨v, hv, htoken⟩))
  · intro part hpart v key hv htoken _
    exact hfield part (List.mem_append_left _ hpart) key (hfound (by simp) ⟨v, hv, htoken⟩)
  · intro name hname key hkey
    exact .inl (hsnippet name (List.mem_append_right parts hname) key (hfound (by simp) hkey))
  · intro name hname key hkey
    refine hfield name ?_ key (hfound (by simp) hkey)
    simp only [List.mem_append]
    exact .inr (.inl (.inl hname))
  · intro _ _ key _ new hnew field hkey
    refine hfield new ?_ field (hfound (by simp) hkey)
    have hmem := List.mem_append.mp (hbrought hnew)
    simp only [List.mem_append]
    tauto

/-- A default chip that is not selectable, but has the field of the other one. -/
def twoChips : Chips where
  default := ['a']
  selectable := [['b']]
  chips := [(['a'], [(['z'], ['v'])]), (['b'], [(['z'], ['w'])])]
  default_mem := List.mem_cons_self

def oneSnippet : Text := "# docs:start s\nx\n# docs:end\n".toList

/-- A block with a snippet token over two lines, and a field token in the other body. -/
def blockPage : Page where
  path := []
  content := token snippetOpener ' ' ['s'] ++ (token chipIfOpener ' ' ['a'] ++
    (token snippetOpener '\n' ['s'] ++ (chipElse ++ (token fieldOpener ' ' ['z'] ++ (chipEnd ++ [])))))

theorem blockPage_renderable : Renderable [(['s'], ['x'])] twoChips blockPage.content := by
  have hparts : elseParts twoChips ['a'] (token fieldOpener ' ' ['z']) = [token fieldOpener ' ' ['z']] := by
    decide +kernel
  have hnames : elseNames twoChips ['a'] (token fieldOpener ' ' ['z']) = [['b']] := by decide +kernel
  have hplain {t : Text} (h : ∀ w ∈ [chipIfOpener, chipElseOpener, chipEndOpener], ¬ w <:+: t) : Plain t := h
  have ht : Plain (token snippetOpener ' ' ['s']) := hplain (by decide +kernel)
  have hhead : IsToken chipIfOpener (token chipIfOpener ' ' ['a']) ['a'] :=
    isToken_token rfl (by simp) (List.forall_mem_singleton.mpr rfl)
  have hbody : Plain (token snippetOpener '\n' ['s']) := hplain (by decide +kernel)
  have hend : ¬ chipEndOpener ++ closer <:+: token fieldOpener ' ' ['z'] := by decide +kernel
  have hother : ∀ part ∈ elseParts twoChips ['a'] (token fieldOpener ' ' ['z']), Plain part := by
    rw [hparts]
    exact List.forall_mem_singleton.mpr (hplain (by decide +kernel))
  have hrest : Blocks twoChips [] [[]] [] := .plain (hplain (by decide +kernel))
  have hblocks : Blocks twoChips blockPage.content _ _ :=
    .blockElse ht hhead (fun _ => List.mem_cons_self) hbody hend hother hrest
  rw [hparts, hnames] at hblocks
  exact ⟨_, _, hblocks, fits_of_findIds (by decide +kernel) (by decide +kernel) (by decide +kernel)⟩

theorem checked_block_rendered : ∃ snippets, loadSnippets oneSnippet = .ok snippets ∧
    Rendered [] [] snippets twoChips blockPage.content := by
  have hcheck : main [] oneSnippet twoChips [blockPage] = .ok 0 := by decide +kernel
  obtain ⟨snippets, hload, h⟩ := checked_page_rendered [] [] hcheck
  have hsnippets : loadSnippets oneSnippet = .ok [(['s'], ['x'])] := by decide +kernel
  obtain rfl := Except.ok.inj (hsnippets.symm.trans hload)
  exact ⟨_, hload, h blockPage List.mem_cons_self blockPage_renderable⟩

/-- Contracts, chips, and a page. -/
structure Book where
  contracts : Text
  chips : Chips
  page : Text

def Book.checked (book : Book) : Bool :=
  decide (main [] book.contracts book.chips [⟨[], book.page⟩] = .ok 0)

def Book.rendered (book : Book) : Bool :=
  match loadSnippets book.contracts with
  | .error _ => false
  | .ok snippets =>
    match render [] [] snippets book.chips (written book.page) with
    | .error _ => false
    | .ok content => openers.all fun w => !decide (written w <:+: content)

theorem Book.rendered_of_rendered {book : Book} {snippets : List (Text × Text)}
    (hload : loadSnippets book.contracts = .ok snippets)
    (h : Rendered [] [] snippets book.chips book.page) : book.rendered = true := by
  obtain ⟨content, hrender, hleft⟩ := h
  simp only [Book.rendered, hload, hrender, List.all_eq_true, Bool.not_eq_true', decide_eq_false_iff_not]
  exact hleft

/-- The chips that are selectable, of which `a` is the only one that is defined. -/
def chipsWith (selectable : List Text) : Chips := ⟨['a'], selectable, [(['a'], [])], List.mem_cons_self⟩

def snippet (id body : Text) : Text :=
  "# docs:start ".toList ++ id ++ ['\n'] ++ body ++ "\n# docs:end\n".toList

def ifElse : Text := token chipIfOpener ' ' ['a'] ++ ['x'] ++ chipElse ++ ['y'] ++ chipEnd

/-- For each thing that the checker does not look at, a book that is not rendered. -/
def unrendered : List Book :=
  [ -- a block that is not closed; an end, and an else, that stand alone; a block in a block; two elses
    ⟨[], chipsWith [['a']], token chipIfOpener ' ' ['a']⟩,
    ⟨[], chipsWith [['a']], chipEnd⟩,
    ⟨[], chipsWith [['a']], chipElse⟩,
    ⟨[], chipsWith [['a']], token chipIfOpener ' ' ['a'] ++ token chipIfOpener ' ' ['a'] ++ chipEnd ++ chipEnd⟩,
    ⟨[], chipsWith [['a'], ['b']], token chipIfOpener ' ' ['a'] ++ chipElse ++ ['x'] ++ chipElse ++ chipEnd⟩,
    -- a head over two lines, of a chip that is not defined
    ⟨[], chipsWith [['a']], token chipIfOpener '\n' ['z'] ++ chipEnd⟩,
    -- an opener that begins no token
    ⟨[], chipsWith [['a']], snippetOpener⟩,
    ⟨[], chipsWith [['a']], fieldOpener⟩,
    -- a token over two lines, of an unknown snippet, and of an unknown field
    ⟨[], chipsWith [['a']], token snippetOpener '\n' ['z']⟩,
    ⟨[], chipsWith [['a']], token fieldOpener '\n' ['z']⟩,
    -- a snippet that has a variant for a chip that is not selectable
    ⟨snippet ['s', '.', 'b'] ['x'], chipsWith [['a']],
      token snippetOpener ' ' ['s', '.', 'b'] ++ token snippetOpener ' ' ['s']⟩,
    -- a field that the default chip does not have, which is not selectable
    ⟨[], chipsWith [], token fieldOpener ' ' ['z']⟩,
    -- a field in the name of a chip that comes in with a block, and a snippet in such a name
    ⟨[], chipsWith [['a'], token fieldOpener ' ' ['z']], ifElse⟩,
    ⟨[], chipsWith [['a'], token snippetOpener ' ' ['z']], ifElse⟩,
    -- a field in a snippet's body, and in the name of a chip that comes in with a snippet
    ⟨snippet ['s'] (token fieldOpener ' ' ['z']), chipsWith [['a']], token snippetOpener ' ' ['s']⟩,
    ⟨snippet (['s', '.'] ++ token fieldOpener ' ' ['z']) ['x'], chipsWith [token fieldOpener ' ' ['z']],
      token snippetOpener ' ' ['s']⟩ ]

/-- A tutorial tree that passes the check is not always rendered: a book for each condition. -/
theorem not_checked_page_rendered :
    (¬ ∀ (root contracts : Text) (chips : Chips) (tutorials : List Page) (payload apiBase : Text),
      main root contracts chips tutorials = .ok 0 → ∃ snippets, loadSnippets contracts = .ok snippets ∧
        ∀ page ∈ tutorials, Rendered payload apiBase snippets chips page.content) ∧
    ∀ book ∈ unrendered, main [] book.contracts book.chips [⟨[], book.page⟩] = .ok 0 ∧
      ∀ snippets, loadSnippets book.contracts = .ok snippets → ¬ Rendered [] [] snippets book.chips book.page := by
  have hbooks : ∀ book ∈ unrendered, book.checked = true ∧ book.rendered = false := by decide +kernel
  have hnot : ∀ book ∈ unrendered, main [] book.contracts book.chips [⟨[], book.page⟩] = .ok 0 ∧
      ∀ snippets, loadSnippets book.contracts = .ok snippets →
        ¬ Rendered [] [] snippets book.chips book.page := by
    intro book hbook
    obtain ⟨hchecked, hrendered⟩ := hbooks book hbook
    refine ⟨of_decide_eq_true hchecked, fun snippets hload h => ?_⟩
    rw [Book.rendered_of_rendered hload h] at hrendered
    cases hrendered
  refine ⟨fun h => ?_, hnot⟩
  obtain ⟨hchecked, hrendered⟩ := hnot _ List.mem_cons_self
  obtain ⟨snippets, hload, hpages⟩ := h _ _ _ _ [] [] hchecked
  exact hrendered snippets hload (hpages _ List.mem_cons_self)

end HisiRiscv.Docs.Tutorial
