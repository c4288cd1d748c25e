/-
HisiRiscv.Docs.TutorialBlocks — the chip-if blocks of the tutorial pages.

A match of the pattern is a head, a body up to the next end, and another body in between when an
else comes first (`matchChipIf_sound`). On a page whose blocks are closed and not nested the matches
are the blocks, and the pass leaves the parts of the page that are outside their tokens, and the names of
the chips that are shown another body (`assembled_of_blocks`).

  §1 What is matched.
  §2 What the pass keeps.
  §3 Closed blocks.
-/
import HisiRiscv.Docs.TutorialPasses

namespace HisiRiscv.Docs.Tutorial

open PyText Scan Tokens

/-! ## §1 What is matched -/

theorem isOpener_chipIf : IsOpener chipIfOpener := isOpener_of_mem (by simp [openers])

theorem isOpener_chipElse : IsOpener chipElseOpener := isOpener_of_mem (by simp [openers])

theorem isOpener_chipEnd : IsOpener chipEndOpener := isOpener_of_mem (by simp [openers])

section Matches

variable {w : Text} {l r s body : Content} {n : ℕ}

theorem isSome_after : (after Cell.char w l).isSome = true ↔ w <+: text l := by
  rw [after]
  split
  · rename_i h
    exact iff_of_true rfl h
  · rename_i h
    exact iff_of_false (by simp) h

/-- The content goes on with an end. -/
def Ended (l : Content) : Prop := chipEndOpener ++ closer <+: text l

/-- After the first body there is the end, or the other body. -/
def Closes : Option Content → Content → Prop
  | none, l => Ended l
  | some body, l => ∃ token r, l = token ++ (body ++ r) ∧ text token = chipElseOpener ++ closer ∧ Ended r

theorem matchEnd_sound (h : matchEnd l = some body) : ∃ r, l = body ++ r ∧ Ended r := by
  induction l generalizing body with
  | nil => cases h
  | cons c l ih =>
    rw [matchEnd] at h
    split at h
    · rename_i hend
      cases h
      exact ⟨c :: l, rfl, isSome_after.mp hend⟩
    · obtain ⟨body, hbody, rfl⟩ := Option.map_eq_some_iff.mp h
      obtain ⟨r, rfl, hr⟩ := ih hbody
      exact ⟨r, rfl, hr⟩

theorem matchBodies_sound {other : Option Content} (h : matchBodies l = some (body, other)) :
    ∃ r, l = body ++ r ∧ Closes other r := by
  induction l generalizing body with
  | nil => cases h
  | cons c l ih =>
    rw [matchBodies] at h
    split at h
    · rename_i elseBody helse
      cases h
      obtain ⟨rest, hrest, hbody⟩ := Option.bind_eq_some_iff.mp helse
      obtain ⟨token, hl, htoken⟩ := after_eq_some.mp hrest
      obtain ⟨r, rfl, hr⟩ := matchEnd_sound hbody
      exact ⟨c :: l, rfl, token, r, hl, htoken, hr⟩
    · split at h
      · rename_i hend
        cases h
        exact ⟨c :: l, rfl, isSome_after.mp hend⟩
      · obtain ⟨⟨body, other⟩, hbody, heq⟩ := Option.map_eq_some_iff.mp h
        cases heq
        obtain ⟨r, rfl, hr⟩ := ih hbody
        exact ⟨r, rfl, hr⟩

theorem Ended.length_le (h : Ended l) : (chipEndOpener ++ closer).length ≤ l.length := by
  have hle := List.IsPrefix.length_le h
  rwa [text, List.length_map] at hle

theorem Closes.length_le {other : Option Content} (h : Closes other l) :
    (other.map fun body => (chipElseOpener ++ closer).length + body.length).getD 0 +
      (chipEndOpener ++ closer).length ≤ l.length := by
  cases other with
  | none =>
    have hle := Ended.length_le h
    simpa using hle
  | some body =>
    obtain ⟨token, r, rfl, htoken, hr⟩ := h
    have hle := hr.length_le
    have htoken := congrArg List.length htoken
    have hparts : (token ++ (body ++ r)).length = token.length + (body.length + r.length) := by simp
    rw [text, List.length_map] at htoken
    rw [hparts, htoken]
    simp only [Option.map_some, Option.getD_some]
    omega

theorem matchChipIf_sound {x : ChipIf} (h : matchChipIf s = some (n, x)) :
    ∃ head r, s = head ++ (x.thenBody ++ r) ∧ IsToken chipIfOpener (text head) x.chip ∧
      Closes x.elseBody r ∧ 0 < n ∧ n ≤ s.length := by
  simp only [matchChipIf, Option.bind_eq_bind, Option.bind_eq_some_iff, Option.pure_def,
    Option.some.injEq, Prod.mk.injEq, Prod.exists] at h
  obtain ⟨_, chip, hhead, body, other, hbodies, hn, rfl⟩ := h
  obtain ⟨head, r, rfl, htoken, rfl⟩ := matchToken_sound hhead
  rw [List.drop_left] at hbodies
  obtain ⟨r, rfl, hcloses⟩ := matchBodies_sound hbodies
  have hle := hcloses.length_le
  have hpos : 0 < (chipEndOpener ++ closer).length := by decide
  refine ⟨head, r, rfl, htoken, hcloses, ?_, ?_⟩
  · omega
  · have hparts : (head ++ (body ++ r)).length = head.length + (body.length + r.length) := by simp
    omega

theorem advances_matchChipIf : Advances matchChipIf := by
  intro s n x h
  obtain ⟨-, -, -, -, -, hn⟩ := matchChipIf_sound h
  exact hn

theorem apart_of_prefix (hw : ['{'] <+: text l) : Apart l := by
  cases l with
  | nil => simp [text] at hw
  | cons c l => exact apart_brace (List.cons_prefix_cons.mp hw).1.symm

theorem Closes.apart {other : Option Content} (h : Closes other l) : Apart l := by
  refine apart_of_prefix ?_
  cases other with
  | none => exact List.IsPrefix.trans ⟨_, rfl⟩ h
  | some body =>
    obtain ⟨token, r, rfl, htoken, -⟩ := h
    rw [text, List.map_append, ← text, htoken]
    exact ⟨_, rfl⟩

end Matches

/-! ## §2 What the pass keeps -/

section Pass

variable {Q : Content → Prop} {chips : Chips} {x : ChipIf} {l s new out : Content} {n : ℕ}

theorem Compositional.idChars {t : Text} (hQ : Compositional Q) (ht : ∀ c ∈ t, isIdChar c = true) :
    Q (generated t) := by
  refine hQ.plain (fun hmem => ?_) fun hmem => ?_
  · exact absurd (ht _ hmem) (by decide)
  · exact absurd (ht _ hmem) (by decide)

theorem strip_written {t : Text} : strip Cell.char (written t) = written (strip id t) := by
  simp only [strip, written, List.rdropWhile, List.dropWhile_map, ← List.map_reverse, Function.comp_def, id]

theorem Compositional.replaceChipIf {chip body : Text} {other : Option Text} (hQ : Compositional Q)
    (hchip : ∀ c ∈ chip, isIdChar c = true) (hbody : Q (written body))
    (hother : ∀ part ∈ elseParts chips chip (other.getD []), Q (written part))
    (hnames : ∀ name ∈ elseNames chips chip (other.getD []), Q (generated name))
    (h : replaceChipIf chips ⟨chip, written body, other.map written⟩ = .ok new) : Q new ∧ Sealed new := by
  have hgetD : (other.map written).getD [] = written (other.getD []) := Option.getD_map written [] other
  rw [Tutorial.replaceChipIf] at h
  split at h
  · obtain rfl := Except.ok.inj h
    have hblock := hQ.chipBlock (hQ.idChars hchip) (hQ.strip hbody)
    simp only [hgetD, strip_written]
    refine hQ.join ?_ ?_
    · split_ifs <;> simp
    · intro part hpart
      split_ifs at hpart with helse hdefault
      · have hnames' : elseNames chips chip (other.getD []) = chips.selectable.filter (· ≠ chip) := by
          refine if_neg fun hnil => helse ?_
          rw [hnil]
          rfl
        rw [List.mem_cons, List.mem_map] at hpart
        obtain rfl | ⟨name, hname, rfl⟩ := hpart
        · rwa [strip_written] at hblock
        · rw [← hnames'] at hname
          have hparts : elseParts chips chip (other.getD []) = [other.getD []] :=
            if_neg (List.ne_nil_of_mem hname)
          have hleft := hQ.strip (hother _ (hparts ▸ List.mem_cons_self))
          rw [strip_written] at hleft
          exact hQ.chipBlock (hnames name hname) hleft
      · rw [List.mem_singleton.mp hpart, ← strip_written]
        exact ⟨hQ.hide hblock.1, hblock.2.hide⟩
      · rwa [List.mem_singleton.mp hpart, ← strip_written]
  · cases h

end Pass

/-! ## §3 Closed blocks -/

/-- The text begins as a token does, and has no more braces. -/
def Braced (w : Text) : Prop := ∃ name : Text, w = '{' :: '{' :: '#' :: name ∧ '{' ∉ name

theorem IsOpener.braced {w : Text} (hw : IsOpener w) : Braced w := by
  obtain ⟨name, rfl, hname⟩ := hw
  exact ⟨name, rfl, fun hmem => absurd (List.all_eq_true.mp hname _ hmem) (by decide)⟩

/-- Such a text ends before the braces of the next one. -/
theorem Braced.prefix_of_braces {w s r : Text} (hw : Braced w) (hs : s ≠ [])
    (h : w <+: s ++ '{' :: '{' :: r) : w <+: s := by
  obtain ⟨name, rfl, hname⟩ := hw
  obtain ⟨a, s, rfl⟩ := List.exists_cons_of_ne_nil hs
  rw [List.cons_append, List.cons_prefix_cons] at h
  obtain ⟨rfl, h⟩ := h
  cases s with
  | nil =>
    rw [List.nil_append, List.cons_prefix_cons, List.cons_prefix_cons] at h
    exact absurd h.2.1 (by decide)
  | cons b s =>
    rw [List.cons_append, List.cons_prefix_cons] at h
    obtain ⟨rfl, h⟩ := h
    refine List.cons_prefix_cons.mpr ⟨rfl, List.cons_prefix_cons.mpr ⟨rfl, prefix_before h ?_⟩⟩
    rw [List.mem_cons, not_or]
    exact ⟨by decide, hname⟩

section Blocks

variable {chips : Chips} {x : ChipIf} {w t chip : Text} {parts names : List Text}
  {body l r head new out rest : Content}
  {other : Option Content}

/-- The content begins with the braces of an opener. -/
def Opens (l : Content) : Prop := ['{', '{'] <+: text l

theorem Ended.opens (h : Ended l) : Opens l := List.IsPrefix.trans ⟨_, rfl⟩ h

theorem not_prefix_append (hw : Braced w) (hl : ¬ w <:+: text l) (hne : l ≠ []) (hr : r = [] ∨ Opens r) :
    ¬ w <+: text (l ++ r) := by
  intro h
  rw [text, List.map_append, ← text, ← text] at h
  obtain rfl | ⟨r', hr'⟩ := hr
  · have hnil : text [] = [] := rfl
    rw [hnil, List.append_nil] at h
    exact hl h.isInfix
  · rw [← hr'] at h
    exact hl (hw.prefix_of_braces (by simpa [text] using hne) h).isInfix

theorem after_eq_none (h : ¬ w <+: text l) : after Cell.char w l = none := if_neg h

theorem matchEnd_append (hbody : ¬ chipEndOpener ++ closer <:+: text body) (hr : Ended r) :
    matchEnd (body ++ r) = some body := by
  induction body with
  | nil =>
    cases r with
    | nil => exact absurd hr.length_le (by decide)
    | cons c r => exact if_pos (isSome_after.mpr hr)
  | cons c body ih =>
    have hbraced : Braced (chipEndOpener ++ closer) := ⟨_, rfl, by decide⟩
    have hnone := after_eq_none (not_prefix_append hbraced hbody (List.cons_ne_nil c body) (.inr hr.opens))
    rw [List.cons_append] at hnone ⊢
    rw [matchEnd, hnone, ih fun h => hbody (h.trans (List.suffix_cons _ _).isInfix)]
    rfl

theorem matchBodies_append (hend : ¬ chipEndOpener <:+: text body) (helse : ¬ chipElseOpener <:+: text body)
    (hr : Opens r) (h : matchBodies r = some ([], other)) :
    matchBodies (body ++ r) = some (body, other) := by
  induction body with
  | nil => exact h
  | cons c body ih =>
    have hnotEnd := not_prefix_append isOpener_chipEnd.braced hend (List.cons_ne_nil c body) (.inr hr)
    have hnotElse := not_prefix_append isOpener_chipElse.braced helse (List.cons_ne_nil c body) (.inr hr)
    have hnone := after_eq_none fun h => hnotEnd ((List.prefix_append _ closer).trans h)
    have hnone' := after_eq_none fun h => hnotElse ((List.prefix_append _ closer).trans h)
    have hin {w : Text} (h : w <:+: text body) : w <:+: text (c :: body) :=
      h.trans (List.suffix_cons _ _).isInfix
    rw [List.cons_append] at hnone hnone' ⊢
    rw [matchBodies, hnone, hnone', ih (fun h => hend (hin h)) fun h => helse (hin h)]
    rfl

theorem matchBodies_end (hr : Ended r) : matchBodies r = some ([], none) := by
  cases r with
  | nil => exact absurd hr.length_le (by decide)
  | cons c r =>
    have helse : after Cell.char (chipElseOpener ++ closer) (c :: r) = none := by
      refine after_eq_none fun h => ?_
      obtain h | h := List.prefix_or_prefix_of_prefix h hr
      · exact absurd h (by decide)
      · exact absurd h (by decide)
    rw [matchBodies, helse, isSome_after.mpr hr]
    rfl

theorem matchBodies_else {token : Content} (htoken : text token = chipElseOpener ++ closer)
    (hbody : ¬ chipEndOpener ++ closer <:+: text body) (hr : Ended r) :
    matchBodies (token ++ (body ++ r)) = some ([], some body) := by
  have helse : after Cell.char (chipElseOpener ++ closer) (token ++ (body ++ r)) = some (body ++ r) :=
    after_eq_some.mpr ⟨token, rfl, htoken⟩
  cases token with
  | nil => cases htoken
  | cons c token =>
    rw [List.cons_append] at helse ⊢
    rw [matchBodies, helse, Option.bind_some, matchEnd_append hbody hr]

theorem text_written : text (written t) = t := by
  simp [text, written, Function.comp_def]

theorem silent_of_plain (ht : ¬ chipIfOpener <:+: t) (hr : r = [] ∨ Opens r) :
    Silent matchChipIf (written t) r := by
  intro s hne hs
  have hst : ¬ chipIfOpener <:+: text s := fun h =>
    ht (text_written (t := t) ▸ h.trans (hs.map Cell.char).isInfix)
  have hnot := not_prefix_append isOpener_chipIf.braced hst hne hr
  by_contra hsome
  obtain ⟨⟨n, x⟩, hsome⟩ := Option.ne_none_iff_exists'.mp hsome
  obtain ⟨head, r', heq, htoken, -⟩ := matchChipIf_sound hsome
  refine hnot (htoken.opener_prefix.trans ?_)
  rw [heq, text, text, List.map_append]
  exact List.prefix_append _ _

/-- A block is replaced, and the pass goes on behind it. -/
theorem renderChipIfs_block (ht : ¬ chipIfOpener <:+: t) (hhead : IsToken chipIfOpener (text head) chip)
    (hbodies : matchBodies (l ++ rest) = some (body, other))
    (hlength : l.length = body.length + (other.map fun body =>
      (chipElseOpener ++ closer).length + body.length).getD 0 + (chipEndOpener ++ closer).length)
    (hnew : replaceChipIf chips ⟨chip, body, other⟩ = .ok new) (hrest : renderChipIfs chips rest = .ok out) :
    renderChipIfs chips (written t ++ (head ++ (l ++ rest))) = .ok (written t ++ (new ++ out)) := by
  have hmatch : matchChipIf (head ++ (l ++ rest)) = some ((head ++ l).length, ⟨chip, body, other⟩) := by
    simp only [matchChipIf, matchToken_append hhead, List.drop_left, hbodies, Option.bind_eq_bind,
      Option.bind_some, Option.pure_def, Option.some.injEq, Prod.mk.injEq, and_true, List.length_append]
    rw [hlength, List.length_append, List.length_append]
    omega
  refine (sub_append_match_eq_ok advances_matchChipIf (silent_of_plain ht (.inr ?_)) hmatch).mpr
    ⟨new, out, hnew, ?_, rfl⟩
  · obtain ⟨tail, heq, -⟩ := hhead.eq_cons isOpener_chipIf
    rw [Opens, text, List.map_append, ← text, heq]
    exact ⟨_, rfl⟩
  · rw [← List.append_assoc, List.drop_left]
    exact hrest

theorem free_written (h : ¬ w <:+: t) : Free w (written t) := by
  rintro v hv rfl
  have hv := hv.map Cell.char
  rw [← text, ← text, text_written, text_written] at hv
  exact h hv

theorem exists_replaceChipIf (h : x.chip ∈ keys chips.chips) : ∃ new, replaceChipIf chips x = .ok new :=
  ⟨_, if_pos (List.contains_iff_mem.mpr h)⟩

theorem written_append {t t' : Text} : written (t ++ t') = written t ++ written t' := List.map_append

theorem length_written : (written t).length = t.length := List.length_map _

/-- The parts of a chip-if block. -/
def blockOpeners : List Text := [chipIfOpener, chipElseOpener, chipEndOpener]

theorem isOpener_of_mem_block (hw : w ∈ blockOpeners) : IsOpener w := by
  simp only [blockOpeners, List.mem_cons, List.not_mem_nil, or_false] at hw
  obtain rfl | rfl | rfl := hw
  · exact isOpener_chipIf
  · exact isOpener_chipElse
  · exact isOpener_chipEnd

/-- The content has what the parts and the names have. -/
def Assembled (parts names : List Text) (out : Content) : Prop :=
  ∀ Q : Content → Prop, Compositional Q → (∀ part ∈ parts, Q (written part)) →
    (∀ name ∈ names, Q (generated name)) → Q out

/-- A block that is matched, in front of others. -/
theorem assembled_block {head body l rest : Text} (other : Option Text) (ht : ¬ chipIfOpener <:+: t)
    (hhead : IsToken chipIfOpener head chip) (hchip : chip ∈ keys chips.chips)
    (hbodies : matchBodies (written l ++ written rest) = some (written body, other.map written))
    (hlength : l.length = body.length + (other.map fun body =>
      (chipElseOpener ++ closer).length + body.length).getD 0 + (chipEndOpener ++ closer).length)
    (hout : renderChipIfs chips (written rest) = .ok out) (hrest : Assembled parts names out) :
    ∃ out, renderChipIfs chips (written (t ++ (head ++ (l ++ rest)))) = .ok out ∧
      Assembled (t :: body :: (elseParts chips chip (other.getD []) ++ parts))
        (elseNames chips chip (other.getD []) ++ names) out := by
  obtain ⟨new, hnew⟩ := exists_replaceChipIf (x := ⟨chip, written body, other.map written⟩) hchip
  refine ⟨written t ++ (new ++ out), ?_, fun Q hQ hparts hnames => ?_⟩
  · rw [written_append, written_append, written_append]
    have hhead : IsToken chipIfOpener (text (written head)) chip := by rwa [text_written]
    refine renderChipIfs_block ht hhead hbodies ?_ hnew hout
    rw [length_written, length_written, hlength, Option.map_map]
    simp only [Function.comp_def, length_written]
  · simp only [List.forall_mem_cons, List.forall_mem_append] at hparts hnames
    obtain ⟨ht, hbody, hother, hparts⟩ := hparts
    obtain ⟨hnew, hbegins, hends⟩ := hQ.replaceChipIf hhead.isIdChar hbody hother hnames.1 hnew
    exact hQ.append (.inr hbegins.append) ht (hQ.append (.inl hends) hnew (hrest Q hQ hparts hnames.2))

theorem Plain.absent (ht : Plain t) (hw : w ∈ blockOpeners) : ¬ w <:+: text (written t) := by
  rw [text_written]
  exact ht w hw

theorem ended_written {rest : Text} : Ended (written (chipEndOpener ++ closer) ++ written rest) := by
  rw [Ended, ← written_append, text_written]
  exact List.prefix_append _ _

/-- The pass over the blocks of a page. -/
theorem assembled_of_blocks (hblocks : Blocks chips t parts names)
    (hchips : ∀ head chip, head <:+: t → IsToken chipIfOpener head chip → ¬ Broken head →
      chip ∈ keys chips.chips) :
    ∃ out, renderChipIfs chips (written t) = .ok out ∧ Assembled parts names out := by
  have hknown {t head r chip : Text} (hchips : ∀ v chip, v <:+: t ++ (head ++ r) → IsToken chipIfOpener v chip →
      ¬ Broken v → chip ∈ keys chips.chips) (hhead : IsToken chipIfOpener head chip)
      (hchip : Broken head → chip ∈ keys chips.chips) : chip ∈ keys chips.chips := by
    by_cases hbroken : Broken head
    · exact hchip hbroken
    · refine hchips head chip ?_ hhead hbroken
      exact (List.prefix_append head r).isInfix.trans (List.suffix_append t _).isInfix
  induction hblocks with
  | plain ht =>
    have hsilent := silent_of_plain (ht chipIfOpener (by simp)) (.inl rfl)
    exact ⟨_, sub_of_silent hsilent, fun Q _ hparts _ => hparts _ List.mem_cons_self⟩
  | @block t head chip body rest parts names ht hhead hchip hbody _ ih =>
    have hbodies : matchBodies (written (body ++ (chipEndOpener ++ closer)) ++ written rest) =
        some (written body, none) := by
      rw [written_append, List.append_assoc]
      exact matchBodies_append (hbody.absent (by simp [blockOpeners]))
        (hbody.absent (by simp [blockOpeners])) ended_written.opens (matchBodies_end ended_written)
    have hchip := hknown hchips hhead hchip
    rw [← List.append_assoc body] at hchips ⊢
    obtain ⟨out, hout, hrest⟩ := ih fun v chip hv => hchips v chip (hv.trans (List.IsSuffix.isInfix
      (((List.suffix_append _ rest).trans (List.suffix_append head _)).trans (List.suffix_append t _))))
    refine assembled_block none (ht _ (by simp)) hhead hchip hbodies ?_ hout hrest
    simp
  | @blockElse t head chip body other rest parts names ht hhead hchip hbody hend _ _ ih =>
    have hbodies : matchBodies (written (body ++ (chipElseOpener ++ closer ++
        (other ++ (chipEndOpener ++ closer)))) ++ written rest) = some (written body, some (written other)) := by
      have hparts : written (body ++ (chipElseOpener ++ closer ++ (other ++ (chipEndOpener ++ closer)))) ++
          written rest = written body ++ (written (chipElseOpener ++ closer) ++
            (written other ++ (written (chipEndOpener ++ closer) ++ written rest))) := by
        simp only [written_append, List.append_assoc]
      rw [hparts]
      refine matchBodies_append (hbody.absent (by simp [blockOpeners]))
        (hbody.absent (by simp [blockOpeners])) ?_
        (matchBodies_else text_written (by rwa [text_written]) ended_written)
      rw [Opens, text, List.map_append, ← text, text_written]
      exact ⟨_, rfl⟩
    have hchip := hknown hchips hhead hchip
    rw [← List.append_assoc other, ← List.append_assoc (chipElseOpener ++ closer),
      ← List.append_assoc body] at hchips ⊢
    obtain ⟨out, hout, hrest⟩ := ih fun v chip hv => hchips v chip (hv.trans (List.IsSuffix.isInfix
      (((List.suffix_append _ rest).trans (List.suffix_append head _)).trans (List.suffix_append t _))))
    refine assembled_block (some other) (ht _ (by simp)) hhead hchip hbodies ?_ hout hrest
    simp
    omega

/-- The parts are texts of the page, and no part of a block is in them. -/
theorem Blocks.parts_spec (h : Blocks chips t parts names) :
    ∀ part ∈ parts, part <:+: t ∧ Plain part := by
  induction h with
  | plain ht => simpa using ht
  | @block t head chip body rest parts names ht _ _ hbody _ ih =>
    simp only [List.forall_mem_cons]
    refine ⟨⟨(List.prefix_append t _).isInfix, ht⟩, ⟨?_, hbody⟩, fun part hpart => ⟨?_, (ih part hpart).2⟩⟩
    · exact (List.prefix_append body _).isInfix.trans
        ((List.suffix_append head _).trans (List.suffix_append t _)).isInfix
    · refine (ih part hpart).1.trans (List.IsSuffix.isInfix ?_)
      exact (((List.suffix_append _ rest).trans (List.suffix_append body _)).trans
        (List.suffix_append head _)).trans (List.suffix_append t _)
  | @blockElse t head chip body other rest parts names ht _ _ hbody _ hother _ ih =>
    have hbehind : body ++ (chipElseOpener ++ closer ++ (other ++ (chipEndOpener ++ closer ++ rest))) <:+
        t ++ (head ++ (body ++ (chipElseOpener ++ closer ++ (other ++ (chipEndOpener ++ closer ++ rest))))) :=
      (List.suffix_append head _).trans (List.suffix_append t _)
    have hbehindElse := ((List.suffix_append (chipElseOpener ++ closer) _).trans
      (List.suffix_append body _)).trans hbehind
    simp only [List.forall_mem_cons, List.forall_mem_append]
    refine ⟨⟨(List.prefix_append t _).isInfix, ht⟩, ⟨(List.prefix_append body _).isInfix.trans hbehind.isInfix,
      hbody⟩, fun part hpart => ⟨?_, hother part hpart⟩, fun part hpart => ⟨?_, (ih part hpart).2⟩⟩
    · rw [elseParts] at hpart
      split_ifs at hpart
      · cases hpart
      · rw [List.mem_singleton.mp hpart]
        exact (List.prefix_append other _).isInfix.trans hbehindElse.isInfix
    · exact (ih part hpart).1.trans (((List.suffix_append _ rest).trans
        (List.suffix_append other _)).trans hbehindElse).isInfix

end Blocks

end HisiRiscv.Docs.Tutorial
