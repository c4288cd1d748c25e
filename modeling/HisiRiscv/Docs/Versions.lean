/-
HisiRiscv.Docs.Versions — `generate-doc-versions.py`: the list of the documented versions.

The tags of the repository that are versions are sorted by `semver_key`, the highest first, and
`latest` is the first stable one, or the first of all. The key compares prereleases as
texts. So the list is in the order of precedence unless two prereleases of one version stand the
other way round as texts (`manifest_inPrecedenceOrder_iff`); releases are always in their place.

Translation notes. The lines of `git tag` have been stripped, so the `$` of the pattern stands for
the end of the text. A run of decimal digits is a number; the limit that Python sets for the
number of digits is left out. Writing the manifest as JSON is left out.

  §1 Tags.
  §2 The manifest.
  §3 The order of precedence.
  §4 The keys.
  §5 The list.
  §6 The latest version.
-/
import HisiRiscv.Lib.PyNumber
import HisiRiscv.Lib.SemVer
import Mathlib.Data.List.Pairwise

namespace HisiRiscv.Docs.Versions

open PyText SemVer

/-! ## §1 Tags -/

def isDecimal (c : Char) : Bool := (PyNumber.decimal c).isSome

/-- `(\d+)`, and what follows. -/
def digitRun (text : Text) : Option (Text × Text) :=
  if text.takeWhile isDecimal = [] then none
  else some (text.takeWhile isDecimal, text.dropWhile isDecimal)

/-- `[0-9A-Za-z.-]`. -/
def isPreChar (c : Char) : Bool := c.isAlphanum || c == '.' || c == '-'

/-- `(?:-([0-9A-Za-z.-]+))?$`. -/
def preGroup : Text → Option (Option Text)
  | [] => some none
  | '-' :: pre => if pre ≠ [] ∧ pre.all isPreChar then some (some pre) else none
  | _ => none

structure Version where
  major : ℕ
  minor : ℕ
  patch : ℕ
  pre : Option Text
  deriving DecidableEq

def int (digits : Text) : ℕ := (PyNumber.numeral 10 digits).getD 0

/-- The groups of `VERSION_RE.match`, as `semver_key` reads them. -/
def parseVersion (text : Text) : Option Version := do
  let text ← afterChar 'v' text
  let (major, text) ← digitRun text
  let text ← afterChar '.' text
  let (minor, text) ← digitRun text
  let text ← afterChar '.' text
  let (patch, text) ← digitRun text
  let pre ← preGroup text
  some { major := int major, minor := int minor, patch := int patch, pre }

/-- A tag that matches. -/
structure Tag where
  text : Text
  version : Version
  parsed : parseVersion text = some version

def toTag (line : Text) : Option Tag :=
  match h : parseVersion (strip id line) with
  | none => none
  | some version => some { text := strip id line, version, parsed := h }

/-- `git_tags`: the tags of what `git tag --list` prints. -/
def gitTags (stdout : Text) : List Tag := (splitlines (universalNewlines stdout)).filterMap toTag

/-! ## §2 The manifest -/

abbrev Key : Type := ℕ ×ₗ ℕ ×ₗ ℕ ×ₗ ℕ ×ₗ Text

def semverKey (tag : Tag) : Key :=
  let version := tag.version
  let stableRank := if version.pre = none then 1 else 0
  toLex (version.major, toLex (version.minor, toLex (version.patch,
    toLex (stableRank, version.pre.getD []))))

structure Entry where
  id : Text
  label : Text
  kind : Text
  target : Option Text
  bookBase : Text
  apiBase : Text

structure Manifest where
  default : Text
  latest : Text
  versions : List Entry

def releaseEntry (version projectBase : Text) : Entry :=
  { id := version
    label := version
    kind := "release".toList
    target := none
    bookBase := projectBase ++ '/' :: version ++ ['/']
    apiBase := projectBase ++ "/api/".toList ++ version ++ ['/'] }

/-- `sorted(git_tags(), key=semver_key, reverse=True)`. -/
def sortedTags (stdout : Text) : List Tag :=
  (gitTags stdout).mergeSort fun a b => decide (semverKey b ≤ semverKey a)

def stableTags (tags : List Tag) : List Tag := tags.filter fun tag => '-' ∉ tag.text

def latest (tags : List Tag) : Text :=
  match stableTags tags, tags with
  | tag :: _, _ => tag.text
  | [], tag :: _ => tag.text
  | [], [] => "main".toList

/-- `main`. -/
def manifest (stdout base : Text) (includeMain : Bool) : Manifest :=
  let projectBase := (base.reverse.dropWhile (· = '/')).reverse
  let tags := sortedTags stdout
  let latest := latest tags
  { default := "latest".toList
    latest
    versions :=
      { id := "latest".toList
        label := "Latest".toList
        kind := "alias".toList
        target := some latest
        bookBase := projectBase ++ "/latest/".toList
        apiBase := projectBase ++ "/api/latest/".toList } ::
      (if includeMain then
        [{ id := "main".toList
           label := "main".toList
           kind := "branch".toList
           target := none
           bookBase := projectBase ++ "/main/".toList
           apiBase := projectBase ++ "/api/main/".toList }]
      else []) ++
      tags.map fun tag => releaseEntry tag.text projectBase }

/-- The releases of a manifest, in its order. -/
def Manifest.releases (m : Manifest) : List Text :=
  (m.versions.filter fun entry => entry.kind = "release".toList).map Entry.id

/-! ## §3 The order of precedence -/

def Tag.precedence (tag : Tag) : Precedence :=
  SemVer.precedence tag.version.major tag.version.minor tag.version.patch tag.version.pre

/-- The releases of the manifest are the tags, the highest first. -/
def ListedInOrder (tags : List Tag) (m : Manifest) : Prop :=
  ∃ listed : List Tag, listed.Perm tags ∧ m.releases = listed.map Tag.text ∧
    listed.Pairwise fun a b => b.precedence ≤ a.precedence

/-- The text is that of a tag of the kind which no other one of the kind is above. -/
def IsHighest (tags : List Tag) (kind : Tag → Prop) (text : Text) : Prop :=
  ∃ tag ∈ tags, kind tag ∧ tag.text = text ∧
    ∀ other ∈ tags, kind other → other.precedence ≤ tag.precedence

def Stable (tag : Tag) : Prop := tag.version.pre = none

/-- The highest stable tag, else the highest tag, else `main`. -/
def LatestIsHighest (tags : List Tag) (m : Manifest) : Prop :=
  ((∃ tag ∈ tags, Stable tag) → IsHighest tags Stable m.latest) ∧
  ((∀ tag ∈ tags, ¬ Stable tag) → tags ≠ [] → IsHighest tags (fun tag => ¬ Stable tag) m.latest) ∧
  (tags = [] → m.latest = "main".toList)

/-! ## §4 The keys -/

section Keys

variable {a b : Tag}

theorem semverKey_lt_iff : semverKey a < semverKey b ↔
    a.version.major < b.version.major ∨ a.version.major = b.version.major ∧
      (a.version.minor < b.version.minor ∨ a.version.minor = b.version.minor ∧
        (a.version.patch < b.version.patch ∨ a.version.patch = b.version.patch ∧
          ((if a.version.pre = none then 1 else 0) < (if b.version.pre = none then 1 else 0) ∨
            (if a.version.pre = none then 1 else 0) = (if b.version.pre = none then 1 else 0) ∧
              a.version.pre.getD [] < b.version.pre.getD []))) := by
  simp only [semverKey, Prod.Lex.toLex_lt_toLex]

/-- The numbers of two versions are the same. -/
def SameCore (a b : Version) : Prop :=
  a.major = b.major ∧ a.minor = b.minor ∧ a.patch = b.patch

/-- Two prereleases of one version, in the order of precedence, are in their order as texts. -/
def TextOrder (a b : Version) : Prop :=
  SameCore a b → ∀ x y, a.pre = some x → b.pre = some y → identifiers x < identifiers y → x < y

theorem prerelease_lt_iff {pre pre' : Option Text} : prerelease pre < prerelease pre' ↔
    ∃ x, pre = some x ∧ ∀ y, pre' = some y → identifiers x < identifiers y := by
  cases pre with
  | none => simp [prerelease]
  | some x =>
    cases pre' with
    | none => simp [prerelease]
    | some y => simp [prerelease]

/-- The first numbers that differ decide in both orders. -/
theorem semverKey_lt_of_core (hcore : ¬ SameCore a.version b.version)
    (below : a.precedence < b.precedence) : semverKey a < semverKey b := by
  rw [Tag.precedence, Tag.precedence, precedence_lt_iff] at below
  rw [semverKey_lt_iff]
  obtain hmajor | ⟨hmajor, hminor | ⟨hminor, hpatch | ⟨hpatch, -⟩⟩⟩ := below
  · exact .inl hmajor
  · exact .inr ⟨hmajor, .inl hminor⟩
  · exact .inr ⟨hmajor, .inr ⟨hminor, .inl hpatch⟩⟩
  · exact absurd ⟨hmajor, hminor, hpatch⟩ hcore

theorem precedence_lt_iff_of_core (hcore : SameCore a.version b.version) :
    a.precedence < b.precedence ↔ prerelease a.version.pre < prerelease b.version.pre := by
  obtain ⟨hmajor, hminor, hpatch⟩ := hcore
  rw [Tag.precedence, Tag.precedence, precedence_lt_iff]
  simp only [hmajor, hminor, hpatch, lt_self_iff_false, true_and, false_or]

theorem semverKey_lt_iff_of_core (hcore : SameCore a.version b.version) :
    semverKey a < semverKey b ↔
      (if a.version.pre = none then 1 else 0) < (if b.version.pre = none then 1 else 0) ∨
        (if a.version.pre = none then 1 else 0) = (if b.version.pre = none then 1 else 0) ∧
          a.version.pre.getD [] < b.version.pre.getD [] := by
  obtain ⟨hmajor, hminor, hpatch⟩ := hcore
  rw [semverKey_lt_iff]
  simp only [hmajor, hminor, hpatch, lt_self_iff_false, true_and, false_or]

theorem semverKey_lt_of_precedence_lt (below : a.precedence < b.precedence) :
    semverKey a < semverKey b ↔ TextOrder a.version b.version := by
  by_cases hcore : SameCore a.version b.version
  · rw [precedence_lt_iff_of_core hcore, prerelease_lt_iff] at below
    obtain ⟨x, hx, below⟩ := below
    rw [semverKey_lt_iff_of_core hcore, hx]
    cases hy : b.version.pre with
    | none =>
      refine iff_of_true (.inl (by simp)) ?_
      rintro - x y - hy'
      rw [hy] at hy'
      cases hy'
    | some y =>
      simp only [reduceCtorEq, if_false, lt_self_iff_false, true_and, false_or, Option.getD_some]
      constructor
      · rintro hxy - x' y' hx' hy' -
        rw [hx] at hx'
        rw [hy] at hy'
        cases hx'
        cases hy'
        exact hxy
      · intro order
        exact order hcore x y hx hy (below y hy)
  · exact iff_of_true (semverKey_lt_of_core hcore below) fun h => absurd h hcore

theorem precedence_eq_of_semverKey_eq (h : semverKey a = semverKey b) :
    a.precedence = b.precedence := by
  simp only [semverKey, toLex_inj, Prod.mk.injEq] at h
  obtain ⟨hmajor, hminor, hpatch, hrank, htext⟩ := h
  have hpre : a.version.pre = b.version.pre := by
    cases ha : a.version.pre with
    | none =>
      cases hb : b.version.pre with
      | none => rfl
      | some y => simp [ha, hb] at hrank
    | some x =>
      cases hb : b.version.pre with
      | none => simp [ha, hb] at hrank
      | some y =>
        rw [ha, hb, Option.getD_some, Option.getD_some] at htext
        rw [htext]
  rw [Tag.precedence, Tag.precedence, hmajor, hminor, hpatch, hpre]

/-- Where no pair stands the other way round, the keys have the order of precedence. -/
theorem precedence_le_of_semverKey_le (order : TextOrder a.version b.version)
    (h : semverKey b ≤ semverKey a) : b.precedence ≤ a.precedence := by
  by_contra hlt
  exact absurd ((semverKey_lt_of_precedence_lt (not_le.mp hlt)).mpr order) (not_lt.mpr h)

end Keys

/-! ## §5 The list -/

section List

variable {stdout : Text}

theorem sortedTags_pairwise : (sortedTags stdout).Pairwise fun a b => semverKey b ≤ semverKey a := by
  have htrans : ∀ a b c : Tag, decide (semverKey b ≤ semverKey a) = true →
      decide (semverKey c ≤ semverKey b) = true → decide (semverKey c ≤ semverKey a) = true := by
    simp only [decide_eq_true_eq]
    exact fun _ _ _ hba hcb => le_trans hcb hba
  have htotal : ∀ a b : Tag,
      (decide (semverKey b ≤ semverKey a) || decide (semverKey a ≤ semverKey b)) = true := by
    simp only [Bool.or_eq_true, decide_eq_true_eq]
    exact fun a b => le_total (semverKey b) (semverKey a)
  exact (List.pairwise_mergeSort htrans htotal _).imp of_decide_eq_true

theorem sortedTags_perm : (sortedTags stdout).Perm (gitTags stdout) := List.mergeSort_perm _ _

theorem manifest_releases (base : Text) (includeMain : Bool) :
    (manifest stdout base includeMain).releases = (sortedTags stdout).map Tag.text := by
  have hrelease : ∀ (tags : List Tag) (projectBase : Text),
      ((tags.map fun tag => releaseEntry tag.text projectBase).filter fun entry =>
        entry.kind = "release".toList).map Entry.id = tags.map Tag.text := by
    intro tags projectBase
    induction tags with
    | nil => rfl
    | cons tag tags ih =>
      rw [List.map_cons, List.filter_cons_of_pos (by rfl), List.map_cons, ih]
      rfl
  unfold Manifest.releases manifest
  cases includeMain with
  | true => exact hrelease _ _
  | false => exact hrelease _ _

theorem text_injective {a b : Tag} (h : a.text = b.text) : a = b := by
  obtain ⟨text, version, parsed⟩ := a
  obtain ⟨text', version', parsed'⟩ := b
  cases h
  cases Option.some.inj (parsed.symm.trans parsed')
  rfl

/-- Of two tags in a sorted list one stands before the other. -/
theorem textOrder_of_pairwise {tags : List Tag} {a b : Tag}
    (keys : tags.Pairwise fun a b => semverKey b ≤ semverKey a)
    (order : tags.Pairwise fun a b => b.precedence ≤ a.precedence) (ha : a ∈ tags) (hb : b ∈ tags)
    (below : a.precedence < b.precedence) : semverKey a < semverKey b := by
  let R : Tag → Tag → Prop := fun a b => semverKey b ≤ semverKey a ∧ b.precedence ≤ a.precedence
  have both : tags.Pairwise fun a b => R a b ∨ R b a := (keys.and order).imp Or.inl
  have symm : Std.Symm fun a b => R a b ∨ R b a := ⟨fun _ _ => Or.symm⟩
  have hne : a ≠ b := fun h => absurd below (h ▸ lt_irrefl _)
  rcases both.forall ha hb hne with ⟨-, h⟩ | ⟨h, -⟩
  · exact absurd below (not_lt.mpr h)
  · exact lt_of_le_of_ne h fun heq => below.ne (precedence_eq_of_semverKey_eq heq)

theorem listedInOrder_iff (base : Text) (includeMain : Bool) :
    ListedInOrder (gitTags stdout) (manifest stdout base includeMain) ↔
      ∀ a ∈ gitTags stdout, ∀ b ∈ gitTags stdout, TextOrder a.version b.version := by
  have hmem : ∀ {tag}, tag ∈ sortedTags stdout ↔ tag ∈ gitTags stdout := sortedTags_perm.mem_iff
  constructor
  · rintro ⟨listed, -, hreleases, order⟩ a ha b hb
    rw [manifest_releases] at hreleases
    obtain rfl : sortedTags stdout = listed :=
      List.map_injective_iff.mpr (fun _ _ => text_injective) hreleases
    by_cases below : a.precedence < b.precedence
    · exact (semverKey_lt_of_precedence_lt below).mp
        (textOrder_of_pairwise sortedTags_pairwise order (hmem.mpr ha) (hmem.mpr hb) below)
    · intro hcore x y hx hy hxy
      refine absurd ((precedence_lt_iff_of_core hcore).mpr (prerelease_lt_iff.mpr ⟨x, hx, ?_⟩)) below
      intro y' hy'
      rw [hy] at hy'
      cases hy'
      exact hxy
  · intro order
    refine ⟨sortedTags stdout, sortedTags_perm, manifest_releases base includeMain, ?_⟩
    refine sortedTags_pairwise.imp_of_mem ?_
    intro a b ha hb
    exact precedence_le_of_semverKey_le (order a (hmem.mp ha) b (hmem.mp hb))

end List

/-! ## §6 The latest version -/

section Dash

theorem dash_mem_of_digitRun {text run rest : Text} (h : digitRun text = some (run, rest)) :
    '-' ∈ text ↔ '-' ∈ rest := by
  rw [digitRun] at h
  split at h
  · cases h
  · cases h
    have hrun : '-' ∉ text.takeWhile isDecimal := fun hmem =>
      absurd (List.all_eq_true.mp List.all_takeWhile '-' hmem) (by decide)
    nth_rewrite 1 [← List.takeWhile_append_dropWhile (p := isDecimal) (l := text)]
    rw [List.mem_append]
    exact or_iff_right hrun

theorem dash_mem_of_afterChar {c : Char} {text rest : Text} (hc : '-' ≠ c)
    (h : afterChar c text = some rest) : '-' ∈ text ↔ '-' ∈ rest := by
  cases text with
  | nil => cases h
  | cons d text =>
    rw [afterChar] at h
    split at h
    · rename_i hd
      cases h
      rw [hd, List.mem_cons]
      exact or_iff_right hc
    · cases h

theorem dash_mem_of_preGroup {text : Text} {pre : Option Text} (h : preGroup text = some pre) :
    '-' ∈ text ↔ pre ≠ none := by
  rw [preGroup.eq_def] at h
  split at h
  · cases h
    exact iff_of_false (List.not_mem_nil) (not_not.mpr rfl)
  · split at h
    · cases h
      exact iff_of_true List.mem_cons_self (Option.some_ne_none _)
    · cases h
  · cases h

/-- A tag is that of a prerelease if and only if there is a hyphen in it. -/
theorem stable_iff (tag : Tag) : Stable tag ↔ '-' ∉ tag.text := by
  obtain ⟨text, version, parsed⟩ := tag
  simp only [parseVersion, Option.bind_eq_bind, Option.bind_eq_some_iff] at parsed
  obtain ⟨text₁, h₁, ⟨_, text₂⟩, h₂, text₃, h₃, ⟨_, text₄⟩, h₄, text₅, h₅, ⟨_, text₆⟩, h₆, pre, h₇,
    hversion⟩ := parsed
  cases hversion
  have hdash : '-' ∈ text ↔ pre ≠ none := calc
    '-' ∈ text ↔ '-' ∈ text₁ := dash_mem_of_afterChar (by decide) h₁
    _ ↔ '-' ∈ text₂ := dash_mem_of_digitRun h₂
    _ ↔ '-' ∈ text₃ := dash_mem_of_afterChar (by decide) h₃
    _ ↔ '-' ∈ text₄ := dash_mem_of_digitRun h₄
    _ ↔ '-' ∈ text₅ := dash_mem_of_afterChar (by decide) h₅
    _ ↔ '-' ∈ text₆ := dash_mem_of_digitRun h₆
    _ ↔ pre ≠ none := dash_mem_of_preGroup h₇
  rw [hdash, not_not]
  rfl

end Dash

section Latest

variable {stdout : Text}

/-- The first tag of a kind in the sorted list is the highest of the kind. -/
theorem isHighest_of_head {kind : Tag → Prop} {p : Tag → Bool} (hp : ∀ tag, p tag = true ↔ kind tag)
    {tag : Tag} {rest : List Tag} (hfirst : (sortedTags stdout).filter p = tag :: rest)
    (order : ∀ b ∈ gitTags stdout, kind tag → kind b → TextOrder tag.version b.version) :
    IsHighest (gitTags stdout) kind tag.text := by
  have hmem : ∀ {tag}, tag ∈ sortedTags stdout ↔ tag ∈ gitTags stdout := sortedTags_perm.mem_iff
  have hmemKind : ∀ {b}, b ∈ tag :: rest ↔ b ∈ gitTags stdout ∧ kind b := by
    intro b
    rw [← hfirst, List.mem_filter, hmem, hp]
  obtain ⟨htag, hkind⟩ := hmemKind.mp List.mem_cons_self
  refine ⟨tag, htag, hkind, rfl, ?_⟩
  intro b hb hkindb
  have keys := sortedTags_pairwise.filter (l := sortedTags stdout) p
  rw [hfirst, List.pairwise_cons] at keys
  rcases List.mem_cons.mp (hmemKind.mpr ⟨hb, hkindb⟩) with rfl | hrest
  · exact le_refl _
  · exact precedence_le_of_semverKey_le (order b hb hkind hkindb) (keys.1 b hrest)

theorem latestIsHighest (base : Text) (includeMain : Bool)
    (order : ∀ a ∈ gitTags stdout, ∀ b ∈ gitTags stdout, TextOrder a.version b.version) :
    LatestIsHighest (gitTags stdout) (manifest stdout base includeMain) := by
  have hmem : ∀ {tag}, tag ∈ sortedTags stdout ↔ tag ∈ gitTags stdout := sortedTags_perm.mem_iff
  have hlatest : (manifest stdout base includeMain).latest = latest (sortedTags stdout) := rfl
  have hstable : ∀ tag : Tag, decide ('-' ∉ tag.text) = true ↔ Stable tag := fun tag => by
    rw [decide_eq_true_eq, stable_iff]
  rw [LatestIsHighest, hlatest]
  refine ⟨?_, ?_, ?_⟩
  · rintro ⟨tag, htag, hkind⟩
    cases hfirst : stableTags (sortedTags stdout) with
    | nil =>
      have member : tag ∈ stableTags (sortedTags stdout) :=
        List.mem_filter.mpr ⟨hmem.mpr htag, (hstable tag).mpr hkind⟩
      rw [hfirst] at member
      cases member
    | cons first rest =>
      have htext : latest (sortedTags stdout) = first.text := by
        rw [latest.eq_def, hfirst]
      rw [htext]
      refine isHighest_of_head hstable hfirst fun b _ hkind _ _ x y hx => ?_
      rw [hkind] at hx
      cases hx
  · intro hnone hne
    have hprerelease : ∀ tag : Tag, decide ('-' ∈ tag.text) = true ↔ ¬ Stable tag := fun tag => by
      rw [decide_eq_true_eq, stable_iff, not_not]
    have hall : (sortedTags stdout).filter (fun tag => decide ('-' ∈ tag.text)) = sortedTags stdout :=
      List.filter_eq_self.mpr fun tag htag => (hprerelease tag).mpr (hnone tag (hmem.mp htag))
    have hnil : stableTags (sortedTags stdout) = [] := List.filter_eq_nil_iff.mpr fun tag htag h =>
      hnone tag (hmem.mp htag) ((hstable tag).mp h)
    cases hfirst : sortedTags stdout with
    | nil =>
      rw [hfirst] at hmem
      exact absurd (List.eq_nil_iff_forall_not_mem.mpr fun tag htag => by cases hmem.mpr htag) hne
    | cons first rest =>
      have htext : latest (first :: rest) = first.text := by
        rw [← hfirst, latest.eq_def, hnil, hfirst]
      rw [htext]
      exact isHighest_of_head hprerelease (hall.trans hfirst) fun b hb _ _ =>
        order first (hmem.mp (hfirst ▸ List.mem_cons_self)) b hb
  · intro hnil
    have hempty : sortedTags stdout = [] := by rw [sortedTags, hnil, List.mergeSort_nil]
    rw [hempty]
    rfl

end Latest

/-- The list is in the order of precedence, and `latest` the highest version, if and only if no two
prereleases of one version stand the other way round as texts. -/
theorem manifest_inPrecedenceOrder_iff (stdout base : Text) (includeMain : Bool) :
    (ListedInOrder (gitTags stdout) (manifest stdout base includeMain) ∧
      LatestIsHighest (gitTags stdout) (manifest stdout base includeMain)) ↔
    ∀ a ∈ gitTags stdout, ∀ b ∈ gitTags stdout, SameCore a.version b.version →
      ∀ x y, a.version.pre = some x → b.version.pre = some y → identifiers x < identifiers y →
        ¬ Displaced (splitDots x) (splitDots y) := by
  have order_iff : ∀ a b : Version, TextOrder a b ↔ (SameCore a b → ∀ x y, a.pre = some x →
      b.pre = some y → identifiers x < identifiers y → ¬ Displaced (splitDots x) (splitDots y)) := by
    intro a b
    refine forall_congr' fun _ => forall₂_congr fun x y => forall₃_congr fun _ _ below => ?_
    exact text_lt_iff below
  simp only [← order_iff, ← listedInOrder_iff base includeMain]
  exact and_iff_left_of_imp fun listed =>
    latestIsHighest base includeMain ((listedInOrder_iff base includeMain).mp listed)

/-- The tenth prerelease. -/
def tenthPrerelease : Text := "v1.0.0-rc.9
v1.0.0-rc.10
".toList

theorem not_manifest_inPrecedenceOrder :
    ¬ (ListedInOrder (gitTags tenthPrerelease) (manifest tenthPrerelease "/docs".toList true) ∧
      LatestIsHighest (gitTags tenthPrerelease) (manifest tenthPrerelease "/docs".toList true)) := by
  rintro ⟨listed, -⟩
  have order := (listedInOrder_iff _ _).mp listed
  have hnine : ∃ tag ∈ gitTags tenthPrerelease, tag.version = ⟨1, 0, 0, some "rc.9".toList⟩ := by
    decide
  have hten : ∃ tag ∈ gitTags tenthPrerelease, tag.version = ⟨1, 0, 0, some "rc.10".toList⟩ := by
    decide
  obtain ⟨nine, hnine, hversion⟩ := hnine
  obtain ⟨ten, hten, hversion'⟩ := hten
  have less := order nine hnine ten hten
  rw [hversion, hversion'] at less
  exact absurd (less ⟨rfl, rfl, rfl⟩ _ _ rfl rfl (by decide)) (by decide)

end HisiRiscv.Docs.Versions
