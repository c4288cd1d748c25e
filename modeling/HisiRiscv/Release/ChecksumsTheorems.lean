/-
HisiRiscv.Release.ChecksumsTheorems — release checksums are tamper-evident.

`verifyLoop_eq_ok` says what the loop accepts: lines that parse, with safe and distinct names, each
with the checksum of what it names. Soundness reads it from left to right, completeness
from right to left.

  §1 Hexadecimal digits.
  §2 Directories.
  §3 The loop.
  §4 Soundness.
  §5 Completeness.
  §6 Tampering.
-/
import HisiRiscv.Hil.FlashPlanTheorems
import HisiRiscv.Release.Checksums

namespace HisiRiscv.Release

open HisiRiscv.PyText

/-! ## §1 Hexadecimal digits -/

theorem hexDigits_injective : ∀ i : Fin 16, ∀ j : Fin 16,
    hexDigits.getD i '0' = hexDigits.getD j '0' → i = j := by decide

theorem hexDigits_not_space : ∀ i : Fin 16, isSpace (hexDigits.getD i '0') = false := by decide

theorem hex_injective {bytes bytes' : List UInt8} (h : hex bytes = hex bytes') :
    bytes = bytes' := by
  induction bytes generalizing bytes' with
  | nil =>
    cases bytes' with
    | nil => rfl
    | cons byte bytes' => cases h
  | cons byte bytes ih =>
    cases bytes' with
    | nil => cases h
    | cons byte' bytes' =>
      simp only [hex, List.flatMap_cons, List.cons_append, List.nil_append, List.cons.injEq] at h
      obtain ⟨hhigh, hlow, hrest⟩ := h
      have hlt := byte.toNat_lt
      have hlt' := byte'.toNat_lt
      have hdiv : byte.toNat / 16 = byte'.toNat / 16 :=
        Fin.val_eq_of_eq (hexDigits_injective ⟨_, by omega⟩ ⟨_, by omega⟩ hhigh)
      have hmod : byte.toNat % 16 = byte'.toNat % 16 :=
        Fin.val_eq_of_eq (hexDigits_injective ⟨_, by omega⟩ ⟨_, by omega⟩ hlow)
      have hbyte : byte = byte' := UInt8.toNat_inj.mp (by omega)
      rw [hbyte, ih hrest]

theorem length_hex (bytes : List UInt8) : (hex bytes).length = 2 * bytes.length := by
  induction bytes with
  | nil => rfl
  | cons byte bytes ih =>
    rw [hex, List.flatMap_cons, List.length_append, ← hex, ih, List.length_cons]
    simp only [List.length_cons, List.length_nil]
    omega

theorem length_sha (content : List UInt8) : (sha content).length = 64 := by
  rw [sha, length_hex, Hil.FlashPlan.length_sha256]

theorem sha_ne_nil (content : List UInt8) : sha content ≠ [] := by
  intro h
  have hlen := length_sha content
  rw [h] at hlen
  cases hlen

theorem not_isSpace_of_mem_sha {content : List UInt8} {c : Char} (h : c ∈ sha content) :
    isSpace c = false := by
  obtain ⟨byte, -, hc⟩ := List.mem_flatMap.mp h
  have hlt := byte.toNat_lt
  simp only [List.mem_cons, List.not_mem_nil, or_false] at hc
  obtain rfl | rfl := hc
  · exact hexDigits_not_space ⟨byte.toNat / 16, by omega⟩
  · exact hexDigits_not_space ⟨byte.toNat % 16, by omega⟩

/-! ## §2 Directories -/

namespace Directory

variable {directory : Directory} {name : Text} {content : List UInt8} {entry : Entry}

theorem entry_eq_some : directory.entry name = some entry ↔ (name, entry) ∈ directory.entries := by
  rw [Directory.entry, Option.map_eq_some_iff]
  constructor
  · rintro ⟨⟨name', entry'⟩, hfind, rfl⟩
    obtain rfl : name' = name := by simpa using List.find?_some hfind
    exact List.mem_of_find?_eq_some hfind
  · intro hmem
    cases hfind : directory.entries.find? (fun entry => entry.1 == name) with
    | none =>
      have hne := List.find?_eq_none.mp hfind _ hmem
      exact absurd (beq_self_eq_true name) hne
    | some found =>
      have hname : found.1 = name := by simpa using List.find?_some hfind
      have heq := List.inj_on_of_nodup_map directory.distinct
        (List.mem_of_find?_eq_some hfind) hmem hname
      exact ⟨found, rfl, by rw [heq]⟩

theorem mem_files : (name, content) ∈ directory.files ↔
    (name, .file content) ∈ directory.entries ∧ name ≠ sha256sums := by
  rw [files, List.mem_filterMap]
  constructor
  · rintro ⟨⟨name', entry'⟩, hmem, heq⟩
    cases entry' with
    | file content' =>
      dsimp only at heq
      split_ifs at heq with hsums
      cases heq
      exact ⟨hmem, hsums⟩
    | _ => cases heq
  · rintro ⟨hmem, hsums⟩
    exact ⟨_, hmem, by simp [hsums]⟩

theorem read_of_mem_files (h : (name, content) ∈ directory.files) :
    directory.read name = some content := by
  rw [read, entry_eq_some.mpr (mem_files.mp h).1]

/-- What can be read of a regular file is what it holds. -/
theorem mem_files_of_read (hname : name ∈ directory.files.map Prod.fst)
    (h : directory.read name = some content) : (name, content) ∈ directory.files := by
  obtain ⟨⟨name', content'⟩, hmem, rfl⟩ := List.mem_map.mp hname
  rw [read_of_mem_files hmem] at h
  rwa [← Option.some.inj h]

/-- What is kept of a list keeps its keys in order. -/
theorem sublist_map_filterMap {α β γ : Type} {f : α → Option β} {g : α → γ} {g' : β → γ}
    (h : ∀ a b, f a = some b → g' b = g a) (l : List α) :
    ((l.filterMap f).map g').Sublist (l.map g) := by
  induction l with
  | nil => exact .slnil
  | cons a l ih =>
    cases ha : f a with
    | none =>
      rw [List.filterMap_cons_none ha]
      exact ih.cons _
    | some b =>
      rw [List.filterMap_cons_some ha, List.map_cons, h a b ha]
      exact ih.cons_cons _

theorem files_nodup : (directory.files.map Prod.fst).Nodup := by
  refine (sublist_map_filterMap ?_ directory.entries).nodup directory.distinct
  rintro ⟨name, entry⟩ file heq
  cases entry with
  | file content =>
    dsimp only at heq
    split_ifs at heq
    cases heq
    rfl
  | _ => cases heq

end Directory

/-! ## §3 The loop -/

section Loop

variable {directory : Directory} {lines : List Text} {acc hashes : List (Text × Text)}

/-- What the loop checks of a line. -/
structure Listed (directory : Directory) (hash : Text × Text) : Prop where
  safe : isRefused hash.1 = false
  actual : ∃ content, directory.read hash.1 = some content ∧ hash.2 = sha content

theorem verifyLoop_eq_ok : verifyLoop directory lines acc = .ok hashes ↔
    ∃ new, lines.mapM parseLine = some new ∧ hashes = acc ++ new ∧
      (∀ hash ∈ new, Listed directory hash) ∧ (new.map Prod.fst).Nodup ∧
      ∀ hash ∈ new, hash.1 ∉ acc.map Prod.fst := by
  induction lines generalizing acc with
  | nil =>
    simp only [verifyLoop, List.mapM_nil]
    constructor
    · intro h
      cases h
      exact ⟨[], rfl, by simp, by simp, by simp, by simp⟩
    · rintro ⟨new, hnew, rfl, -⟩
      cases hnew
      rw [List.append_nil]
  | cons line lines ih =>
    simp only [verifyLoop, List.mapM_cons, Option.bind_eq_bind, Bool.or_eq_true, List.contains_iff_mem]
    cases hline : parseLine line with
    | none => simp
    | some hash =>
      obtain ⟨name, checksum⟩ := hash
      simp only [Option.bind_some]
      constructor
      · intro h
        split_ifs at h with hname hlen
        split at h
        · cases h
        · rename_i content hread
          split_ifs at h with hsha
          obtain ⟨new, hnew, rfl, hlisted, hnodup, hfresh⟩ := ih.mp h
          rw [not_or, Bool.not_eq_true] at hname
          rw [not_not] at hsha
          refine ⟨(name, checksum) :: new, by rw [hnew]; rfl, by simp, ?_, ?_, ?_⟩
          · exact List.forall_mem_cons.mpr ⟨⟨hname.1, content, hread, hsha.symm⟩, hlisted⟩
          · rw [List.map_cons, List.nodup_cons]
            refine ⟨?_, hnodup⟩
            intro hmem
            obtain ⟨hash, hhash, heq⟩ := List.mem_map.mp hmem
            exact hfresh hash hhash (by simp [heq])
          · refine List.forall_mem_cons.mpr ⟨hname.2, ?_⟩
            intro hash hhash hmem
            exact hfresh hash hhash (by simp [hmem])
      · rintro ⟨new, hnew, rfl, hlisted, hnodup, hfresh⟩
        obtain ⟨new, hnew', hcons⟩ := Option.bind_eq_some_iff.mp hnew
        cases hcons
        obtain ⟨⟨hsafe, content, hread, hsha⟩, hlisted⟩ := List.forall_mem_cons.mp hlisted
        obtain ⟨hfreshName, hfresh⟩ := List.forall_mem_cons.mp hfresh
        rw [List.map_cons, List.nodup_cons] at hnodup
        dsimp only at hsafe hread hsha hfreshName
        have hlen : ¬ checksum.length ≠ 64 := by
          rw [hsha, length_sha]
          simp
        rw [if_neg (by simp [hsafe, hfreshName]), if_neg hlen, hread]
        dsimp only
        rw [if_neg (by simp [hsha]), ih]
        refine ⟨new, hnew', by simp, hlisted, hnodup.2, ?_⟩
        intro hash hhash
        have hne : hash.1 ≠ name := by
          intro heq
          exact hnodup.1 (List.mem_map.mpr ⟨hash, hhash, heq⟩)
        simp [hne, hfresh hash hhash]

end Loop

/-! ## §4 Soundness -/

/-- A name without a path: no separator of any system, and not a directory of its own. -/
structure IsPlain (name : Text) : Prop where
  ne_nil : name ≠ []
  no_slash : '/' ∉ name
  no_backslash : '\\' ∉ name
  not_dot : name ≠ ['.']
  not_dots : name ≠ ['.', '.']

/-- The mapping that a manifest lists, against a directory. -/
structure Exact (directory : Directory) (text : Text) (hashes : List (Text × Text)) : Prop where
  listed : (splitlines (universalNewlines text)).mapM parseLine = some hashes
  distinct : (hashes.map Prod.fst).Nodup
  plain : ∀ hash ∈ hashes, IsPlain hash.1
  covers : ∀ name, name ∈ hashes.map Prod.fst ↔ name ∈ directory.files.map Prod.fst
  actual : ∀ hash ∈ hashes, ∃ content, (hash.1, content) ∈ directory.files ∧ hash.2 = sha content

theorem isRefused_eq_false {name : Text} :
    isRefused name = false ↔ IsPlain name ∧ name ≠ Directory.sha256sums := by
  simp only [isRefused, Bool.or_eq_false_iff, decide_eq_false_iff_not, List.contains_eq_mem]
  constructor
  · rintro ⟨⟨⟨⟨⟨hnil, hslash⟩, hbackslash⟩, hdot⟩, hdots⟩, hsums⟩
    exact ⟨⟨hnil, hslash, hbackslash, hdot, hdots⟩, hsums⟩
  · rintro ⟨⟨hnil, hslash, hbackslash, hdot, hdots⟩, hsums⟩
    exact ⟨⟨⟨⟨⟨hnil, hslash⟩, hbackslash⟩, hdot⟩, hdots⟩, hsums⟩

theorem sameSet_iff {names names' : List Text} :
    sameSet names names' = true ↔ ∀ name, name ∈ names ↔ name ∈ names' := by
  simp only [sameSet, Bool.and_eq_true, List.all_eq_true, List.contains_iff_mem]
  constructor
  · rintro ⟨h, h'⟩ name
    exact ⟨h name, h' name⟩
  · intro h
    exact ⟨fun name => (h name).mp, fun name => (h name).mpr⟩

section Verify

variable {directory : Directory} {text : Text} {expected : Option (List Text)}
  {hashes : List (Text × Text)}

theorem verifyChecksums_eq_ok : verifyChecksums directory text expected = .ok hashes ↔
    verifyLoop directory (splitlines (universalNewlines text)) [] = .ok hashes ∧ hashes ≠ [] ∧
      (∀ name, name ∈ hashes.map Prod.fst ↔ name ∈ directory.files.map Prod.fst) ∧
      ∀ names ∈ expected, sameSet (directory.files.map Prod.fst) names = true := by
  rw [verifyChecksums, Hil.FlashPlan.bind_eq_ok]
  constructor
  · rintro ⟨hashes', hloop, h⟩
    dsimp only at h
    split_ifs at h with hbad
    cases h
    simp only [not_or, not_not, sameSet_iff] at hbad
    refine ⟨hloop, hbad.1, hbad.2.1, ?_⟩
    rintro names rfl
    exact hbad.2.2
  · rintro ⟨hloop, hne, hcovers, hexpected⟩
    refine ⟨hashes, hloop, ?_⟩
    dsimp only
    have hall : expected.all (fun names => sameSet (directory.files.map Prod.fst) names) = true := by
      cases expected with
      | none => rfl
      | some names => exact hexpected names rfl
    rw [if_neg]
    simp only [not_or, not_not, sameSet_iff]
    exact ⟨hne, hcovers, hall⟩

theorem exact_of_ok (h : verifyChecksums directory text expected = .ok hashes) :
    Exact directory text hashes := by
  obtain ⟨hloop, -, hcovers, -⟩ := verifyChecksums_eq_ok.mp h
  obtain ⟨new, hnew, heq, hlisted, hnodup, -⟩ := verifyLoop_eq_ok.mp hloop
  rw [List.nil_append] at heq
  subst heq
  refine ⟨hnew, hnodup, ?_, hcovers, ?_⟩
  · intro hash hhash
    exact (isRefused_eq_false.mp (hlisted hash hhash).safe).1
  · intro hash hhash
    obtain ⟨content, hread, hsha⟩ := (hlisted hash hhash).actual
    have hname := (hcovers hash.1).mp (List.mem_map_of_mem hhash)
    exact ⟨content, Directory.mem_files_of_read hname hread, hsha⟩

end Verify

/-! ## §5 Completeness -/

/-- A name that the format of the manifest can carry. -/
structure IsClean (name : Text) : Prop where
  no_backslash : '\\' ∉ name
  no_space : ∀ c ∈ name, isSpace c = false
  no_star : name.head? ≠ some '*'

section Writer

variable {files : List (Text × List UInt8)}

theorem not_isLineBreak {c : Char} (h : isSpace c = false) : isLineBreak c = false := by
  by_contra hbreak
  rw [Bool.not_eq_false] at hbreak
  rw [isSpace_of_isLineBreak hbreak] at h
  cases h

/-- The lines of a manifest are read back. -/
theorem listed_manifestText (hclean : ∀ file ∈ files, IsClean file.1)
    (hne : ∀ file ∈ files, file.1 ≠ []) :
    (splitlines (universalNewlines (manifestText files))).mapM parseLine =
      some (files.map fun file => (file.1, sha file.2)) := by
  have hchar : ∀ file ∈ files, ∀ c ∈ sha file.2 ++ "  ".toList ++ file.1, isSpace c = false ∨ c = ' ' := by
    intro file hfile c hc
    rw [List.mem_append, List.mem_append] at hc
    obtain (hc | hc) | hc := hc
    · exact .inl (not_isSpace_of_mem_sha hc)
    · exact .inr (by simpa using hc)
    · exact .inl ((hclean file hfile).no_space c hc)
  have hreturn : '\r' ∉ manifestText files := by
    intro hmem
    obtain ⟨file, hfile, hc⟩ := List.mem_flatMap.mp hmem
    obtain hc | hc := List.mem_append.mp hc
    · obtain h | h := hchar file hfile _ hc
      · exact absurd h (by decide)
      · exact absurd h (by decide)
    · exact absurd hc (by decide)
  have hsplit : splitlines (manifestText files) =
      files.map fun file => sha file.2 ++ "  ".toList ++ file.1 := by
    have hlines : manifestText files =
        (files.map fun file => sha file.2 ++ "  ".toList ++ file.1).flatMap fun line =>
          line ++ ['\n'] := by
      rw [manifestText, List.flatMap_map]
      rfl
    rw [hlines, splitlines_unlines]
    intro line hline c hc
    obtain ⟨file, hfile, rfl⟩ := List.mem_map.mp hline
    obtain h | rfl := hchar file hfile c hc
    · exact not_isLineBreak h
    · rfl
  rw [universalNewlines_eq hreturn, hsplit]
  have hspaces : ∀ c ∈ "  ".toList, isSpace c = true := by
    intro c hc
    rcases List.mem_pair.mp hc with rfl | rfl <;> rfl
  have hparse : ∀ file ∈ files,
      parseLine (sha file.2 ++ "  ".toList ++ file.1) = some (file.1, sha file.2) := by
    intro file hfile
    have hwords : splitOnce (sha file.2 ++ ("  ".toList ++ file.1)) = [sha file.2, file.1] :=
      splitOnce_words (fun c => not_isSpace_of_mem_sha) hspaces (hclean file hfile).no_space
        (sha_ne_nil _) (by decide) (hne file hfile)
    rw [parseLine, List.append_assoc, hwords]
    simp only [removePrefix_of_ne (hclean file hfile).no_star]
  clear hchar hreturn hsplit
  induction files with
  | nil => rfl
  | cons file files ih =>
    obtain ⟨hfile, hfiles⟩ := List.forall_mem_cons.mp hparse
    rw [List.map_cons, List.mapM_cons, hfile,
      ih (List.forall_mem_cons.mp hclean).2 (List.forall_mem_cons.mp hne).2 hfiles]
    rfl

theorem isPlain_of_clean {directory : Directory} {file : Text × List UInt8}
    (hfile : file ∈ directory.files) (hclean : IsClean file.1) :
    isRefused file.1 = false := by
  obtain ⟨hmem, hsums⟩ := Directory.mem_files.mp hfile
  obtain ⟨hne, hdot, hdots, hslash⟩ := directory.named _ hmem
  exact isRefused_eq_false.mpr ⟨⟨hne, hslash, hclean.no_backslash, hdot, hdots⟩, hsums⟩

theorem verifyChecksums_manifestText {directory : Directory} (hperm : files.Perm directory.files)
    (hne : files ≠ []) (hclean : ∀ file ∈ files, IsClean file.1) :
    verifyChecksums directory (manifestText files) none =
      .ok (files.map fun file => (file.1, sha file.2)) := by
  have hnames : (files.map fun file => (file.1, sha file.2)).map Prod.fst = files.map Prod.fst := by
    rw [List.map_map]
    rfl
  have hnodup : (files.map Prod.fst).Nodup :=
    (hperm.map Prod.fst).nodup_iff.mpr Directory.files_nodup
  have hname : ∀ file ∈ files, file.1 ≠ [] := by
    intro file hfile
    exact (directory.named _ (Directory.mem_files.mp (hperm.subset hfile)).1).1
  rw [verifyChecksums_eq_ok, verifyLoop_eq_ok]
  refine ⟨⟨_, listed_manifestText hclean hname, rfl, ?_, by rwa [hnames], by simp⟩, by simpa using hne,
    ?_, by simp⟩
  · intro hash hhash
    obtain ⟨file, hfile, rfl⟩ := List.mem_map.mp hhash
    exact ⟨isPlain_of_clean (hperm.subset hfile) (hclean file hfile), file.2,
      Directory.read_of_mem_files (hperm.subset hfile), rfl⟩
  · intro name
    rw [hnames]
    exact (hperm.map Prod.fst).mem_iff

end Writer

/-! ## §6 Tampering -/

/-- No two contents of the lists have one digest. -/
def CollisionFree (files files' : List (Text × List UInt8)) : Prop :=
  ∀ file ∈ files, ∀ file' ∈ files',
    Hil.FlashPlan.sha256 file.2 = Hil.FlashPlan.sha256 file'.2 → file.2 = file'.2

/-- A directory that passes with the manifest of other files has these files. -/
theorem files_eq_of_ok {directory : Directory} {files : List (Text × List UInt8)}
    {expected : Option (List Text)} {hashes : List (Text × Text)}
    (hclean : ∀ file ∈ files, IsClean file.1) (hname : ∀ file ∈ files, file.1 ≠ [])
    (hfree : CollisionFree files directory.files)
    (h : verifyChecksums directory (manifestText files) expected = .ok hashes)
    (file : Text × List UInt8) :
    file ∈ files ↔ file ∈ directory.files := by
  have hexact := exact_of_ok h
  have hlisted := hexact.listed
  rw [listed_manifestText hclean hname] at hlisted
  obtain rfl := Option.some.inj hlisted
  have hmem : ∀ file ∈ files, file ∈ directory.files := by
    intro file hfile
    obtain ⟨content, hcontent, hsha⟩ := hexact.actual _ (List.mem_map_of_mem hfile)
    have heq : file.2 = content := hfree file hfile _ hcontent (hex_injective hsha)
    have hpair : file = (file.1, content) := Prod.ext rfl heq
    rw [hpair]
    exact hcontent
  constructor
  · exact hmem file
  · intro hfile
    have hcovered := (hexact.covers file.1).mpr (List.mem_map_of_mem hfile)
    simp only [List.map_map, List.mem_map, Function.comp_apply] at hcovered
    obtain ⟨other, hother, heq⟩ := hcovered
    have hsame := List.inj_on_of_nodup_map Directory.files_nodup (hmem other hother) hfile heq
    rwa [← hsame]

/-- What passes is exactly what is listed; what `prepare` writes passes; and no change
of the files does. -/
theorem checksums_tamper_evident :
    (∀ (directory : Directory) (text : Text) (expected : Option (List Text))
      (hashes : List (Text × Text)),
      verifyChecksums directory text expected = .ok hashes → Exact directory text hashes) ∧
    ∀ (directory : Directory) (files : List (Text × List UInt8)), files.Perm directory.files →
      files ≠ [] → (∀ file ∈ files, IsClean file.1) →
        verifyChecksums directory (manifestText files) none =
            .ok (files.map fun file => (file.1, sha file.2)) ∧
          ∀ (changed : Directory) (expected : Option (List Text)),
            CollisionFree directory.files changed.files →
            (∃ file, ¬ (file ∈ directory.files ↔ file ∈ changed.files)) →
              ∃ failure, verifyChecksums changed (manifestText files) expected = .error failure := by
  refine ⟨fun _ _ _ _ => exact_of_ok, ?_⟩
  intro directory files hperm hne hclean
  refine ⟨verifyChecksums_manifestText hperm hne hclean, ?_⟩
  rintro changed expected hfree ⟨file, hchanged⟩
  cases hresult : verifyChecksums changed (manifestText files) expected with
  | error failure => exact ⟨failure, rfl⟩
  | ok hashes =>
    have hname : ∀ file ∈ files, file.1 ≠ [] := by
      intro file hfile
      exact (directory.named _ (Directory.mem_files.mp (hperm.subset hfile)).1).1
    have hfree' : CollisionFree files changed.files :=
      fun file hfile => hfree file (hperm.subset hfile)
    have hsame := files_eq_of_ok hclean hname hfree' hresult file
    exact absurd (hperm.mem_iff.symm.trans hsame) hchanged

/-- Two files with the same byte. -/
def twoFiles (first second : Char) (hne : first ≠ second)
    (hnames : IsFileName [first] ∧ IsFileName [second]) : Directory where
  entries := [([first], .file [7]), ([second], .file [7])]
  distinct := by simpa using hne
  named := by simpa using hnames

/-- The manifest lists the two files in the other order; then the second file, or the first, is
renamed. -/
theorem checksums_tamper_evident_renamed : ∃ (text : Text) (hashes : List (Text × Text)),
    verifyChecksums (twoFiles 'a' 'b' (by decide) (by decide)) text none = .ok hashes ∧
      hashes.map Prod.fst = [['b'], ['a']] ∧
      (∃ failure, verifyChecksums (twoFiles 'a' 'c' (by decide) (by decide)) text none = .error failure) ∧
      ∃ failure, verifyChecksums (twoFiles 'c' 'b' (by decide) (by decide)) text none = .error failure := by
  have hfiles {first second : Char} (hne : first ≠ second) (hnames : IsFileName [first] ∧ IsFileName [second]) :
      (twoFiles first second hne hnames).files = [([first], [7]), ([second], [7])] := by
    have hlen : Directory.sha256sums.length = 10 := by decide
    have hsums (c : Char) : [c] ≠ Directory.sha256sums := fun h =>
      absurd ((congrArg List.length h).trans hlen) (by decide : (1 : ℕ) ≠ 10)
    simp only [Directory.files, twoFiles, List.filterMap_cons, if_neg (hsums _), List.filterMap_nil]
  have hbyte {first second : Char} (hne : first ≠ second) (hnames : IsFileName [first] ∧ IsFileName [second]) :
      ∀ file ∈ (twoFiles first second hne hnames).files, file.2 = [7] := by
    simp [hfiles]
  have hfree {first second : Char} (hne : first ≠ second) (hnames : IsFileName [first] ∧ IsFileName [second]) :
      CollisionFree (twoFiles 'a' 'b' (by decide) (by decide)).files (twoFiles first second hne hnames).files :=
    fun file hfile file' hfile' _ => (hbyte _ _ file hfile).trans (hbyte _ _ file' hfile').symm
  have hperm : [(['b'], [(7 : UInt8)]), (['a'], [7])].Perm
      (twoFiles 'a' 'b' (by decide) (by decide)).files := by
    rw [hfiles]
    exact List.Perm.swap _ _ _
  have hclean : ∀ file ∈ [(['b'], [(7 : UInt8)]), (['a'], [7])], IsClean file.1 := by
    simp only [List.forall_mem_cons]
    exact ⟨⟨by decide, by simp [isSpace], by decide⟩, ⟨by decide, by simp [isSpace], by decide⟩, by simp⟩
  obtain ⟨hok, hchanged⟩ := checksums_tamper_evident.2 (twoFiles 'a' 'b' (by decide) (by decide)) _ hperm
    (List.cons_ne_nil _ _) hclean
  have hsecond := hchanged (twoFiles 'a' 'c' (by decide) (by decide)) none (hfree _ _)
    ⟨(['b'], [7]), by simp [hfiles]⟩
  have hfirst := hchanged (twoFiles 'c' 'b' (by decide) (by decide)) none (hfree _ _)
    ⟨(['a'], [7]), by simp [hfiles]⟩
  exact ⟨_, _, hok, by simp only [List.map_cons, List.map_nil], hsecond, hfirst⟩

end HisiRiscv.Release
