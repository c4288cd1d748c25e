/-
HisiRiscv.Docs.SiteTheorems — the documentation site stays consistent in every history whose
runs are safe.

Two invariants carry the induction. `Laid` is about the tree: each version's directory is a copy of its last book,
and nothing else is there but what the script itself writes. `Described` is about the
manifest: it lists the alias and the deployed versions, each once.

  §1 Names.
  §2 Last books.
  §3 The tree.
  §4 The manifest.
  §5 A run.
  §6 Histories.
-/
import HisiRiscv.Lib.Machine
import HisiRiscv.Docs.Site

namespace HisiRiscv.Docs.Site

open HisiRiscv.FileTree
open HisiRiscv.PyText (Text afterChar)

/-! ## §1 Names -/

section Names

variable {v w : Text}

theorem parts_eq (h : IsName v) : parts v = v.splitOn '/' := by
  apply List.filter_eq_self.mpr
  intro part hpart
  obtain ⟨hne, hdot, -⟩ := h part hpart
  simp [hne, hdot]

theorem parts_ne_nil (h : IsName v) : parts v ≠ [] := by
  rw [parts_eq h]
  exact List.splitOn_ne_nil _ _

theorem parts_main : parts main = [main] := by decide

theorem isName_main : IsName main := by decide

theorem eq_of_prefix_singleton {path : List Text} {name : Text} (h : path <+: [name])
    (hne : path ≠ []) : path = [name] := by
  obtain hnil | ⟨rest, hcons, hrest⟩ := List.prefix_cons_iff.mp h
  · exact absurd hnil hne
  · rw [hcons, List.prefix_nil.mp hrest]

/-- A version's directory is neither above nor below one that the script uses. -/
theorem Unreserved.apart (h : Unreserved v) (hv : IsName v) (name : Text)
    (hname : name ∈ [latest, versionsJson, indexHtml]) :
    ¬ [name] <+: parts v ∧ ¬ parts v <+: [name] := by
  refine ⟨h.1 name hname, ?_⟩
  intro hle
  apply h.1 name hname
  rw [eq_of_prefix_singleton hle (parts_ne_nil hv)]

end Names

/-! ## §2 Last books -/

section LastBook

variable {runs : List Run} {run : Run} {v : Text}

@[simp] theorem lastBook_nil : lastBook [] v = none := rfl

theorem lastBook_snoc :
    lastBook (runs ++ [run]) v = if run.version = v then some run.book else lastBook runs v := by
  rw [lastBook, List.reverse_append, List.reverse_singleton, List.singleton_append,
    List.find?_cons]
  split_ifs with h <;> simp [h, lastBook]

theorem isSome_lastBook_snoc :
    (lastBook (runs ++ [run]) v).isSome ↔ v = run.version ∨ (lastBook runs v).isSome := by
  rw [lastBook_snoc]
  split_ifs with h
  · simp [h]
  · simp [Ne.symm h]

end LastBook

/-! ## §3 The tree -/

/-- What is where on the site. -/
structure Laid (runs : List Run) (site : Files) : Prop where
  root : site [] = some .directory
  copied : ∀ v book, lastBook runs v = some book →
    IsName v ∧ Unreserved v ∧ below (parts v) site = book.files
  apart : ∀ v w, (lastBook runs v).isSome → (lastBook runs w).isSome →
    parts v <+: parts w → v = w
  latest_copy : isFile site [latest] = false
  shape : ∀ path node, site path = some node →
    (∃ name ∈ [versionsJson, indexHtml], path = [name] ∧ node ≠ .directory) ∨
      [latest] <+: path ∨ (∃ v, (lastBook runs v).isSome ∧ parts v <+: path) ∨
      node = .directory ∧ (path = [] ∨ ∃ v, (lastBook runs v).isSome ∧ path <+: parts v)

namespace Laid

variable {runs : List Run} {site : Files} {run : Run} {v : Text}

theorem empty : Laid [] emptyDirectory where
  root := rfl
  copied _ _ h := by cases h
  apart _ _ h := by cases h
  latest_copy := rfl
  shape path node h := by
    unfold emptyDirectory at h
    split at h
    · rename_i hpath
      cases h
      exact .inr (.inr (.inr ⟨rfl, .inl hpath⟩))
    · cases h

theorem named (h : Laid runs site) (hv : (lastBook runs v).isSome) : IsName v ∧ Unreserved v := by
  obtain ⟨book, hbook⟩ := Option.isSome_iff_exists.mp hv
  obtain ⟨hname, hfree, -⟩ := h.copied v book hbook
  exact ⟨hname, hfree⟩

theorem present_index (h : Laid runs site) (hv : (lastBook runs v).isSome) :
    present site (parts v ++ [indexHtml]) = true := by
  obtain ⟨book, hbook⟩ := Option.isSome_iff_exists.mp hv
  obtain ⟨-, -, hbelow⟩ := h.copied v book hbook
  have hindex : site (parts v ++ [indexHtml]) = book.files [indexHtml] := congrFun hbelow [indexHtml]
  rw [present, hindex]
  exact book.index

/-- Something is in or below the directory of the main branch only if the branch is deployed. -/
theorem main_deployed (h : Laid runs site) {path : List Text} (hmain : [main] <+: path)
    (hpresent : present site path = true) : (lastBook runs main).isSome := by
  obtain ⟨node, hnode⟩ := Option.isSome_iff_exists.mp hpresent
  obtain ⟨rest, rfl⟩ := hmain
  obtain ⟨name, hname, hpath, -⟩ | hpath | ⟨v, hv, hle⟩ | ⟨-, hpath | ⟨v, hv, hle⟩⟩ :=
    h.shape _ _ hnode
  · rw [← List.head_eq_of_cons_eq hpath] at hname
    exact absurd hname (by decide)
  · exact absurd (List.cons_prefix_cons.mp hpath).1 (by decide)
  · obtain ⟨hname, hfree⟩ := h.named hv
    have hmain : [main] <+: parts v := by
      obtain hle | hle := List.prefix_or_prefix_of_prefix hle (List.prefix_append [main] rest)
      · rw [eq_of_prefix_singleton hle (parts_ne_nil hname)]
      · exact hle
    rwa [← hfree.2 hmain]
  · cases hpath
  · obtain ⟨-, hfree⟩ := h.named hv
    rwa [← hfree.2 ((List.prefix_append [main] rest).trans hle)]

/-- The book of a run is copied to the directory of its version. -/
theorem copy (h : Laid runs site) (hfree : Unreserved run.version)
    (hapart : ∀ v, (lastBook runs v).isSome →
      parts v <+: parts run.version ∨ parts run.version <+: parts v → v = run.version) :
    ∃ site', copyTree run.book.files (parts run.version) site = some site' ∧
      site' = graft run.book.files (parts run.version) site ∧ Laid (runs ++ [run]) site' := by
  have hname := run.version_isName
  have hlatest := hfree.apart hname latest (by decide)
  have hold : ∀ v, (lastBook runs v).isSome → v ≠ run.version →
      ¬ parts run.version <+: parts v ∧ ¬ parts v <+: parts run.version := by
    intro v hv hne
    exact ⟨fun hle => hne (hapart v hv (.inr hle)), fun hle => hne (hapart v hv (.inl hle))⟩
  refine ⟨_, copyTree_eq_some (by rw [isDirectory, run.book.directory]) ?_, rfl, ?_⟩
  · intro above habove
    cases hnode : site above with
    | none => rw [isFile, hnode]
    | some node =>
      rw [isFile, hnode]
      obtain ⟨name, hmem, rfl, -⟩ | hpath | ⟨v, hv, hle⟩ | ⟨rfl, -⟩ := h.shape _ _ hnode
      · exact absurd habove (hfree.1 name (List.mem_cons_of_mem _ hmem))
      · exact absurd (hpath.trans habove) hlatest.1
      · obtain rfl := hapart v hv (.inl (hle.trans habove))
        obtain ⟨book, hbook⟩ := Option.isSome_iff_exists.mp hv
        obtain ⟨-, -, hbelow⟩ := h.copied _ book hbook
        have hsite : site (parts run.version) = some .directory := by
          rw [← List.append_nil (parts run.version), ← book.directory, ← hbelow]
          rfl
        rw [habove.eq_of_length_le hle.length_le, hsite] at hnode
        cases hnode
        rfl
      · rfl
  · constructor
    · exact graft_root (parts_ne_nil hname)
    · intro v book hbook
      rw [lastBook_snoc] at hbook
      split_ifs at hbook with hv
      · cases hbook
        rw [← hv]
        exact ⟨hname, hfree, below_graft_self⟩
      · obtain ⟨hvname, hvfree, hbelow⟩ := h.copied v book hbook
        obtain ⟨hnot, hnot'⟩ := hold v (by simp [hbook]) (Ne.symm hv)
        rw [below_graft_apart hnot hnot']
        exact ⟨hvname, hvfree, hbelow⟩
    · intro v w hv hw hle
      rw [isSome_lastBook_snoc] at hv hw
      obtain rfl | hv := hv <;> obtain rfl | hw := hw
      · rfl
      · exact (hapart w hw (.inr hle)).symm
      · exact hapart v hv (.inl hle)
      · exact h.apart v w hv hw hle
    · rw [isFile, graft_apart hlatest.2 hlatest.1]
      exact h.latest_copy
    · intro path node hnode
      by_cases hbelow : parts run.version <+: path
      · exact .inr (.inr (.inl ⟨_, isSome_lastBook_snoc.mpr (.inl rfl), hbelow⟩))
      · by_cases habove : path <+: parts run.version
        · rw [graft_above hbelow habove] at hnode
          cases hnode
          exact .inr (.inr (.inr ⟨rfl, .inr ⟨_, isSome_lastBook_snoc.mpr (.inl rfl), habove⟩⟩))
        · rw [graft_apart hbelow habove] at hnode
          have hmono : ∀ v, (lastBook runs v).isSome → (lastBook (runs ++ [run]) v).isSome :=
            fun v hv => isSome_lastBook_snoc.mpr (.inr hv)
          obtain hname | hpath | ⟨v, hv, hle⟩ | ⟨hdir, hpath | ⟨v, hv, hle⟩⟩ :=
            h.shape _ _ hnode
          · exact .inl hname
          · exact .inr (.inl hpath)
          · exact .inr (.inr (.inl ⟨v, hmono v hv, hle⟩))
          · exact .inr (.inr (.inr ⟨hdir, .inl hpath⟩))
          · exact .inr (.inr (.inr ⟨hdir, .inr ⟨v, hmono v hv, hle⟩⟩))

/-- A file of the script is written. -/
theorem write (h : Laid runs site) (name : Text) (hname : name ∈ [versionsJson, indexHtml])
    (content : Content) :
    ∃ site', writeFile [name] content site = some site' ∧
      site' = Function.update site [name] (some (.file content)) ∧ Laid runs site' := by
  have hlatest : name ≠ latest := by
    rintro rfl
    exact absurd hname (by decide)
  have hapart : ∀ v, (lastBook runs v).isSome → ¬ [name] <+: parts v ∧ ¬ parts v <+: [name] := by
    intro v hv
    obtain ⟨hvname, hvfree⟩ := h.named hv
    exact hvfree.apart hvname name (List.mem_cons_of_mem _ hname)
  refine ⟨_, writeFile_eq_some h.root ?_, rfl, ?_⟩
  · cases hnode : site [name] with
    | none => rw [isDirectory, hnode]
    | some node =>
      rw [isDirectory, hnode]
      obtain ⟨-, -, -, hfile⟩ | hpath | ⟨v, hv, hle⟩ | ⟨-, hpath | ⟨v, hv, hle⟩⟩ :=
        h.shape _ _ hnode
      · cases node with
        | directory => exact absurd rfl hfile
        | file content => rfl
      · exact absurd (List.cons_prefix_cons.mp hpath).1 hlatest.symm
      · exact absurd hle (hapart v hv).2
      · cases hpath
      · exact absurd hle (hapart v hv).1
  · constructor
    · exact h.root
    · intro v book hbook
      obtain ⟨hvname, hvfree, hbelow⟩ := h.copied v book hbook
      rw [below_update (hapart v (by simp [hbook])).2]
      exact ⟨hvname, hvfree, hbelow⟩
    · exact h.apart
    · rw [isFile, Function.update_of_ne (by simpa using hlatest.symm)]
      exact h.latest_copy
    · intro path node hnode
      by_cases hpath : path = [name]
      · rw [hpath, Function.update_self] at hnode
        cases hnode
        exact .inl ⟨name, hname, hpath, by simp⟩
      · rw [Function.update_of_ne hpath] at hnode
        exact h.shape _ _ hnode

/-- A book is copied to `latest/`. -/
theorem copyLatest (h : Laid runs site) (book : Book) :
    ∃ site', copyTree book.files [latest] site = some site' ∧
      site' = graft book.files [latest] site ∧ Laid runs site' := by
  have hapart : ∀ v, (lastBook runs v).isSome →
      ¬ [latest] <+: parts v ∧ ¬ parts v <+: [latest] := by
    intro v hv
    obtain ⟨hvname, hvfree⟩ := h.named hv
    exact hvfree.apart hvname latest List.mem_cons_self
  refine ⟨_, copyTree_eq_some (by rw [isDirectory, book.directory]) ?_, rfl, ?_⟩
  · intro above habove
    obtain rfl | hne := eq_or_ne above []
    · rw [isFile, h.root]
    · rw [eq_of_prefix_singleton habove hne]
      exact h.latest_copy
  · constructor
    · exact graft_root (by simp)
    · intro v book' hbook
      obtain ⟨hvname, hvfree, hbelow⟩ := h.copied v book' hbook
      obtain ⟨hnot, hnot'⟩ := hapart v (by simp [hbook])
      rw [below_graft_apart hnot hnot']
      exact ⟨hvname, hvfree, hbelow⟩
    · exact h.apart
    · have hself : graft book.files [latest] site [latest] = some .directory := by
        have hbook : below [latest] (graft book.files [latest] site) = book.files := below_graft_self
        rw [← book.directory, ← hbook]
        rfl
      rw [isFile, hself]
    · intro path node hnode
      by_cases hbelow : [latest] <+: path
      · exact .inr (.inl hbelow)
      · by_cases habove : path <+: [latest]
        · have hpath : path = [] := by
            by_contra hne
            exact hbelow (eq_of_prefix_singleton habove hne ▸ List.prefix_rfl)
          rw [graft_above hbelow habove] at hnode
          cases hnode
          exact .inr (.inr (.inr ⟨rfl, .inl hpath⟩))
        · rw [graft_apart hbelow habove] at hnode
          exact h.shape _ _ hnode

end Laid

/-! ## §4 The manifest -/

/-- An entry passes the checks that depend on nothing else; only the alias is one. -/
structure Entry.Sound (decimal : Char → Bool) (entry : Entry) : Prop where
  release : entry.kind = .release → isSemver decimal entry.id = true
  bookBase : entry.bookBase.head? = some '/'
  apiBase : entry.apiBase.head? = some '/'
  alias_id : entry.kind = .alias → entry.id = latest

/-- A manifest that may still list the main branch before it is deployed. -/
structure Loaded (decimal : Char → Bool) (runs : List Run) (data : Manifest) : Prop where
  default : data.default = latest
  unique : data.ids.Nodup
  listed : ∀ id ∈ data.ids, id = latest ∨ id = main ∨ (lastBook runs id).isSome
  complete : ∀ id, id = latest ∨ (lastBook runs id).isSome → id ∈ data.ids
  sound : ∀ entry ∈ data.versions, entry.Sound decimal

/-- A manifest as a run writes it. -/
structure Described (decimal : Char → Bool) (runs : List Run) (data : Manifest) : Prop where
  default : data.default = latest
  unique : data.ids.Nodup
  mem_ids : ∀ id, id ∈ data.ids ↔ id = latest ∨ (lastBook runs id).isSome
  sound : ∀ entry ∈ data.versions, entry.Sound decimal
  target : ∀ entry ∈ data.versions, entry.id = latest → entry.target = some data.latest

section Merge

variable {decimal : Char → Bool} {runs : List Run} {data : Manifest} {versions : List Entry}
  {version target id : Text} {site : Files}

theorem sound_source : ∀ entry ∈ source.versions, entry.Sound decimal := by
  intro entry hentry
  simp only [source, List.mem_cons, List.not_mem_nil, or_false] at hentry
  obtain rfl | rfl := hentry
  · exact ⟨by simp, rfl, rfl, by simp⟩
  · exact ⟨by simp, rfl, rfl, by simp⟩

theorem loaded_source : Loaded decimal [] source where
  default := rfl
  unique := by decide
  listed := by decide
  complete id h := by
    obtain rfl | h := h
    · decide
    · cases h
  sound := sound_source

/-- What `loadManifest` reads from the manifest of an earlier run. -/
theorem Described.merged (h : Described decimal runs data) :
    Loaded decimal runs ⟨data.default, data.latest, source.versions.foldl
      (OrderedDict.insert Entry.id) (OrderedDict.ofList Entry.id data.versions)⟩ := by
  have hmem : ∀ entry, entry ∈ source.versions.foldl (OrderedDict.insert Entry.id)
      (OrderedDict.ofList Entry.id data.versions) ↔ entry ∈ source.versions ∨
        entry ∈ data.versions ∧ entry.id ∉ source.versions.map Entry.id := by
    intro entry
    rw [OrderedDict.mem_foldl_insert OrderedDict.nodup_ofList (by decide),
      OrderedDict.mem_ofList h.unique]
  constructor
  · exact h.default
  · exact OrderedDict.nodup_foldl_insert OrderedDict.nodup_ofList
  · intro id hid
    obtain ⟨entry, hentry, rfl⟩ := List.mem_map.mp hid
    obtain hentry | ⟨hentry, -⟩ := (hmem entry).mp hentry
    · simp only [source, List.mem_cons, List.not_mem_nil, or_false] at hentry
      obtain rfl | rfl := hentry
      · exact .inl rfl
      · exact .inr (.inl rfl)
    · obtain hid | hid := (h.mem_ids entry.id).mp (List.mem_map_of_mem hentry)
      · exact .inl hid
      · exact .inr (.inr hid)
  · intro id hid
    by_cases hsource : id ∈ source.versions.map Entry.id
    · obtain ⟨entry, hentry, rfl⟩ := List.mem_map.mp hsource
      exact List.mem_map_of_mem ((hmem entry).mpr (.inl hentry))
    · obtain ⟨entry, hentry, rfl⟩ := List.mem_map.mp ((h.mem_ids id).mpr hid)
      exact List.mem_map_of_mem ((hmem entry).mpr (.inr ⟨hentry, hsource⟩))
  · intro entry hentry
    obtain hentry | ⟨hentry, -⟩ := (hmem entry).mp hentry
    · exact sound_source entry hentry
    · exact h.sound entry hentry

theorem sound_newEntry
    (h : hasReleasePrefix decimal version = true → isSemver decimal version = true) :
    (newEntry decimal version).Sound decimal := by
  refine ⟨?_, rfl, rfl, ?_⟩
  · intro hkind
    apply h
    by_contra hle
    rw [newEntry, if_neg hle] at hkind
    cases hkind
  · intro hkind
    simp only [newEntry] at hkind
    split at hkind <;> cases hkind

theorem mem_ids_addVersion :
    id ∈ (addVersion decimal version versions).map Entry.id ↔
      id = version ∨ id ∈ versions.map Entry.id := by
  rw [addVersion]
  split_ifs with h
  · constructor
    · exact .inr
    · rintro (rfl | hid)
      · exact h
      · exact hid
  · rw [List.map_append, List.mem_append, or_comm]
    simp [newEntry]

theorem nodup_addVersion (h : (versions.map Entry.id).Nodup) :
    ((addVersion decimal version versions).map Entry.id).Nodup := by
  rw [addVersion]
  split_ifs with hmem
  · exact h
  · rw [List.map_append]
    refine h.append (by simp) ?_
    simpa [newEntry] using hmem

theorem sound_addVersion (h : ∀ entry ∈ versions, entry.Sound decimal)
    (hrelease : hasReleasePrefix decimal version = true → isSemver decimal version = true) :
    ∀ entry ∈ addVersion decimal version versions, entry.Sound decimal := by
  intro entry hentry
  rw [addVersion] at hentry
  split_ifs at hentry
  · exact h entry hentry
  · obtain hentry | hentry := List.mem_append.mp hentry
    · exact h entry hentry
    · rw [List.mem_singleton.mp hentry]
      exact sound_newEntry hrelease

@[simp] theorem map_id_setTarget : (setTarget target versions).map Entry.id = versions.map Entry.id := by
  rw [setTarget, List.map_map]
  apply List.map_congr_left
  intro entry _
  simp only [Function.comp_apply]
  split_ifs <;> rfl

theorem sound_setTarget (h : ∀ entry ∈ versions, entry.Sound decimal) :
    ∀ entry ∈ setTarget target versions, entry.Sound decimal := by
  intro entry hentry
  obtain ⟨old, hold, rfl⟩ := List.mem_map.mp hentry
  have hsound := h old hold
  split_ifs
  · exact ⟨hsound.release, hsound.bookBase, hsound.apiBase, hsound.alias_id⟩
  · exact hsound

theorem target_setTarget :
    ∀ entry ∈ setTarget target versions, entry.id = latest → entry.target = some target := by
  intro entry hentry hid
  obtain ⟨old, -, rfl⟩ := List.mem_map.mp hentry
  split_ifs at hid ⊢
  · rfl
  · contradiction

theorem mem_ids_dropMissing :
    id ∈ (dropMissing site version versions).map Entry.id ↔
      id ∈ versions.map Entry.id ∧ (id = latest ∨ versionExists site id version = true) := by
  simp only [dropMissing, List.mem_map, List.mem_filter, Bool.or_eq_true, decide_eq_true_eq]
  constructor
  · rintro ⟨entry, ⟨hentry, hkeep⟩, rfl⟩
    exact ⟨⟨entry, hentry, rfl⟩, hkeep⟩
  · rintro ⟨⟨entry, hentry, rfl⟩, hkeep⟩
    exact ⟨entry, ⟨hentry, hkeep⟩, rfl⟩

theorem ids_updateManifest {latestVersion : Text} :
    (updateManifest decimal site version latestVersion data).ids =
      (dropMissing site version
        (setTarget latestVersion (addVersion decimal version data.versions))).map Entry.id := by
  rw [updateManifest]
  split_ifs
  · rfl
  · exact map_id_setTarget

theorem Laid.not_deployed_latest (h : Laid runs site) : ¬ (lastBook runs latest).isSome := by
  intro hlatest
  obtain ⟨-, hfree⟩ := h.named hlatest
  exact hfree.1 latest List.mem_cons_self (by decide)

variable {run : Run} {latestVersion : Text}

/-- The book of the run is already in its place on `site`. -/
theorem mem_ids_updateManifest (h : Loaded decimal runs data) (hlaid : Laid (runs ++ [run]) site) :
    id ∈ (updateManifest decimal site run.version latestVersion data).ids ↔
      id = latest ∨ (lastBook (runs ++ [run]) id).isSome := by
  rw [ids_updateManifest, mem_ids_dropMissing, map_id_setTarget, mem_ids_addVersion, versionExists,
    Bool.or_eq_true, decide_eq_true_eq]
  constructor
  · rintro ⟨hid, hlatest | hversion | hpresent⟩
    · exact .inl hlatest
    · exact .inr (isSome_lastBook_snoc.mpr (.inl hversion))
    · obtain hversion | hid := hid
      · exact .inr (isSome_lastBook_snoc.mpr (.inl hversion))
      · obtain hlatest | rfl | hdeployed := h.listed id hid
        · exact .inl hlatest
        · refine .inr (hlaid.main_deployed ?_ hpresent)
          rw [parts_main]
          exact List.prefix_append _ _
        · exact .inr (isSome_lastBook_snoc.mpr (.inr hdeployed))
  · rintro (hlatest | hdeployed)
    · exact ⟨.inr (h.complete id (.inl hlatest)), .inl hlatest⟩
    · refine ⟨?_, .inr (.inr (hlaid.present_index hdeployed))⟩
      obtain hversion | hid := isSome_lastBook_snoc.mp hdeployed
      · exact .inl hversion
      · exact .inr (h.complete id (.inr hid))

theorem described_updateManifest (h : Loaded decimal runs data)
    (hlaid : Laid (runs ++ [run]) site)
    (hrelease : hasReleasePrefix decimal run.version = true →
      isSemver decimal run.version = true) :
    Described decimal (runs ++ [run])
      (updateManifest decimal site run.version latestVersion data) where
  default := by
    rw [updateManifest]
    split_ifs <;> exact h.default
  unique := by
    rw [ids_updateManifest]
    refine (List.filter_sublist.map Entry.id).nodup ?_
    rw [map_id_setTarget]
    exact nodup_addVersion h.unique
  mem_ids _ := mem_ids_updateManifest h hlaid
  sound := by
    have hkept : ∀ entry ∈ dropMissing site run.version
        (setTarget latestVersion (addVersion decimal run.version data.versions)),
        entry.Sound decimal := by
      intro entry hentry
      exact sound_setTarget (sound_addVersion h.sound hrelease) entry (List.mem_of_mem_filter hentry)
    rw [updateManifest]
    split_ifs
    · exact hkept
    · exact sound_setTarget hkept
  target := by
    rw [updateManifest]
    split_ifs
    · intro entry hentry
      exact target_setTarget entry (List.mem_of_mem_filter hentry)
    · exact target_setTarget

/-- The recorded latest version is the one asked for, if it is listed. -/
theorem latest_updateManifest (h : Loaded decimal runs data) (hlaid : Laid (runs ++ [run]) site) :
    (updateManifest decimal site run.version latestVersion data).latest =
      if latestVersion = latest ∨ (lastBook (runs ++ [run]) latestVersion).isSome then latestVersion
      else run.version := by
  have hmem : latestVersion ∈
      (updateManifest decimal site run.version latestVersion data).ids ↔
        latestVersion = latest ∨ (lastBook (runs ++ [run]) latestVersion).isSome :=
    mem_ids_updateManifest h hlaid
  rw [ids_updateManifest] at hmem
  rw [updateManifest]
  split_ifs with hids hlisted hlisted
  · rfl
  · exact absurd (hmem.mp hids) hlisted
  · exact absurd (hmem.mpr hlisted) hids
  · rfl

theorem manifestErrors_eq_nil (h : Described decimal runs data)
    (hlatest : (lastBook runs data.latest).isSome) : manifestErrors decimal data = [] := by
  have hids : data.latest ∈ data.ids := (h.mem_ids _).mpr (.inr hlatest)
  have hdefault : data.default ∈ data.ids := by
    rw [h.default]
    exact (h.mem_ids _).mpr (.inl rfl)
  have hne : data.versions ≠ [] := by
    intro hnil
    rw [Manifest.ids, hnil] at hids
    cases hids
  have hentries : data.versions.flatMap (entryErrors decimal data.ids) = [] := by
    rw [List.flatMap_eq_nil_iff]
    intro entry hentry
    have hsound := h.sound entry hentry
    have hrelease : ¬ (entry.kind = .release ∧ ¬ isSemver decimal entry.id = true) :=
      fun hkind => hkind.2 (hsound.release hkind.1)
    have halias : ¬ (entry.kind = .alias ∧ ¬ entry.target.any (· ∈ data.ids) = true) := by
      rintro ⟨hkind, htarget⟩
      rw [h.target entry hentry (hsound.alias_id hkind)] at htarget
      exact htarget (by simpa using hids)
    rw [entryErrors, if_neg hrelease, if_pos hsound.bookBase, if_pos hsound.apiBase, if_neg halias]
    rfl
  rw [manifestErrors, if_neg hne, if_pos hdefault, if_pos hids, hentries]
  rfl

theorem indexErrors_eq_nil (h : Described decimal runs data) (hlaid : Laid runs site)
    (hindex : present site [indexHtml] = true) (hversions : present site [versionsJson] = true) :
    indexErrors site data = [] := by
  have hids : data.ids.filter (fun id => id ≠ latest ∧
      ¬ present site (parts id ++ [indexHtml])) = [] := by
    rw [List.filter_eq_nil_iff]
    intro id hid
    obtain hlatest | hdeployed := (h.mem_ids id).mp hid
    · simp [hlatest]
    · simp [hlaid.present_index hdeployed]
  have hmain : ¬ (present site [main] = true ∧ ¬ present site [main, indexHtml] = true) := by
    rintro ⟨hpresent, hno⟩
    have hdeployed := hlaid.main_deployed List.prefix_rfl hpresent
    have hpresent := hlaid.present_index hdeployed
    rw [parts_main] at hpresent
    exact hno hpresent
  rw [indexErrors, if_pos hindex, if_pos hversions, hids, if_neg hmain]
  rfl

end Merge

/-! ## §5 A run -/

/-- The state of the site after some runs. -/
structure Inv (decimal : Char → Bool) (runs : List Run) (site : Files) (data : Manifest) :
    Prop where
  laid : Laid runs site
  stored : site [versionsJson] = some (.file (.manifest data))
  index : present site [indexHtml] = true
  described : Described decimal runs data
  deployed : (lastBook runs data.latest).isSome
  present_latest : present site [latest] = true
  leads : Leads site data.latest

section Step

variable {decimal : Char → Bool} {runs : List Run} {data : Manifest} {site : Files} {run : Run}
  {version : Text}

theorem Inv.consistent (h : Inv decimal runs site data) : Consistent decimal runs site data where
  stored := h.stored
  manifest_ok := manifestErrors_eq_nil h.described h.deployed
  index_ok := indexErrors_eq_nil h.described h.laid h.index (by rw [present, h.stored]; rfl)
  unique := h.described.unique
  listed v book hbook := by
    obtain ⟨-, -, hbelow⟩ := h.laid.copied v book hbook
    exact ⟨(h.described.mem_ids v).mpr (.inr (by simp [hbook])), hbelow⟩
  latest := ⟨h.deployed, h.leads⟩

/-- What holds before a run. -/
inductive Ready (decimal : Char → Bool) : List Run → Files → Prop
  | empty : Ready decimal [] emptyDirectory
  | after {runs : List Run} {site : Files} {data : Manifest} :
      Inv decimal runs site data → Ready decimal runs site

theorem Ready.laid (h : Ready decimal runs site) : Laid runs site := by
  cases h with
  | empty => exact .empty
  | after h => exact h.laid

theorem Ready.mem_deployed (h : Ready decimal runs site) :
    version ∈ deployed site ↔ (lastBook runs version).isSome := by
  cases h with
  | empty => simp [deployed, emptyDirectory]
  | after h =>
    simp only [deployed, h.stored, List.mem_filter, h.described.mem_ids, decide_eq_true_eq]
    constructor
    · rintro ⟨hlatest | hdeployed, hne⟩
      · exact absurd hlatest hne
      · exact hdeployed
    · intro hdeployed
      refine ⟨.inr hdeployed, ?_⟩
      rintro rfl
      exact h.laid.not_deployed_latest hdeployed

/-- The manifest that a run reads, once the book is copied. -/
theorem Ready.loadManifest (h : Ready decimal runs site) {site' : Files}
    (hsame : site' [versionsJson] = site [versionsJson]) :
    ∃ data, loadManifest site' = some data ∧ Loaded decimal runs data := by
  cases h with
  | empty =>
    refine ⟨source, ?_, loaded_source⟩
    rw [Site.loadManifest, hsame]
    rfl
  | after h =>
    refine ⟨_, ?_, h.described.merged⟩
    rw [Site.loadManifest, hsame, h.stored]

theorem leads_congr {site' : Files} (hlatest : below [latest] site' = below [latest] site)
    (hversion : below (parts version) site' = below (parts version) site) :
    Leads site' version ↔ Leads site version := by
  have hindex : site' [latest, indexHtml] = site [latest, indexHtml] :=
    congrFun hlatest [indexHtml]
  rw [Leads, Leads, hlatest, hversion, hindex]

/-- What a run has done before it writes `latest/`. -/
structure Prepared (decimal : Char → Bool) (runs : List Run) (run : Run) (site site' : Files)
    (data : Manifest) : Prop where
  laid : Laid (runs ++ [run]) site'
  described : Described decimal (runs ++ [run]) data
  stored : site' [versionsJson] = some (.file (.manifest data))
  index : present site' [indexHtml] = true
  same : below [latest] site' = below [latest] site
  latest : data.latest =
    if run.requested = latest ∨ (lastBook (runs ++ [run]) run.requested).isSome then run.requested
    else run.version
  rest : assemble decimal site run = writeLatest run data.latest site'

theorem Ready.prepared (h : Ready decimal runs site) (hsafe : SafeName decimal site run) :
    ∃ site' data, Prepared decimal runs run site site' data := by
  have hapart : ∀ v, (lastBook runs v).isSome →
      parts v <+: parts run.version ∨ parts run.version <+: parts v → v = run.version :=
    fun v hv => hsafe.apart v (h.mem_deployed.mpr hv)
  obtain ⟨hnot, hnot'⟩ := hsafe.unreserved.apart run.version_isName versionsJson
    (by decide)
  obtain ⟨hlatest, hlatest'⟩ := hsafe.unreserved.apart run.version_isName latest
    (by decide)
  obtain ⟨site₁, hcopy, hsite₁, hlaid₁⟩ := h.laid.copy hsafe.unreserved hapart
  have hsame : site₁ [versionsJson] = site [versionsJson] := by
    rw [hsite₁, graft_apart hnot' hnot]
  obtain ⟨data, hload, hloaded⟩ := h.loadManifest hsame
  let data' := updateManifest decimal site₁ run.version run.requested data
  obtain ⟨site₂, hwrite₂, hsite₂, hlaid₂⟩ := hlaid₁.write versionsJson (by decide)
    (.manifest data')
  obtain ⟨site₃, hwrite₃, hsite₃, hlaid₃⟩ := hlaid₂.write indexHtml (by decide)
    (.page (redirect "latest/".toList))
  refine ⟨site₃, data', hlaid₃, described_updateManifest hloaded hlaid₁ hsafe.release, ?_, ?_, ?_,
    latest_updateManifest hloaded hlaid₁, ?_⟩
  · rw [hsite₃, Function.update_of_ne (by decide), hsite₂, Function.update_self]
  · rw [present, hsite₃, Function.update_self]
    rfl
  · rw [hsite₃, below_update (by decide), hsite₂, below_update (by decide), hsite₁,
      below_graft_apart hlatest' hlatest]
  · simp only [assemble, hcopy, hload, Option.bind_eq_bind, Option.bind_some]
    rw [hwrite₂, Option.bind_some, hwrite₃, Option.bind_some]

/-- A version that was deployed before the run is as it was. -/
theorem Prepared.below_eq {site' : Files} (h : Prepared decimal runs run site site' data)
    (hlaid : Laid runs site) (hne : version ≠ run.version) (hv : (lastBook runs version).isSome) :
    below (parts version) site' = below (parts version) site := by
  obtain ⟨book, hbook⟩ := Option.isSome_iff_exists.mp hv
  obtain ⟨-, -, hbelow⟩ := hlaid.copied version book hbook
  obtain ⟨-, -, hbelow'⟩ := h.laid.copied version book (by rw [lastBook_snoc, if_neg hne.symm, hbook])
  rw [hbelow, hbelow']

theorem Ready.step (h : Ready decimal runs site) (hsafe : Safe decimal site run) :
    ∃ site' data, assemble decimal site run = some site' ∧
      Inv decimal (runs ++ [run]) site' data := by
  obtain ⟨site₁, data, hprep⟩ := h.prepared hsafe.1
  have hdeployed : (lastBook (runs ++ [run]) data.latest).isSome := by
    rw [hprep.latest]
    split_ifs with hlisted
    · exact hlisted.resolve_left hsafe.2.1
    · exact isSome_lastBook_snoc.mpr (.inl rfl)
  rw [hprep.rest, writeLatest]
  by_cases hversion : run.version = data.latest
  · obtain ⟨site₂, hcopy, hsite₂, hlaid₂⟩ := hprep.laid.copyLatest run.book
    have hbook : lastBook (runs ++ [run]) run.version = some run.book := by
      rw [lastBook_snoc, if_pos rfl]
    obtain ⟨-, -, hbelow⟩ := hlaid₂.copied _ _ hbook
    rw [if_pos hversion]
    refine ⟨site₂, data, hcopy, hlaid₂, ?_, ?_, hprep.described, hdeployed, ?_, .inl ?_⟩
    · rw [hsite₂, graft_apart (by decide) (by decide), hprep.stored]
    · rw [present, hsite₂, graft_apart (by decide) (by decide)]
      exact hprep.index
    · have hroot : below [latest] site₂ [] = run.book.files [] := by
        rw [hsite₂, below_graft_self]
      rw [below, run.book.directory] at hroot
      rw [present, ← List.append_nil [latest], hroot]
      rfl
    · rw [← hversion, hbelow, hsite₂, below_graft_self]
  · -- the latest version is an older one, to which latest/ leads already
    have hlatest : data.latest = run.requested := by
      have := hprep.latest
      split_ifs at this
      · exact this
      · exact absurd this.symm hversion
    rw [hlatest] at hdeployed hversion
    have hold := (isSome_lastBook_snoc.mp hdeployed).resolve_left (Ne.symm hversion)
    have hleads : Leads site run.requested := by
      obtain heq | hnot | hleads := hsafe.2.2
      · exact absurd heq.symm hversion
      · exact absurd (h.mem_deployed.mpr hold) hnot
      · exact hleads
    cases h with
    | empty => cases hold
    | after h =>
      have hpresent : present site₁ [latest] = true := by
        have hroot : site₁ [latest] = site [latest] := congrFun hprep.same []
        rw [present, hroot]
        exact h.present_latest
      rw [hlatest, if_neg hversion, if_pos hpresent]
      refine ⟨site₁, data, rfl, hprep.laid, hprep.stored, hprep.index, hprep.described, ?_, hpresent,
        ?_⟩
      · rwa [hlatest]
      · rw [hlatest, leads_congr hprep.same (hprep.below_eq h.laid (Ne.symm hversion) hold)]
        exact hleads

theorem writeLatest_stored {latestVersion : Text} {site' : Files}
    (h : writeLatest run latestVersion site = some site') :
    site' [versionsJson] = site [versionsJson] := by
  rw [writeLatest] at h
  split_ifs at h
  · rw [eq_graft_of_copyTree h, graft_apart (by decide) (by decide)]
  · cases h
    rfl
  · obtain ⟨site₁, hcopy, hwrite⟩ := Option.bind_eq_some_iff.mp h
    rw [eq_update_of_writeFile hwrite, Function.update_of_ne (by decide), eq_graft_of_copyTree hcopy,
      graft_apart (by decide) (by decide)]

/-- Making another version the latest one, without deploying it, leaves `latest/` behind. -/
theorem Ready.not_consistent (h : Ready decimal runs site) (hsafe : SafeName decimal site run)
    (hlatest : ¬ SafeLatest site run) {site' : Files} (hrun : assemble decimal site run = some site') :
    ¬ ∃ data, Consistent decimal (runs ++ [run]) site' data := by
  rintro ⟨data', hconsistent⟩
  obtain ⟨site₁, data, hprep⟩ := h.prepared hsafe
  rw [hprep.rest] at hrun
  have hdata : data' = data := by
    have hstored := hconsistent.stored
    rw [writeLatest_stored hrun, hprep.stored] at hstored
    cases hstored
    rfl
  subst hdata
  obtain ⟨hdeployed, hleads⟩ := hconsistent.latest
  have hrequested := hprep.latest
  by_cases halias : run.requested = latest
  · rw [if_pos (.inl halias), halias] at hrequested
    rw [hrequested] at hdeployed
    exact hprep.laid.not_deployed_latest hdeployed
  · simp only [SafeLatest, not_and_or, not_or, not_not, ne_eq, halias, false_or] at hlatest
    obtain ⟨hversion, hold, hnot⟩ := hlatest
    rw [h.mem_deployed] at hold
    rw [if_pos (.inr (isSome_lastBook_snoc.mpr (.inr hold)))] at hrequested
    cases h with
    | empty => cases hold
    | after h =>
      have hpresent : present site₁ [latest] = true := by
        have hroot : site₁ [latest] = site [latest] := congrFun hprep.same []
        rw [present, hroot]
        exact h.present_latest
      rw [writeLatest, hrequested, if_neg (Ne.symm hversion), if_pos hpresent] at hrun
      cases hrun
      rw [hrequested, leads_congr hprep.same (hprep.below_eq h.laid hversion hold)] at hleads
      exact hnot hleads

end Step

/-! ## §6 Histories -/

open HisiRiscv.Machine

section Histories

variable {decimal : Char → Bool} {runs : List Run} {site : Files}

theorem ready_of_steps (h : Steps (assemble decimal) (Safe decimal) emptyDirectory runs site) :
    Ready decimal runs site := by
  induction h with
  | nil => exact .empty
  | snoc _ hsafe hrun ih =>
    obtain ⟨site', data, hstep, hinv⟩ := ih.step hsafe
    rw [hstep] at hrun
    cases hrun
    exact .after hinv

/-- After any history of safe runs the site is consistent, and the next safe run succeeds. A run that
is safe but for the version it makes the latest one leaves an inconsistent site. -/
theorem site_consistent (h : Steps (assemble decimal) (Safe decimal) emptyDirectory runs site) :
    (runs ≠ [] → ∃ data, Consistent decimal runs site data) ∧
      (∀ run, Safe decimal site run → (assemble decimal site run).isSome) ∧
      ∀ run site', SafeName decimal site run → ¬ SafeLatest site run →
        assemble decimal site run = some site' →
          ¬ ∃ data, Consistent decimal (runs ++ [run]) site' data := by
  have hready := ready_of_steps h
  refine ⟨?_, ?_, ?_⟩
  · intro hne
    cases hready with
    | empty => exact absurd rfl hne
    | after hinv => exact ⟨_, hinv.consistent⟩
  · intro run hsafe
    obtain ⟨site', data, hstep, -⟩ := hready.step hsafe
    rw [hstep]
    rfl
  · intro run site' hname hlatest hrun
    exact hready.not_consistent hname hlatest hrun

end Histories

/-- A book of one page. -/
def onePage (page : List UInt8) : Book where
  files path :=
    if path = [] then some .directory
    else if path = [indexHtml] then some (.file (.bytes page))
    else none
  directory := rfl
  index := rfl

def release : Text := "v1.0.0".toList

def deployMain (latestVersion : Option Text) : Run :=
  ⟨main, isName_main, latestVersion, onePage [77]⟩

def deployRelease (latestVersion : Option Text) : Run :=
  ⟨release, by decide, latestVersion, onePage [82]⟩

theorem site_consistent_mainThenRelease :
    ∃ site, Steps (assemble Char.isDigit) (Safe Char.isDigit) emptyDirectory
        [deployMain none, deployRelease (some release)] site ∧
      ∃ data, Consistent Char.isDigit [deployMain none, deployRelease (some release)] site data := by
  have hsafe₁ : Safe Char.isDigit emptyDirectory (deployMain none) := by
    refine ⟨⟨⟨by decide, fun _ => rfl⟩, ?_, by decide⟩, by decide, .inl rfl⟩
    intro version hversion
    cases hversion
  have hready₀ : Ready Char.isDigit [] emptyDirectory := .empty
  obtain ⟨site₁, data₁, hrun₁, hinv₁⟩ := hready₀.step hsafe₁
  have hready₁ : Ready Char.isDigit [deployMain none] site₁ := .after hinv₁
  have hsafe₂ : Safe Char.isDigit site₁ (deployRelease (some release)) := by
    refine ⟨⟨⟨by decide, by decide⟩, ?_, by decide⟩, by decide, .inl rfl⟩
    intro version hversion hle
    have hdeployed : (lastBook ([] ++ [deployMain none]) version).isSome :=
      hready₁.mem_deployed.mp hversion
    obtain rfl | hversion := isSome_lastBook_snoc.mp hdeployed
    · exact absurd hle (by decide)
    · cases hversion
  obtain ⟨site₂, data₂, hrun₂, -⟩ := hready₁.step hsafe₂
  have hsteps : Steps (assemble Char.isDigit) (Safe Char.isDigit) emptyDirectory
      [deployMain none, deployRelease (some release)] site₂ :=
    .snoc (.snoc .nil hsafe₁ hrun₁) hsafe₂ hrun₂
  exact ⟨site₂, hsteps, (site_consistent hsteps).1 (by simp)⟩

/-- The main branch is deployed, then a release that is not to be the latest version, then the main branch
again with the release as the latest version. -/
def lateLatest : List Run :=
  [deployMain none, deployRelease (some main), deployMain (some release)]

def bytesAt (site : Files) (path : List Text) : Option (List UInt8) :=
  match site path with
  | some (.file (.bytes data)) => some data
  | _ => none

def recordedLatest (site : Files) : Option Text :=
  match site [versionsJson] with
  | some (.file (.manifest data)) => some data.latest
  | _ => none

theorem lateLatest_runs :
    ((run (assemble Char.isDigit) emptyDirectory lateLatest).map fun site =>
      (recordedLatest site, bytesAt site [latest, indexHtml])) = some (some release, some [77]) := by
  decide +kernel

theorem not_site_consistent :
    ¬ ∀ (decimal : Char → Bool) (runs : List Run), runs ≠ [] →
      ∃ site data, run (assemble decimal) emptyDirectory runs = some site ∧
        Consistent decimal runs site data := by
  intro h
  obtain ⟨site, data, hrun, hconsistent⟩ := h Char.isDigit lateLatest (by simp [lateLatest])
  have hobserved := lateLatest_runs
  rw [hrun, Option.map_some, Option.some.injEq, Prod.mk.injEq, recordedLatest,
    hconsistent.stored] at hobserved
  obtain ⟨hlatest, hbytes⟩ := hobserved
  have hdata : data.latest = release := Option.some.inj hlatest
  obtain ⟨-, hleads⟩ := hconsistent.latest
  rw [hdata] at hleads
  have hbook : lastBook lateLatest release = some (onePage [82]) := rfl
  obtain ⟨-, hbelow⟩ := hconsistent.listed release _ hbook
  obtain hsame | hredirect := hleads
  · have hindex : site [latest, indexHtml] = some (.file (.bytes [82])) := by
      rw [hbelow] at hsame
      exact congrFun hsame [indexHtml]
    rw [bytesAt, hindex] at hbytes
    exact absurd hbytes (by decide)
  · rw [bytesAt, hredirect] at hbytes
    cases hbytes

end HisiRiscv.Docs.Site
