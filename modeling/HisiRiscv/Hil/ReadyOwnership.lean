/-
HisiRiscv.Hil.ReadyOwnership — the ownership counters of a log whose last line is cut.

`parse_ready_ownership` takes of each counter the newest value that a line of the log has
(`get_snapshotLoop`), and a line that is cut within the digits of a counter has a value
of it: that of the digits that are left. So the newest complete value survives the cut
unless it leaves some but not all digits, and these digits are another number than
the line before has (`survives_iff`).

  §1 The newest value of a field.
  §2 Printed logs.
  §3 What is parsed of a printed log.
  §4 The cut.
-/
import HisiRiscv.Hil.DiagnosticLine

namespace HisiRiscv.Hil.RustContract

open PyText PyNumber

/-! ## §1 The newest value of a field -/

section Newest

variable {snapshot fields : List (Text × ℕ)} {field : Text}

/-- One turn of the loop over the fields. -/
def fillField (fields snapshot : List (Text × ℕ)) (field : Text) : List (Text × ℕ) :=
  match get snapshot field, get fields field with
  | none, some value => snapshot ++ [(field, value)]
  | _, _ => snapshot

theorem get_fillField (key : Text) : get (fillField fields snapshot field) key =
    if key = field then (get snapshot key).or (get fields key) else get snapshot key := by
  rw [fillField]
  split
  · rename_i value hold hnew
    rw [get_concat]
    split
    · rename_i hkey
      rw [hkey, hold, hnew, Option.none_or]
    · rfl
  · rename_i hother
    split
    · rename_i hkey
      subst hkey
      cases hold : get snapshot key with
      | some value => rfl
      | none =>
        cases hnew : get fields key with
        | none => rfl
        | some value => exact absurd hnew (hother value hold)
    · rfl

theorem get_foldl_fillField (snapshot fields : List (Text × ℕ)) (names : List Text) (key : Text) :
    get (names.foldl (fillField fields) snapshot) key =
      if key ∈ names then (get snapshot key).or (get fields key) else get snapshot key := by
  induction names generalizing snapshot with
  | nil => rfl
  | cons name names ih =>
    rw [List.foldl_cons, ih, get_fillField]
    by_cases hname : key = name
    · subst hname
      rw [if_pos rfl, if_pos List.mem_cons_self, Option.or_assoc, Option.or_self, ite_self]
    · simp only [hname, if_false, List.mem_cons, false_or]

theorem get_fillSnapshot (snapshot fields : List (Text × ℕ)) (h : field ∈ readyOwnershipFields) :
    get (fillSnapshot snapshot fields) field = (get snapshot field).or (get fields field) := by
  have hfold := get_foldl_fillField snapshot fields readyOwnershipFields field
  rwa [if_pos h] at hfold

/-- The newest line that has the field. -/
theorem get_snapshotLoop {lines : List Bytes} (h : field ∈ readyOwnershipFields) :
    get (snapshotLoop snapshot lines) field =
      (get snapshot field).or (lines.findSome? fun line => get (parseHexFields line) field) := by
  induction lines generalizing snapshot with
  | nil => rw [snapshotLoop, List.findSome?_nil, Option.or_none]
  | cons line lines ih =>
    have hfill := get_fillSnapshot snapshot (parseHexFields line) h
    have hnewest : ((line :: lines).findSome? fun line => get (parseHexFields line) field) =
        (get (parseHexFields line) field).or
          (lines.findSome? fun line => get (parseHexFields line) field) := by
      rw [List.findSome?_cons]
      cases get (parseHexFields line) field <;> rfl
    rw [snapshotLoop, hnewest, ← Option.or_assoc, ← hfill]
    split
    · rename_i hall
      obtain ⟨value, hvalue⟩ := Option.isSome_iff_exists.mp (List.all_eq_true.mp hall field h)
      rw [hvalue, Option.some_or]
    · exact ih

end Newest

/-! ## §2 Printed logs -/

abbrev Counters : Type := Text → UInt32

/-- What all snapshot lines of a log have in common. -/
structure Layout where
  word : Text
  names : List Text
  newline : Bytes
  scheduler : word = "RFDBG_A5B_SCHED".toList ∨ word = "RFDBG_SOFTAP_SCHED".toList
  plain : ∀ name ∈ names, PlainName name
  distinct : names.Nodup
  counters : ∀ field ∈ readyOwnershipFields, field ∈ names
  lineEnd : newline = [10] ∨ newline = [13, 10]

namespace Layout

variable (l : Layout) (snapshots : List Counters) (last : Counters) (n : ℕ)

def line (c : Counters) : Bytes := PyBytes.encode (printedLine l.word l.names c)

/-- The last line is cut after `n` bytes. -/
def log : Bytes :=
  ((snapshots.map l.line).flatMap fun line => line ++ l.newline) ++ (l.line last).take n

/-- How many digits of the field the cut leaves. -/
def left (field : Text) : ℕ := digitsLeft l.names field (n - l.word.length)

/-- The value of the newest line in which the field is complete. -/
def newestComplete (field : Text) : Option UInt32 :=
  if l.left n field = 8 then some (last field) else snapshots.getLast?.map fun c => c field

/-- What a line of the layout begins with. -/
def head : Bytes := wordHead l.word

/-- The snapshot lines, the newest first. -/
def newestFirst : List Bytes :=
  (if l.word.length < n then [(l.line last).take n] else []) ++ (snapshots.map l.line).reverse

variable {l snapshots last n}

theorem head_eq : l.head = a5bSchedHead ∨ l.head = softapSchedHead := by
  rw [head]
  rcases l.scheduler with h | h
  · exact .inl (by rw [h]; rfl)
  · exact .inr (by rw [h]; rfl)

theorem names_ne_nil : l.names ≠ [] :=
  List.ne_nil_of_mem (l.counters "ready_dup".toList (by decide))

theorem plain_word : ∀ c ∈ l.word, c.toNat < 128 ∧ isSpace c = false := by
  rcases l.scheduler with h | h
  · rw [h]
    simp [isSpace]
  · rw [h]
    simp [isSpace]

theorem word_ne_nil : l.word ≠ [] := by
  rcases l.scheduler with h | h
  · rw [h]
    decide
  · rw [h]
    decide

theorem head_prefix_line (c : Counters) : l.head <+: l.line c := wordHead_prefix_line l.word c names_ne_nil

theorem head_prefix_take (c : Counters) : l.head <+: (l.line c).take n ↔ l.word.length < n :=
  wordHead_prefix_take l.word c names_ne_nil

/-- The heads of the two layouts are not prefixes of one line. -/
theorem head_of_prefix {x : Bytes} {c : Counters} (hx : x <+: l.line c)
    (h : a5bSchedHead <+: x ∨ softapSchedHead <+: x) : l.head <+: x := by
  have both : ∀ {h}, h <+: x → h <+: l.head ∨ l.head <+: h := fun hpre =>
    List.prefix_or_prefix_of_prefix (hpre.trans hx) (head_prefix_line c)
  rcases head_eq (l := l) with heq | heq <;> rcases h with h | h
  · rwa [heq]
  · have := both h
    rw [heq] at this
    exact absurd this (by decide)
  · have := both h
    rw [heq] at this
    exact absurd this (by decide)
  · rwa [heq]

/-! ## §3 What is parsed of a printed log -/

theorem not_newline_of_not_space {c : Char} (h : c.toNat < 128 ∧ isSpace c = false) :
    PyBytes.isNewline (UInt8.ofNat c.toNat) = false := by
  obtain ⟨hc, hspace⟩ := h
  rw [PyBytes.isNewline, Bool.or_eq_false_iff, beq_eq_false_iff_ne, beq_eq_false_iff_ne]
  have hn : (UInt8.ofNat c.toNat).toNat = c.toNat := by
    rw [UInt8.toNat_ofNat']
    omega
  constructor
  · intro h
    have : c.toNat = 10 := by rw [← hn, h]; rfl
    simp [isSpace, this] at hspace
  · intro h
    have : c.toNat = 13 := by rw [← hn, h]; rfl
    simp [isSpace, this] at hspace

theorem not_newline (c : Counters) : ∀ b ∈ l.line c, PyBytes.isNewline b = false := by
  intro b hb
  obtain ⟨char, hchar, rfl⟩ := List.mem_map.mp hb
  rcases List.mem_append.mp hchar with hchar | hchar
  · exact not_newline_of_not_space (plain_word char hchar)
  · obtain ⟨name, hname, hchar⟩ := List.mem_flatMap.mp hchar
    rcases List.mem_cons.mp hchar with rfl | hchar
    · rfl
    · exact not_newline_of_not_space (plain_fieldToken (l.plain name hname) char hchar)

theorem splitlines_log : PyBytes.splitlines (l.log snapshots last n) =
    snapshots.map l.line ++ if (l.line last).take n = [] then [] else [(l.line last).take n] := by
  refine PyBytes.splitlines_unlines ?_ (fun b hb => not_newline last b (List.mem_of_mem_take hb))
    l.lineEnd
  intro line hline
  obtain ⟨c, -, rfl⟩ := List.mem_map.mp hline
  exact not_newline c

/-- Every line of the log is a part of a snapshot line. -/
theorem prefix_of_mem_log {x : Bytes} (hx : x ∈ PyBytes.splitlines (l.log snapshots last n)) :
    ∃ c, x <+: l.line c := by
  rw [splitlines_log] at hx
  rcases List.mem_append.mp hx with hx | hx
  · obtain ⟨c, -, rfl⟩ := List.mem_map.mp hx
    exact ⟨c, List.prefix_rfl⟩
  · split at hx
    · cases hx
    · rw [List.mem_singleton.mp hx]
      exact ⟨last, List.take_prefix n _⟩

theorem filter_head : (PyBytes.splitlines (l.log snapshots last n)).reverse.filter
    (fun x => l.head <+: x) = l.newestFirst snapshots last n := by
  have whole : (snapshots.map l.line).reverse.filter (fun x => decide (l.head <+: x)) =
      (snapshots.map l.line).reverse := by
    refine List.filter_eq_self.mpr fun x hx => ?_
    obtain ⟨c, -, rfl⟩ := List.mem_map.mp (List.mem_reverse.mp hx)
    exact decide_eq_true (head_prefix_line c)
  have hhead := head_prefix_take (l := l) (n := n) last
  rw [splitlines_log, List.reverse_append, List.filter_append, whole, newestFirst]
  congr 1
  split
  · rename_i hnil
    rw [if_neg fun h => ?_, List.reverse_nil, List.filter_nil]
    have := hhead.mpr h
    rw [hnil, List.prefix_nil] at this
    exact absurd (congrArg List.length this) (by rw [head, length_wordHead]; simp)
  · rw [List.reverse_singleton, List.filter_cons, List.filter_nil]
    simp only [hhead, decide_eq_true_eq]

/-- The head that `parse_ready_ownership` looks for selects the lines of the layout. -/
theorem selected_iff {lines : List Bytes} (hlines : ∀ x ∈ lines, ∃ c, x <+: l.line c) {x : Bytes}
    (hx : x ∈ lines) :
    (if lines.any fun line => a5bSchedHead <+: line then a5bSchedHead else softapSchedHead) <+: x ↔
      l.head <+: x := by
  obtain ⟨c, hc⟩ := hlines x hx
  constructor
  · intro h
    split at h
    · exact head_of_prefix hc (.inl h)
    · exact head_of_prefix hc (.inr h)
  · intro h
    rcases head_eq (l := l) with heq | heq
    · rw [heq] at h
      rwa [if_pos (List.any_eq_true.mpr ⟨x, hx, decide_eq_true h⟩)]
    · rw [heq] at h
      rwa [if_neg]
      · intro hany
        obtain ⟨y, hy, hpre⟩ := List.any_eq_true.mp hany
        have hpre := of_decide_eq_true hpre
        obtain ⟨c', hc'⟩ := hlines y hy
        have hhead := head_of_prefix hc' (.inl hpre)
        rw [heq] at hhead
        exact absurd (List.prefix_or_prefix_of_prefix hpre hhead) (by decide)

theorem parseReadyOwnership_log : parseReadyOwnership (l.log snapshots last n) =
    if l.newestFirst snapshots last n = [] then none
    else some (snapshotLoop [] (l.newestFirst snapshots last n)) := by
  rw [parseReadyOwnership, ← filter_head]
  rw [List.filter_congr fun x hx => decide_eq_decide.mpr
    (selected_iff (fun _ => prefix_of_mem_log) (List.mem_reverse.mp hx))]

theorem get_line_take {field : Text} (h : field ∈ readyOwnershipFields) (c : Counters) :
    get (parseHexFields ((l.line c).take n)) field =
      if l.left n field = 0 then none else some ((c field).toNat / 16 ^ (8 - l.left n field)) := by
  rw [line, PyBytes.encode, ← List.map_take, ← PyBytes.encode,
    parseHexFields_take plain_word word_ne_nil l.plain,
    get_cutFields l.distinct (l.counters field h), left]

theorem get_line {field : Text} (h : field ∈ readyOwnershipFields) (c : Counters) :
    get (parseHexFields (l.line c)) field = some (c field).toNat := by
  have hall := get_line_take (l := l) (n := (l.line c).length) h c
  have hleft : l.left (l.line c).length field = 8 := by
    have := valueStart_add_le c (l.counters field h)
    rw [left, digitsLeft, line, PyBytes.encode, List.length_map, printedLine, List.length_append]
    omega
  rwa [List.take_length, hleft, if_neg (by decide), Nat.sub_self, pow_zero, Nat.div_one] at hall

/-- The value that is returned: that of the digits that are left, or of the line before. -/
theorem get_parse {field : Text} (h : field ∈ readyOwnershipFields) :
    (parseReadyOwnership (l.log snapshots last n)).bind (get · field) =
      if l.left n field = 0 then snapshots.getLast?.map fun c => (c field).toNat
      else some ((last field).toNat / 16 ^ (8 - l.left n field)) := by
  have hloop : (parseReadyOwnership (l.log snapshots last n)).bind (get · field) =
      (l.newestFirst snapshots last n).findSome? fun line => get (parseHexFields line) field := by
    rw [parseReadyOwnership_log]
    split
    · rename_i hnil
      rw [hnil]
      rfl
    · rw [Option.bind_some, get_snapshotLoop h, get_nil, Option.none_or]
  have hwhole : ((snapshots.map l.line).reverse.findSome? fun line =>
      get (parseHexFields line) field) = snapshots.getLast?.map fun c => (c field).toNat := by
    rw [← List.map_reverse, List.findSome?_map, List.getLast?_eq_head?_reverse]
    cases snapshots.reverse with
    | nil => rfl
    | cons c _ => rw [List.findSome?_cons, Function.comp_apply, get_line h]; rfl
  rw [hloop, newestFirst, List.findSome?_append, hwhole]
  by_cases hhead : l.word.length < n
  · rw [if_pos hhead, List.findSome?_singleton, get_line_take h]
    split
    · rw [Option.none_or]
    · rw [Option.some_or]
  · have hzero : l.left n field = 0 := by
      rw [left, digitsLeft, Nat.sub_eq_zero_of_le (Nat.le_of_not_lt hhead), Nat.zero_sub, Nat.min_zero]
    rw [if_neg hhead, List.findSome?_nil, Option.none_or, if_pos hzero]

end Layout

/-! ## §4 The cut -/

/-- A violation for a counter, under a role. -/
def Reports (role field : Text) (v : Violation) : Prop :=
  v = ⟨.missing, ownershipDetail role field⟩ ∨
    ∃ value : ℕ, v = ⟨.nonzero, ownershipDetail role field ++ '=' :: (toString value).toList⟩

section Cut

variable (l : Layout) (snapshots : List Counters) (last : Counters) (n : ℕ)

/-- Every value that is returned is the newest complete one, and one that is not zero is
reported. -/
def Survives : Prop :=
  (∀ field ∈ readyOwnershipFields, ∀ value,
    (parseReadyOwnership (l.log snapshots last n)).bind (get · field) = some value →
      (l.newestComplete snapshots last n field).map UInt32.toNat = some value) ∧
  ∀ role, ∀ field ∈ readyOwnershipFields, ∀ value,
    l.newestComplete snapshots last n field = some value → value ≠ 0 →
      ∃ v ∈ validateReadyOwnership (l.log snapshots last n) role, Reports role field v

variable {l snapshots last n}

theorem mem_require_iff {ok : Bool} {kind : Kind} {detail : Text} (v : Violation) :
    v ∈ require ok kind detail ↔ ok = false ∧ v = ⟨kind, detail⟩ := by
  cases ok <;> simp [require]

theorem reports_of_get {log : Bytes} {field : Text} {value : ℕ} (role : Text)
    (h : field ∈ readyOwnershipFields)
    (returned : (parseReadyOwnership log).bind (get · field) = some value) (hvalue : value ≠ 0) :
    ∃ v ∈ validateReadyOwnership log role, Reports role field v := by
  obtain ⟨snapshot, hsnapshot, hget⟩ := Option.bind_eq_some_iff.mp returned
  refine ⟨_, ?_, .inr ⟨value, rfl⟩⟩
  rw [validateReadyOwnership, hsnapshot]
  refine List.mem_flatMap.mpr ⟨field, h, ?_⟩
  rw [hget]
  exact (mem_require_iff _).mpr ⟨by simpa using hvalue, rfl⟩

theorem newestComplete_toNat (field : Text) :
    (l.newestComplete snapshots last n field).map UInt32.toNat =
      if l.left n field = 8 then some (last field).toNat
      else snapshots.getLast?.map fun c => (c field).toNat := by
  rw [Layout.newestComplete]
  split
  · rfl
  · rw [Option.map_map]
    rfl

/-- Only digits that are left without the rest can be read wrong. -/
theorem returned_newest_iff {field : Text} (h : field ∈ readyOwnershipFields) :
    (∀ value, (parseReadyOwnership (l.log snapshots last n)).bind (get · field) = some value →
      (l.newestComplete snapshots last n field).map UInt32.toNat = some value) ↔
    (0 < l.left n field → l.left n field < 8 →
      (snapshots.getLast?.map fun c => (c field).toNat) =
        some ((last field).toNat / 16 ^ (8 - l.left n field))) := by
  have hle : l.left n field ≤ 8 := Nat.min_le_left _ _
  rw [Layout.get_parse h, newestComplete_toNat]
  by_cases hzero : l.left n field = 0
  · rw [if_pos hzero, if_neg (by omega)]
    exact iff_of_true (fun _ => id) fun hpos => absurd hzero hpos.ne'
  · rw [if_neg hzero]
    by_cases hfull : l.left n field = 8
    · rw [if_pos hfull, hfull, Nat.sub_self, pow_zero, Nat.div_one]
      exact iff_of_true (fun _ => id) fun _ hlt => absurd hlt (Nat.lt_irrefl 8)
    · rw [if_neg hfull]
      constructor
      · intro returned _ _
        exact returned _ rfl
      · rintro condition value ⟨⟩
        exact condition (Nat.pos_of_ne_zero hzero) (Nat.lt_of_le_of_ne hle hfull)

/-- A counter that some line has complete is returned. -/
theorem returned_of_newestComplete {field : Text} (h : field ∈ readyOwnershipFields)
    {value : UInt32} (newest : l.newestComplete snapshots last n field = some value) :
    ∃ returned, (parseReadyOwnership (l.log snapshots last n)).bind (get · field) =
      some returned := by
  rw [Layout.get_parse h]
  split
  · rename_i hzero
    rw [Layout.newestComplete, if_neg (by omega)] at newest
    obtain ⟨c, hc, -⟩ := Option.map_eq_some_iff.mp newest
    exact ⟨_, by rw [hc]; rfl⟩
  · exact ⟨_, rfl⟩

theorem survives_iff (l : Layout) (snapshots : List Counters) (last : Counters) (n : ℕ) :
    Survives l snapshots last n ↔
      ∀ field ∈ readyOwnershipFields, 0 < l.left n field → l.left n field < 8 →
        (snapshots.getLast?.map fun c => (c field).toNat) =
          some ((last field).toNat / 16 ^ (8 - l.left n field)) := by
  constructor
  · rintro ⟨returned, -⟩ field h
    exact (returned_newest_iff h).mp (returned field h)
  · intro condition
    have newest := fun field h => (returned_newest_iff h).mpr (condition field h)
    refine ⟨newest, ?_⟩
    intro role field h value complete hvalue
    obtain ⟨returned, hreturned⟩ := returned_of_newestComplete h complete
    have same : value.toNat = returned := by
      have := newest field h returned hreturned
      rwa [complete, Option.map_some, Option.some_inj] at this
    refine reports_of_get role h hreturned ?_
    rw [← same]
    exact fun hzero => hvalue (UInt32.toNat_inj.mp hzero)

end Cut

/-- The four counters and nothing else, as the tests print them. -/
def a5bLayout : Layout where
  word := "RFDBG_A5B_SCHED".toList
  names := readyOwnershipFields
  newline := [10]
  scheduler := .inl rfl
  plain := by simp [PlainName, readyOwnershipFields, isSpace]
  distinct := by decide
  counters := fun _ => id
  lineEnd := .inl rfl

/-- One duplicate in the ready queue. -/
def oneDuplicate : Counters := fun field => if field = "ready_dup".toList then 1 else 0

/-- The cut leaves four digits of `ready_dup`, which are zeros, and the duplicate that
both lines count is not reported. -/
theorem not_survives : ¬ Survives a5bLayout [oneDuplicate] oneDuplicate 59 ∧
    validateReadyOwnership (a5bLayout.log [oneDuplicate] oneDuplicate 59) "sta".toList = [] := by
  refine ⟨fun h => ?_, by decide +kernel⟩
  have returned := (returned_newest_iff (by decide)).mp (h.1 "ready_dup".toList (by decide))
  exact absurd (returned (by decide) (by decide)) (by decide)

end HisiRiscv.Hil.RustContract
