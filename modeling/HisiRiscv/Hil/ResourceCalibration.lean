/-
HisiRiscv.Hil.ResourceCalibration — when a resource calibration counts as complete.

`parse_resource_calibration` reads a counter that its line does not carry as zero, so
a log is complete if its equations hold with these zeros (`complete_iff`). They fail
without an arena; without the other counters they fail only where the zero makes a difference
(`complete_deleted_iff`), and so it is with a heap line that is cut, where a counter cut within its
digits is another number (`complete_cut_iff`).

  §1 What is checked.
  §2 What a complete log is to carry.
  §3 A field is deleted.
  §4 The heap line is cut.
  §5 All three.
-/
import HisiRiscv.Hil.DiagnosticLine

namespace HisiRiscv.Hil.RustContract

open PyText PyNumber

/-! ## §1 What is checked -/

/-- `complete` of the result; nothing is returned without either line. -/
def complete (log : Bytes) : Bool := (parseResourceCalibration log).elim false Calibration.complete

def resourceText (log : Bytes) : List (Text × Text) :=
  parseTextFields ((lastPrefixedLine log resourceHead).getD [])

def resourceFields (log : Bytes) : List (Text × ℕ) :=
  parseHexFields ((lastPrefixedLine log resourceHead).getD [])

def heapFields (log : Bytes) : List (Text × ℕ) :=
  parseHexFields ((lastPrefixedLine log heapHead).getD [])

inductive Pool where
  | rtos
  | rf
  deriving DecidableEq

inductive Counter where
  | arena
  | used
  | free
  | peak
  | failures
  deriving DecidableEq

def Pool.name : Pool → Text
  | .rtos => "rtos".toList
  | .rf => "rf".toList

/-- The field of the contract with the arena of the pool. -/
def Pool.contract : Pool → Text
  | .rtos => "runtime_arena".toList
  | .rf => "rf_arena".toList

def Counter.name : Counter → String
  | .arena => "arena"
  | .used => "used"
  | .free => "free"
  | .peak => "peak"
  | .failures => "failures"

def Pool.key (pool : Pool) (counter : Counter) : Text := poolKey pool.name counter.name

/-- The equations between the counters of a pool and the arena of its contract. -/
structure PoolBalanced (contract : ℕ) (value : Counter → ℕ) : Prop where
  arena : value .arena = contract
  sum : value .used + value .free = value .arena
  used_le : value .used ≤ value .peak
  peak_le : value .peak ≤ value .arena
  failures : value .failures = 0

/-- The conditions on the two lines, with zero for a counter that is missing. -/
structure Balanced (log : Bytes) : Prop where
  resource : (lastPrefixedLine log resourceHead).isSome
  heap : (lastPrefixedLine log heapHead).isSome
  schema : nonempty (resourceText log) "schema".toList
  revision : nonempty (resourceText log) "revision".toList
  positive : ∀ pool : Pool, 0 < count (resourceFields log) pool.contract
  pool : ∀ pool : Pool, PoolBalanced (count (resourceFields log) pool.contract) fun counter =>
    count (heapFields log) (pool.key counter)

theorem require_eq_nil {ok : Bool} {kind : Kind} {detail : Text} :
    require ok kind detail = [] ↔ ok = true := by
  cases ok <;> simp [require]

theorem get_eq_some_iff_count {fields : List (Text × ℕ)} {key : Text} {value : ℕ} (h : 0 < value) :
    get fields key = some value ↔ count fields key = value := by
  rw [count]
  cases get fields key with
  | none => exact iff_of_false (by simp) (Nat.ne_of_lt h)
  | some n => simp

theorem poolViolations_eq_nil_iff {heap : List (Text × ℕ)} {pool : Pool} :
    poolViolations heap pool.name = [] ↔ 0 < count heap (pool.key .arena) ∧
      PoolBalanced (count heap (pool.key .arena)) fun counter => count heap (pool.key counter) := by
  simp only [poolViolations, List.append_eq_nil_iff, require_eq_nil, decide_eq_true_eq]
  constructor
  · rintro ⟨⟨⟨positive, sum⟩, used_le, peak_le⟩, failures⟩
    exact ⟨positive, rfl, sum, used_le, peak_le, failures⟩
  · rintro ⟨positive, -, sum, used_le, peak_le, failures⟩
    exact ⟨⟨⟨positive, sum⟩, used_le, peak_le⟩, failures⟩

theorem forall_pool {P : Pool → Prop} : (∀ pool, P pool) ↔ P .rtos ∧ P .rf := by
  constructor
  · intro h
    exact ⟨h .rtos, h .rf⟩
  · rintro ⟨hrtos, hrf⟩ pool
    cases pool
    · exact hrtos
    · exact hrf

/-- The violations where both lines are there. -/
theorem complete_of_lines {log resourceLine heapLine : Bytes}
    (hresource : lastPrefixedLine log resourceHead = some resourceLine)
    (hheap : lastPrefixedLine log heapHead = some heapLine) :
    complete log =
      (require (nonempty (resourceText log) "schema".toList) .missing "resource.schema".toList ++
        require (nonempty (resourceText log) "revision".toList) .missing
          "resource.revision".toList ++
        require (0 < count (resourceFields log) Pool.rtos.contract) .invalid
          "resource.runtime_arena".toList ++
        require (0 < count (resourceFields log) Pool.rf.contract) .invalid
          "resource.rf_arena".toList ++
        pools.flatMap (poolViolations (heapFields log)) ++
        (require (get (heapFields log) (Pool.rtos.key .arena) =
            some (count (resourceFields log) Pool.rtos.contract)) .mismatch "rtos.arena".toList ++
          require (get (heapFields log) (Pool.rf.key .arena) =
            some (count (resourceFields log) Pool.rf.contract)) .mismatch
            "rf.arena".toList)).isEmpty := by
  rw [complete, parseResourceCalibration, resourceText, resourceFields, heapFields, hresource,
    hheap]
  rfl

theorem complete_iff {log : Bytes} : complete log = true ↔ Balanced log := by
  cases hresource : lastPrefixedLine log resourceHead with
  | none =>
    refine iff_of_false ?_ fun balanced => by simpa [hresource] using balanced.resource
    cases hheap : lastPrefixedLine log heapHead <;>
      rw [complete, parseResourceCalibration, hresource, hheap] <;> exact Bool.false_ne_true
  | some resourceLine =>
    cases hheap : lastPrefixedLine log heapHead with
    | none =>
      refine iff_of_false ?_ fun balanced => by simpa [hheap] using balanced.heap
      rw [complete, parseResourceCalibration, hresource, hheap]
      exact Bool.false_ne_true
    | some heapLine =>
      have hpools : pools.flatMap (poolViolations (heapFields log)) = [] ↔
          ∀ pool : Pool, poolViolations (heapFields log) pool.name = [] := by
        rw [forall_pool]
        simp [pools, Pool.name]
      rw [complete_of_lines hresource hheap]
      simp only [List.isEmpty_iff, List.append_eq_nil_iff, require_eq_nil, hpools,
        poolViolations_eq_nil_iff, decide_eq_true_eq]
      constructor
      · rintro ⟨⟨⟨⟨⟨schema, revision⟩, hruntime⟩, hrf⟩, balanced⟩, mruntime, mrf⟩
        have positive : ∀ pool : Pool, 0 < count (resourceFields log) pool.contract :=
          forall_pool.mpr ⟨hruntime, hrf⟩
        have arena : ∀ pool : Pool, count (heapFields log) (pool.key .arena) =
            count (resourceFields log) pool.contract := forall_pool.mpr
          ⟨(get_eq_some_iff_count hruntime).mp mruntime, (get_eq_some_iff_count hrf).mp mrf⟩
        exact
          { resource := by rw [hresource]; rfl
            heap := by rw [hheap]; rfl
            schema, revision, positive
            pool := fun pool => arena pool ▸ (balanced pool).2 }
      · intro balanced
        have positive := balanced.positive
        have matching : ∀ pool : Pool, get (heapFields log) (pool.key .arena) =
            some (count (resourceFields log) pool.contract) := fun pool =>
          (get_eq_some_iff_count (positive pool)).mpr (balanced.pool pool).arena
        refine ⟨⟨⟨⟨⟨balanced.schema, balanced.revision⟩, positive .rtos⟩, positive .rf⟩, ?_⟩,
          matching .rtos, matching .rf⟩
        intro pool
        have arena : count (heapFields log) (pool.key .arena) =
            count (resourceFields log) pool.contract := (balanced.pool pool).arena
        rw [arena]
        exact ⟨positive pool, balanced.pool pool⟩

/-! ## §2 What a complete log is to carry -/

/-- The counters of a pool stand on the heap line, and the equations hold between them. -/
def PoolCarried (contract : ℕ) (heap : List (Text × ℕ)) (pool : Pool) : Prop :=
  ∃ value : Counter → ℕ, (∀ counter, get heap (pool.key counter) = some (value counter)) ∧
    PoolBalanced contract value

/-- What the two lines of a complete log are to carry. -/
structure Demanded (log : Bytes) : Prop where
  schema : ∃ value, value ≠ [] ∧ get (resourceText log) "schema".toList = some value
  revision : ∃ value, value ≠ [] ∧ get (resourceText log) "revision".toList = some value
  positive : ∀ pool : Pool, ∃ value, 0 < value ∧
    get (resourceFields log) pool.contract = some value ∧
      PoolCarried value (heapFields log) pool

/-- No counter is missing from the heap line. -/
def Explicit (log : Bytes) : Prop :=
  ∀ (pool : Pool) (counter : Counter), carries (heapFields log) (pool.key counter)

theorem exists_of_nonempty {fields : List (Text × Text)} {key : Text} (h : nonempty fields key) :
    ∃ value, value ≠ [] ∧ get fields key = some value := by
  rw [nonempty, decide_eq_true_eq] at h
  cases hget : get fields key with
  | none => exact absurd (by rw [hget]; rfl) h
  | some value => exact ⟨value, by rwa [hget] at h, rfl⟩

theorem get_of_carries {fields : List (Text × ℕ)} {key : Text} (h : carries fields key) :
    get fields key = some (count fields key) := by
  obtain ⟨value, hvalue⟩ := Option.isSome_iff_exists.mp h
  rw [count, hvalue, Option.getD_some]

theorem demanded_iff {log : Bytes} (balanced : Balanced log) : Demanded log ↔ Explicit log := by
  constructor
  · intro demanded pool counter
    obtain ⟨-, -, -, value, hvalue, -⟩ := demanded.positive pool
    rw [carries, hvalue counter, Option.isSome_some]
  · intro explicit
    exact
      { schema := exists_of_nonempty balanced.schema
        revision := exists_of_nonempty balanced.revision
        positive := fun pool =>
          ⟨_, balanced.positive pool, (get_eq_some_iff_count (balanced.positive pool)).mpr rfl, _,
            fun counter => get_of_carries (explicit pool counter), balanced.pool pool⟩ }

/-! ## §3 A field is deleted -/

/-- The last line with the head has become `line'`, and the other lines are the same but
for empty ones. -/
def Edited (head log log' line line' : Bytes) : Prop :=
  ∃ before after, PyBytes.splitlines log = before ++ line :: after ∧
    (PyBytes.splitlines log').filter (· ≠ []) = (before ++ line' :: after).filter (· ≠ []) ∧
    head <+: line ∧ ∀ x ∈ after, ¬ head <+: x

/-- The tokens of the field are gone from the last line with the head. -/
def Deleted (head log log' : Bytes) (key : Text) : Prop :=
  ∃ line line', Edited head log log' line line' ∧ head <+: line' ∧
    tokens line' = (tokens line).filter fun token => (keyValue token).map Prod.fst ≠ some key

section Edited

variable {head other log log' line line' : Bytes}

theorem lastPrefixedLine_of_lines {lines : List Bytes} (hhead : head ≠ [])
    (same : (PyBytes.splitlines log).filter (· ≠ []) = lines.filter (· ≠ [])) :
    lastPrefixedLine log head = lines.reverse.find? fun line => decide (head <+: line) := by
  have hfilter : ∀ lines : List Bytes,
      (lines.reverse.find? fun line => decide (head <+: line)) =
        (lines.filter (· ≠ [])).reverse.find? fun line => decide (head <+: line) := by
    intro lines
    rw [← List.filter_reverse, List.find?_filter]
    congr 1
    funext line
    cases line with
    | nil => simp [hhead]
    | cons b line => simp
  rw [lastPrefixedLine, hfilter, same, ← hfilter]

theorem find_last {before after : List Bytes} (h : ∀ x ∈ after, ¬ head <+: x) :
    ((before ++ line :: after).reverse.find? fun line => decide (head <+: line)) =
      if head <+: line then some line
      else before.reverse.find? fun line => decide (head <+: line) := by
  have hnone : (after.reverse.find? fun line => decide (head <+: line)) = none :=
    List.find?_eq_none.mpr fun x hx => by simpa using h x (List.mem_reverse.mp hx)
  rw [List.reverse_append, List.find?_append, List.reverse_cons, List.find?_append, hnone,
    Option.none_or, List.find?_singleton]
  split <;> simp_all

theorem Edited.last (edited : Edited head log log' line line') :
    lastPrefixedLine log head = some line := by
  obtain ⟨before, after, hlog, -, hline, hafter⟩ := edited
  rw [lastPrefixedLine, hlog, find_last hafter, if_pos hline]

theorem Edited.last' (hhead : head ≠ []) (edited : Edited head log log' line line')
    (hline : head <+: line') : lastPrefixedLine log' head = some line' := by
  obtain ⟨before, after, -, hlog', -, hafter⟩ := edited
  rw [lastPrefixedLine_of_lines hhead hlog', find_last hafter, if_pos hline]

theorem Edited.unrelated (hother : other ≠ []) (edited : Edited head log log' line line')
    (hline : ¬ other <+: line) (hline' : ¬ other <+: line') :
    lastPrefixedLine log' other = lastPrefixedLine log other := by
  obtain ⟨before, after, hlog, hlog', -, -⟩ := edited
  rw [lastPrefixedLine_of_lines hother hlog', lastPrefixedLine, hlog]
  simp only [List.reverse_append, List.reverse_cons, List.find?_append, List.find?_singleton,
    hline, hline', decide_false, Bool.false_eq_true, if_false]

end Edited

section Deleted

variable {β : Type} {fields : List (Text × β)} {key k : Text}

theorem get_filter_ne : get (fields.filter fun field => field.1 ≠ key) k =
    if k = key then none else get fields k := by
  have hlookup : ∀ fields : List (Text × β), (fields.filter fun field => field.1 ≠ key).lookup k =
      if k = key then none else fields.lookup k := by
    intro fields
    induction fields with
    | nil => simp
    | cons field fields ih =>
      obtain ⟨name, value⟩ := field
      by_cases hname : name = key
      · rw [List.filter_cons_of_neg (by simpa using hname), ih, lookup_cons_if]
        split
        · rfl
        · rename_i hk
          rw [if_neg fun h => hk (h.trans hname)]
      · rw [List.filter_cons_of_pos (by simpa using hname), lookup_cons_if, lookup_cons_if, ih]
        by_cases hk : k = name
        · rw [if_pos hk, if_pos hk, if_neg fun h => hname (hk.symm.trans h)]
        · rw [if_neg hk, if_neg hk]
  rw [get, ← List.filter_reverse, hlookup, get]

variable {line line' : Bytes}

theorem filterMap_deleted {f : Text → Option (Text × β)}
    (hf : ∀ token field, f token = some field → (keyValue token).map Prod.fst = some field.1)
    (hline : tokens line' =
      (tokens line).filter fun token => (keyValue token).map Prod.fst ≠ some key) :
    (tokens line').filterMap f = ((tokens line).filterMap f).filter fun field => field.1 ≠ key := by
  rw [hline, List.filterMap_filter, List.filter_filterMap]
  congr 1
  funext token
  cases hfield : f token with
  | none => simp
  | some field => simp [hf token field hfield, Option.filter]

theorem fst_of_keyValue {token : Text} {field : Text × Text} (h : keyValue token = some field) :
    (keyValue token).map Prod.fst = some field.1 := by rw [h, Option.map_some]

theorem fst_of_hexField {token : Text} {field : Text × ℕ} (h : hexField token = some field) :
    (keyValue token).map Prod.fst = some field.1 := by
  obtain ⟨⟨name, value⟩, hpair, hvalue⟩ := Option.bind_eq_some_iff.mp h
  obtain ⟨n, -, rfl⟩ := Option.map_eq_some_iff.mp hvalue
  rw [hpair, Option.map_some]

end Deleted

section Heap

variable {log log' line line' : Bytes} {pool : Pool} {counter : Counter}

/-- The conditions after a change of the heap line. -/
theorem balanced_iff_of_resource (balanced : Balanced log)
    (same : lastPrefixedLine log' resourceHead = lastPrefixedLine log resourceHead) :
    Balanced log' ↔ (lastPrefixedLine log' heapHead).isSome ∧
      ∀ pool : Pool, PoolBalanced (count (resourceFields log) pool.contract) fun counter =>
        count (heapFields log') (pool.key counter) := by
  have htext : resourceText log' = resourceText log := by rw [resourceText, same, resourceText]
  have hfields : resourceFields log' = resourceFields log := by
    rw [resourceFields, same, resourceFields]
  constructor
  · intro balanced'
    exact ⟨balanced'.heap, fun pool => hfields ▸ balanced'.pool pool⟩
  · rintro ⟨heap, hpool⟩
    exact
      { resource := by rw [same]; exact balanced.resource
        heap
        schema := by rw [htext]; exact balanced.schema
        revision := by rw [htext]; exact balanced.revision
        positive := by rw [hfields]; exact balanced.positive
        pool := by rw [hfields]; exact hpool }

theorem not_resource_of_heap (h : heapHead <+: line) : ¬ resourceHead <+: line := by
  intro h'
  exact absurd (List.prefix_or_prefix_of_prefix h h') (by decide)

theorem key_inj {pool' : Pool} {counter' : Counter} :
    pool.key counter = pool'.key counter' ↔ pool = pool' ∧ counter = counter' := by
  cases pool <;> cases pool' <;> cases counter <;> cases counter' <;> decide

/-- Whether a complete log without the counter is complete no more. -/
def Noticed (log : Bytes) (pool : Pool) : Counter → Prop
  | .arena => True
  | .used => count (heapFields log) (pool.key .used) ≠ 0
  | .free => count (heapFields log) (pool.key .free) ≠ 0
  | .peak => count (heapFields log) (pool.key .used) ≠ 0
  | .failures => False

theorem count_deleted (hheap : heapFields log' =
    (heapFields log).filter fun field => field.1 ≠ pool.key counter)
    (pool' : Pool) (counter' : Counter) : count (heapFields log') (pool'.key counter') =
      if pool' = pool ∧ counter' = counter then 0
      else count (heapFields log) (pool'.key counter') := by
  rw [count, hheap, get_filter_ne]
  simp only [key_inj]
  split
  · rfl
  · rfl

/-- With zero in place of the counter. -/
theorem poolBalanced_without_iff (contract : ℕ) (hcontract : 0 < contract) (counter : Counter)
    {value : Counter → ℕ} (balanced : PoolBalanced contract value) :
    PoolBalanced contract (fun counter' => if counter' = counter then 0 else value counter') ↔
      match counter with
      | .arena => False
      | .used => value .used = 0
      | .free => value .free = 0
      | .peak => value .used = 0
      | .failures => True := by
  obtain ⟨arena, sum, used_le, peak_le, failures⟩ := balanced
  constructor
  · rintro ⟨arena', sum', used_le', peak_le', failures'⟩
    cases counter <;> simp at * <;> omega
  · intro h
    cases counter <;> constructor <;> simp at * <;> omega

theorem complete_deleted_iff (done : complete log = true)
    (deleted : Deleted heapHead log log' (pool.key counter)) :
    complete log' = false ↔ Noticed log pool counter := by
  have balanced := complete_iff.mp done
  obtain ⟨line, line', edited, hline', htokens⟩ := deleted
  have hlast := edited.last
  have hlast' := edited.last' (by decide) hline'
  have hline : heapHead <+: line := edited.choose_spec.choose_spec.2.2.1
  have hresource := edited.unrelated (by decide) (not_resource_of_heap hline)
    (not_resource_of_heap hline')
  have hheap : heapFields log' =
      (heapFields log).filter fun field => field.1 ≠ pool.key counter := by
    rw [heapFields, heapFields, hlast, hlast']
    exact filterMap_deleted (fun _ _ => fst_of_hexField) htokens
  have affected : (∀ pool' : Pool, PoolBalanced (count (resourceFields log) pool'.contract)
        fun counter' => count (heapFields log') (pool'.key counter')) ↔
      PoolBalanced (count (resourceFields log) pool.contract) fun counter' =>
        if counter' = counter then 0 else count (heapFields log) (pool.key counter') := by
    have hcount := count_deleted hheap
    constructor
    · intro h
      have hpool := h pool
      simpa only [hcount, true_and] using hpool
    · intro h pool'
      by_cases hpool : pool' = pool
      · subst hpool
        simpa only [hcount, true_and] using h
      · simpa only [hcount, hpool, false_and, if_false] using balanced.pool pool'
  rw [← Bool.not_eq_true, complete_iff, balanced_iff_of_resource balanced hresource, hlast',
    Option.isSome_some, affected,
    poolBalanced_without_iff _ (balanced.positive pool) counter (balanced.pool pool)]
  cases counter <;> simp [Noticed]

end Heap

/-- A field of the contract is always missed. -/
theorem complete_deleted_resource {log log' : Bytes} {key : Text}
    (hkey : key = "schema".toList ∨ key = "revision".toList ∨ ∃ pool : Pool, key = pool.contract)
    (deleted : Deleted resourceHead log log' key) : complete log' = false := by
  obtain ⟨line, line', edited, hline', htokens⟩ := deleted
  have hlast := edited.last
  have hlast' := edited.last' (by decide) hline'
  have htext : get (resourceText log') key = none := by
    rw [resourceText, hlast', Option.getD_some, parseTextFields,
      filterMap_deleted (fun _ _ => fst_of_keyValue) htokens, get_filter_ne, if_pos rfl]
  have hfields : get (resourceFields log') key = none := by
    rw [resourceFields, hlast', Option.getD_some, parseHexFields,
      filterMap_deleted (fun _ _ => fst_of_hexField) htokens, get_filter_ne, if_pos rfl]
  rw [← Bool.not_eq_true, complete_iff]
  intro balanced
  rcases hkey with rfl | rfl | ⟨pool, rfl⟩
  · obtain ⟨value, -, hvalue⟩ := exists_of_nonempty balanced.schema
    rw [htext] at hvalue
    cases hvalue
  · obtain ⟨value, -, hvalue⟩ := exists_of_nonempty balanced.revision
    rw [htext] at hvalue
    cases hvalue
  · have positive := balanced.positive pool
    rw [count, hfields] at positive
    exact absurd positive (Nat.lt_irrefl 0)

/-! ## §4 The heap line is cut -/

def heapWord : Text := "RFDBG_HEAP".toList

/-- The fields of a printed heap line. -/
structure HeapLayout where
  names : List Text
  plain : ∀ name ∈ names, PlainName name
  distinct : names.Nodup
  counters : ∀ (pool : Pool) (counter : Counter), pool.key counter ∈ names

namespace HeapLayout

variable (l : HeapLayout) (value : Text → UInt32) (n : ℕ)

def line : Bytes := PyBytes.encode (printedLine heapWord l.names value)

/-- What is read of a counter when the line has been cut after `n` bytes: the number of the
digits that are left, zero if there are none. -/
def kept (pool : Pool) (counter : Counter) : ℕ :=
  (value (pool.key counter)).toNat /
    16 ^ (8 - digitsLeft l.names (pool.key counter) (n - heapWord.length))

/-- The cut takes nothing from the arena, the used and the free bytes, and of the peak no more
than leaves it above the used bytes. -/
structure Harmless (pool : Pool) : Prop where
  arena : l.kept value n pool .arena = (value (pool.key .arena)).toNat
  used : l.kept value n pool .used = (value (pool.key .used)).toNat
  free : l.kept value n pool .free = (value (pool.key .free)).toNat
  peak : (value (pool.key .used)).toNat ≤ l.kept value n pool .peak

variable {l value n}

theorem kept_le (l : HeapLayout) (value : Text → UInt32) (n : ℕ) (pool : Pool) (counter : Counter) :
    l.kept value n pool counter ≤ (value (pool.key counter)).toNat := Nat.div_le_self _ _

theorem plain_heapWord : ∀ c ∈ heapWord, c.toNat < 128 ∧ isSpace c = false := by
  unfold heapWord
  simp [isSpace]

theorem count_take (l : HeapLayout) (value : Text → UInt32) (n : ℕ) (pool : Pool) (counter : Counter) :
    count (parseHexFields ((l.line value).take n)) (pool.key counter) =
      l.kept value n pool counter := by
  rw [count, line, PyBytes.encode, ← List.map_take, ← PyBytes.encode,
    parseHexFields_take plain_heapWord (by decide) l.plain,
    get_cutFields l.distinct (l.counters pool counter), kept]
  split
  · rename_i hzero
    rw [hzero, Option.getD_none, Nat.sub_zero, Nat.div_eq_of_lt (value_lt _)]
  · rw [Option.getD_some]

theorem count_line (pool : Pool) (counter : Counter) :
    count (parseHexFields (l.line value)) (pool.key counter) =
      (value (pool.key counter)).toNat := by
  have hall := count_take l value (l.line value).length pool counter
  have hstart := valueStart_add_le value (l.counters pool counter)
  have hleft : digitsLeft l.names (pool.key counter) ((l.line value).length - heapWord.length) = 8 := by
    rw [digitsLeft, line, PyBytes.encode, List.length_map, printedLine, List.length_append]
    omega
  rwa [List.take_length, kept, hleft, Nat.sub_self, pow_zero, Nat.div_one] at hall

theorem heapHead_prefix_take : heapHead <+: (l.line value).take n ↔ heapWord.length < n :=
  wordHead_prefix_take heapWord value (List.ne_nil_of_mem (l.counters .rtos .arena))

theorem poolBalanced_kept_iff {contract : ℕ} {pool : Pool}
    (balanced : PoolBalanced contract fun counter => (value (pool.key counter)).toNat) :
    PoolBalanced contract (l.kept value n pool) ↔ l.Harmless value n pool := by
  have kept_le := kept_le l value n pool
  obtain ⟨arena, sum, used_le, peak_le, failures⟩ := balanced
  have used_kept := kept_le .used
  have free_kept := kept_le .free
  have peak_kept := kept_le .peak
  have failures_kept := kept_le .failures
  constructor
  · rintro ⟨arena', sum', used_le', -, -⟩
    constructor <;> omega
  · rintro ⟨harena, hused, hfree, hpeak⟩
    constructor <;> omega

end HeapLayout

/-- A part of a heap line is no line of the contract. -/
theorem not_resource_of_part {line : Bytes} (h : heapHead <+: line) (n : ℕ) :
    ¬ resourceHead <+: line.take n := fun h' =>
  not_resource_of_heap h (h'.trans (List.take_prefix n line))

theorem complete_cut_iff {log log' : Bytes} {l : HeapLayout} {value : Text → UInt32} {n : ℕ}
    (done : complete log = true)
    (cut : Edited heapHead log log' (l.line value) ((l.line value).take n)) :
    complete log' = true ↔ n ≤ heapWord.length ∧ Balanced log' ∨
      heapWord.length < n ∧ ∀ pool, l.Harmless value n pool := by
  have balanced := complete_iff.mp done
  have hline : heapHead <+: l.line value := cut.choose_spec.choose_spec.2.2.1
  rw [complete_iff]
  rcases Nat.lt_or_ge heapWord.length n with hn | hn
  · have hlast' := cut.last' (by decide) (HeapLayout.heapHead_prefix_take.mpr hn)
    have hresource := cut.unrelated (by decide) (not_resource_of_heap hline)
      (not_resource_of_part hline n)
    have hkept : ∀ pool : Pool, PoolBalanced (count (resourceFields log) pool.contract)
          (fun counter => count (heapFields log') (pool.key counter)) ↔ l.Harmless value n pool := by
      intro pool
      have before := balanced.pool pool
      simp only [heapFields, cut.last, Option.getD_some, HeapLayout.count_line] at before
      simp only [heapFields, hlast', Option.getD_some, HeapLayout.count_take]
      exact HeapLayout.poolBalanced_kept_iff before
    rw [balanced_iff_of_resource balanced hresource, hlast', Option.isSome_some]
    simp only [hkept, hn, Nat.not_le.mpr hn, true_and, false_and, false_or]
  · simp only [hn, Nat.not_lt.mpr hn, true_and, false_and, or_false]

/-! ## §5 All three -/

/-- `complete` means what it is to mean unless a counter is missing and the equations hold with
zero in its place; a field that is deleted is noticed but for the failures, and a used, free or peak
value where zero does as well; and a heap line that is cut is noticed but for a cut that leaves
the equations true. -/
theorem calibration_fails_closed_iff (log log' : Bytes) :
    ((complete log = true → Demanded log) ↔ (Balanced log → Explicit log)) ∧
    (complete log = true →
      (∀ key, key = "schema".toList ∨ key = "revision".toList ∨
          (∃ pool : Pool, key = pool.contract) →
        Deleted resourceHead log log' key → complete log' = false) ∧
      (∀ (pool : Pool) counter, Deleted heapHead log log' (pool.key counter) →
        (complete log' = false ↔ Noticed log pool counter)) ∧
      (∀ line n, Edited heapHead log log' line (line.take n) →
        (complete log' = false ↔ ¬ Balanced log')) ∧
      ∀ (l : HeapLayout) value n, Edited heapHead log log' (l.line value) ((l.line value).take n) →
        (complete log' = false ↔ ¬ (n ≤ heapWord.length ∧ Balanced log' ∨
          heapWord.length < n ∧ ∀ pool, l.Harmless value n pool))) := by
  refine ⟨?_, fun done => ⟨?_, ?_, ?_, ?_⟩⟩
  · rw [complete_iff]
    exact forall_congr' demanded_iff
  · intro key hkey deleted
    exact complete_deleted_resource hkey deleted
  · intro pool counter deleted
    exact complete_deleted_iff done deleted
  · intro line n _
    rw [← Bool.not_eq_true, complete_iff]
  · intro l value n cut
    rw [← Bool.not_eq_true, complete_cut_iff done cut]

/-- The contract of one byte in each arena, and a heap line without the failures. -/
def withoutFailures : Bytes :=
  ascii "RFDBG_RESOURCE schema=v8 revision=r1 runtime_arena=0x1 rf_arena=0x1\n" ++
    ascii "RFDBG_HEAP rtos_arena=0x1 rtos_used=0x1 rtos_free=0x0 rtos_peak=0x1 " ++
    ascii "rf_arena=0x1 rf_used=0x1 rf_free=0x0 rf_peak=0x1\n"

theorem not_calibration_fails_closed :
    ¬ ∀ log, complete log = true → Demanded log := by
  intro h
  have demanded := h withoutFailures (by decide +kernel)
  obtain ⟨-, -, -, value, hvalue, -⟩ := demanded.positive .rtos
  have hnone : get (heapFields withoutFailures) (Pool.rtos.key .failures) = none := by
    decide +kernel
  rw [hvalue .failures] at hnone
  cases hnone

end HisiRiscv.Hil.RustContract
