/-
HisiRiscv.Hil.StageMarkers — the loop over the stage markers decides ordered embedding.

The loop keeps a cursor behind the earliest match of each group, so it is a run of
`Greedy.greedy` and finds the groups if and only if some marker of each occurs at
increasing positions (`stagePassed_iff`). Nothing else in `validate_rust_contract`
reports a violation under the words of the loop (`ofLoop_iff_mem_stageLoop`), and
bytes put between the occurrences leave them in order (`chosen_of_inserted`).

  §1 The loop is greedy.
  §2 The other violations.
  §3 Occurrences, and bytes between them.
  §4 The check.
-/
import HisiRiscv.Hil.RustContract
import HisiRiscv.Lib.Greedy
import Mathlib.Order.Monotone.Basic

namespace HisiRiscv.Hil.RustContract

open PyText

/-! ## §1 The loop is greedy -/

/-- Some marker of the group occurs at the position. -/
def OccursAt (log : Bytes) (group : String × List String) (position : ℕ) : Prop :=
  ∃ marker ∈ group.2, ascii marker <+: log.drop position

def groupPosition (log : Bytes) (group : String × List String) (after : ℕ) : Option ℕ :=
  markerGroupPosition log group.2 after

theorem findFrom_sound {log marker : Bytes} {after position : ℕ}
    (found : findFrom log marker after = some position) :
    after ≤ position ∧ marker <+: log.drop position := by
  obtain ⟨i, hi, rfl⟩ := Option.map_eq_some_iff.mp found
  refine ⟨Nat.le_add_right after i, ?_⟩
  rw [← List.drop_drop]
  exact Marker.prefix_drop_of_find hi

theorem findFrom_least {log marker : Bytes} {after position : ℕ}
    (occurs : marker <+: log.drop position) (behind : after ≤ position) :
    ∃ p ≤ position, findFrom log marker after = some p := by
  obtain ⟨d, rfl⟩ := Nat.exists_eq_add_of_le behind
  rw [← List.drop_drop] at occurs
  obtain ⟨i, hi⟩ := Marker.exists_find_of_prefix_drop occurs
  have hid : i ≤ d := Marker.find_le hi occurs
  exact ⟨after + i, Nat.add_le_add_left hid after, by rw [findFrom, hi, Option.map_some]⟩

theorem earliest_groupPosition (log : Bytes) :
    Greedy.Earliest (OccursAt log) (groupPosition log) where
  sound found := by
    have member := List.min?_mem found
    obtain ⟨marker, hmarker, hfound⟩ := List.mem_filterMap.mp member
    obtain ⟨behind, occurs⟩ := findFrom_sound hfound
    exact ⟨behind, marker, hmarker, occurs⟩
  least {group cursor position} occurs behind := by
    obtain ⟨marker, hmarker, occurs⟩ := occurs
    obtain ⟨p, hp, found⟩ := findFrom_least occurs behind
    have member : p ∈ group.2.filterMap fun marker => findFrom log (ascii marker) cursor :=
      List.mem_filterMap.mpr ⟨marker, hmarker, found⟩
    obtain ⟨earliest, hearliest⟩ := Option.isSome_iff_exists.mp (List.isSome_min?_of_mem member)
    exact ⟨earliest, ((List.min?_eq_some_iff.mp hearliest).2 p member).trans hp, hearliest⟩

/-- A group that is found is never found in front of the cursor. -/
theorem stageLoop_eq_nil_iff (log : Bytes) (cursor : ℕ) (groups : List (String × List String)) :
    stageLoop log cursor groups = [] ↔
      (Greedy.greedy (groupPosition log) cursor groups).isSome := by
  induction groups generalizing cursor with
  | nil => simp [stageLoop, Greedy.greedy]
  | cons group groups ih =>
    rw [stageLoop, Greedy.greedy]
    cases found : markerGroupPosition log group.2 cursor with
    | none => simp [groupPosition, found]
    | some position =>
      have behind := ((earliest_groupPosition log).sound found).1
      simp [groupPosition, found, Nat.not_lt.mpr behind, ih]

/-- The words of the loop. -/
def OfLoop (groups : List (String × List String)) (v : Violation) : Prop :=
  v.kind = .outOfOrder ∨ v.kind = .missing ∧ v.detail ∈ groups.map fun group => group.1.toList

theorem ofLoop_of_mem {log : Bytes} {cursor : ℕ} {groups : List (String × List String)}
    {v : Violation} (hv : v ∈ stageLoop log cursor groups) : OfLoop groups v := by
  induction groups generalizing cursor with
  | nil => simp [stageLoop] at hv
  | cons group groups ih =>
    have later : ∀ {cursor'}, v ∈ stageLoop log cursor' groups → OfLoop (group :: groups) v := by
      intro cursor' h
      exact (ih h).imp_right fun ⟨hk, hd⟩ => ⟨hk, List.mem_cons_of_mem _ hd⟩
    rw [stageLoop] at hv
    split at hv
    · rcases List.mem_cons.mp hv with rfl | hv
      · exact .inr ⟨rfl, List.mem_cons_self⟩
      · exact later hv
    · split at hv
      · rcases List.mem_cons.mp hv with rfl | hv
        · exact .inl rfl
        · exact later hv
      · exact later hv

/-! ## §2 The other violations -/

def stageNames : List Text :=
  ((stageMarkers .connectivity).getD []).map fun group => group.1.toList

/-- No word of the loop, for either table. -/
def Foreign (v : Violation) : Prop :=
  v.kind ≠ .outOfOrder ∧ (v.kind = .missing → v.detail ∉ stageNames)

instance (v : Violation) : Decidable (Foreign v) := inferInstanceAs (Decidable (_ ∧ _))

theorem forall_require {P : Violation → Prop} {ok : Bool} {kind : Kind} {detail : Text}
    (h : P ⟨kind, detail⟩) : ∀ v ∈ require ok kind detail, P v := by
  intro v hv
  rw [require] at hv
  split at hv
  · cases hv
  · rwa [List.mem_singleton.mp hv]

theorem foreign_of_kind {kind : Kind} {detail : Text} (h : kind ≠ .outOfOrder ∧ kind ≠ .missing) :
    Foreign ⟨kind, detail⟩ :=
  ⟨h.1, fun hmissing => absurd hmissing h.2⟩

/-- The names of the groups have no dot. -/
theorem foreign_of_dot {kind : Kind} {detail : Text} (hkind : kind ≠ .outOfOrder)
    (hdot : '.' ∈ detail) : Foreign ⟨kind, detail⟩ := by
  have plain : ∀ name ∈ stageNames, '.' ∉ name := by decide
  exact ⟨hkind, fun _ member => plain detail member hdot⟩

theorem foreign_fixture {log : Bytes} {fixture : Bool} :
    ∀ v ∈ fixtureViolations log fixture, Foreign v :=
  List.forall_mem_append.mpr ⟨forall_require (by decide), forall_require (by decide)⟩

theorem foreign_fatal {log : Bytes} : ∀ v ∈ fatalViolations log, Foreign v := by
  intro v hv
  obtain ⟨marker, -, rfl⟩ := List.mem_map.mp hv
  exact foreign_of_kind (by decide)

theorem dot_mem_ownershipDetail (role field : Text) : '.' ∈ ownershipDetail role field := by
  simp [ownershipDetail]

theorem foreign_ownership {log : Bytes} {role : Text} :
    ∀ v ∈ validateReadyOwnership log role, Foreign v := by
  intro v hv
  rw [validateReadyOwnership] at hv
  split at hv
  · rw [List.mem_singleton.mp hv]
    exact foreign_of_dot (by decide) (by simp)
  · obtain ⟨field, -, hv⟩ := List.mem_flatMap.mp hv
    split at hv
    · rw [List.mem_singleton.mp hv]
      exact foreign_of_dot (by decide) (dot_mem_ownershipDetail role field)
    · exact forall_require (foreign_of_kind (by decide)) v hv

theorem foreign_metrics {log : Bytes} {limit : Option ℤ} {requireDisconnect : Bool} :
    ∀ v ∈ validateA5bMetrics log limit requireDisconnect, Foreign v := by
  intro v hv
  rw [validateA5bMetrics] at hv
  split at hv
  · exact forall_require (by decide) v hv
  · split at hv
    · rw [List.mem_singleton.mp hv]
      exact foreign_of_kind (by decide)
    · split at hv
      · rw [List.mem_singleton.mp hv]
        exact foreign_of_kind (by decide)
      · simp only [List.mem_append] at hv
        rcases hv with ((hv | hv) | hv) | hv
        · exact forall_require (foreign_of_kind (by decide)) v hv
        · exact forall_require (foreign_of_kind (by decide)) v hv
        · obtain ⟨field, -, hv⟩ := List.mem_flatMap.mp hv
          exact forall_require (foreign_of_kind (by decide)) v hv
        · split at hv
          · cases hv
          · exact forall_require (foreign_of_kind (by decide)) v hv

theorem foreign_summary {summary : List (Text × ℕ)} {skipped : Bool} :
    ∀ v ∈ summaryViolations summary skipped, Foreign v := by
  have other : ∀ {ok kind detail}, kind ≠ .outOfOrder ∧ kind ≠ .missing →
      ∀ v ∈ require ok kind detail, Foreign v := fun h => forall_require (foreign_of_kind h)
  intro v hv
  simp only [summaryViolations, List.mem_append] at hv
  rcases hv with ((((hv | hv) | hv) | hv) | hv) | hv
  · obtain ⟨field, -, hv⟩ := List.mem_flatMap.mp hv
    refine forall_require (foreign_of_dot (by decide) ?_) v hv
    simp
  · exact other (by decide) v hv
  · exact other (by decide) v hv
  · split at hv <;> rcases List.mem_append.mp hv with hv | hv <;> exact other (by decide) v hv
  · exact other (by decide) v hv
  · exact other (by decide) v hv

theorem foreign_dns {dns : List (Text × (Text ⊕ ℕ))} : ∀ v ∈ validateDns dns, Foreign v := by
  intro v hv
  rw [validateDns] at hv
  split at hv
  · exact forall_require (foreign_of_kind (by decide)) v hv
  · simp only [List.mem_append] at hv
    rcases hv with (((hv | hv) | hv) | hv) | hv <;>
      exact forall_require (foreign_of_kind (by decide)) v hv

theorem foreign_connectivity {log : Bytes} : ∀ v ∈ connectivityViolations log, Foreign v := by
  intro v hv
  simp only [connectivityViolations, List.mem_append] at hv
  rcases hv with (((hv | hv) | hv) | hv) | hv
  · exact forall_require (by decide) v hv
  · exact forall_require (foreign_of_kind (by decide)) v hv
  · split at hv
    · cases hv
    · exact foreign_summary v hv
  · split at hv
    · cases hv
    · exact foreign_dns v hv
  · split at hv
    · cases hv
    · rcases List.mem_append.mp hv with hv | hv <;>
        exact forall_require (foreign_of_kind (by decide)) v hv

theorem foreign_pool {heap : List (Text × ℕ)} {pool : Text} :
    ∀ v ∈ poolViolations heap pool, Foreign v := by
  intro v hv
  simp only [poolViolations, List.mem_append] at hv
  rcases hv with ((hv | hv) | hv) | hv <;> exact forall_require (foreign_of_kind (by decide)) v hv

theorem foreign_calibration {log : Bytes} : ∀ v ∈ calibrationViolations log, Foreign v := by
  intro v hv
  rw [calibrationViolations, parseResourceCalibration] at hv
  split at hv
  · rw [List.mem_singleton.mp hv]
    decide
  · rename_i calibration parsed
    split at parsed
    · cases parsed
    · cases parsed
      simp only [List.mem_append] at hv
      rcases hv with (((hv | hv) | hv) | hv) | hv
      · exact forall_require (by decide) v hv
      · exact forall_require (by decide) v hv
      · split at hv
        · simp only [List.mem_append] at hv
          rcases hv with ((hv | hv) | hv) | hv
          · exact forall_require (by decide) v hv
          · exact forall_require (by decide) v hv
          · exact forall_require (by decide) v hv
          · exact forall_require (by decide) v hv
        · cases hv
      · split at hv
        · obtain ⟨pool, -, hv⟩ := List.mem_flatMap.mp hv
          exact foreign_pool v hv
        · cases hv
      · split at hv
        · rcases List.mem_append.mp hv with hv | hv <;> exact forall_require (by decide) v hv
        · cases hv

theorem names_of_table {stage : Stage} {groups : List (String × List String)}
    (table : stageMarkers stage = some groups) {name : Text}
    (hname : name ∈ groups.map fun group => group.1.toList) : name ∈ stageNames := by
  cases stage with
  | initScan =>
    cases table
    exact List.mem_append_left _ hname
  | connect => cases table
  | connectivity =>
    cases table
    exact hname

/-- The violations under the words of the loop are those of the loop. -/
theorem ofLoop_iff_mem_stageLoop {log : Bytes} {stage : Stage}
    {groups : List (String × List String)} (table : stageMarkers stage = some groups)
    {limit : Option ℤ} {fixture calibrated : Bool} {v : Violation} :
    v ∈ validateRustContract log stage limit fixture calibrated ∧ OfLoop groups v ↔
      v ∈ stageLoop log 0 groups := by
  constructor
  · rintro ⟨hv, words⟩
    have not_foreign : ¬ Foreign v := by
      rintro ⟨hkind, hdetail⟩
      rcases words with horder | ⟨hmissing, hname⟩
      · exact hkind horder
      · exact hdetail hmissing (names_of_table table hname)
    simp only [validateRustContract, List.mem_append, table, Option.elim_some] at hv
    rcases hv with (((((hv | hv) | hv) | hv) | hv) | hv) | hv
    · exact absurd (foreign_fixture v hv) not_foreign
    · exact absurd (foreign_fatal v hv) not_foreign
    · rcases List.mem_append.mp hv with hv | hv
      · exact hv
      · split at hv
        · cases hv
        · exact absurd (forall_require (foreign_of_kind (by decide)) v hv) not_foreign
    · split at hv
      · rcases List.mem_append.mp hv with hv | hv
        · exact absurd (foreign_ownership v hv) not_foreign
        · exact absurd (foreign_metrics v hv) not_foreign
      · cases hv
    · split at hv
      · -- the one stage that reports `missing:connect` has no table
        rename_i hstage
        rw [hstage] at table
        cases table
      · cases hv
    · split at hv
      · exact absurd (foreign_connectivity v hv) not_foreign
      · cases hv
    · split at hv
      · exact absurd (foreign_calibration v hv) not_foreign
      · cases hv
  · intro hv
    refine ⟨?_, ofLoop_of_mem hv⟩
    simp only [validateRustContract, List.mem_append, table, Option.elim_some, stageViolations]
    exact .inl (.inl (.inl (.inl (.inr (.inl hv)))))

/-! ## §3 Occurrences, and bytes between them -/

structure Occurrence where
  position : ℕ
  marker : String

/-- An occurrence of some marker for each group, at increasing positions. -/
structure Chosen (log : Bytes) (groups : List (String × List String))
    (occurrences : List Occurrence) : Prop where
  occurring : List.Forall₂
    (fun group o => o.marker ∈ group.2 ∧ ascii o.marker <+: log.drop o.position) groups occurrences
  increasing : occurrences.Pairwise fun o o' => o.position < o'.position

/-- `log'` is `log` with bytes put in anywhere but inside an occurrence: `place` is where
a byte of the log has gone. -/
def Inserted (log log' : Bytes) (occurrences : List Occurrence) : Prop :=
  ∃ place : ℕ → ℕ, StrictMono place ∧ (∀ i < log.length, log'[place i]? = log[i]?) ∧
    ∀ o ∈ occurrences, ∀ j < (ascii o.marker).length, place (o.position + j) = place o.position + j

theorem chosen_iff_ordered {log : Bytes} {groups : List (String × List String)} :
    (∃ occurrences, Chosen log groups occurrences) ↔
      ∃ positions, Greedy.Ordered (OccursAt log) 0 groups positions := by
  constructor
  · rintro ⟨occurrences, occurring, increasing⟩
    refine ⟨occurrences.map Occurrence.position, ?_, List.pairwise_map.mpr increasing, by simp⟩
    refine List.forall₂_map_right_iff.mpr (occurring.imp ?_)
    rintro group o ⟨member, occurs⟩
    exact ⟨o.marker, member, occurs⟩
  · rintro ⟨positions, occurring, increasing, -⟩
    have choice : ∃ occurrences : List Occurrence,
        occurrences.map Occurrence.position = positions ∧ List.Forall₂
          (fun group o => o.marker ∈ group.2 ∧ ascii o.marker <+: log.drop o.position)
          groups occurrences := by
      clear increasing
      induction occurring with
      | nil => exact ⟨[], rfl, .nil⟩
      | @cons group p groups ps first rest ih =>
        obtain ⟨marker, member, occurs⟩ := first
        obtain ⟨occurrences, hpositions, hoccurring⟩ := ih
        exact ⟨⟨p, marker⟩ :: occurrences, congrArg (p :: ·) hpositions,
          .cons ⟨member, occurs⟩ hoccurring⟩
    obtain ⟨occurrences, rfl, hoccurring⟩ := choice
    exact ⟨occurrences, hoccurring, List.pairwise_map.mp increasing⟩

theorem prefix_drop_of_place {log log' marker : Bytes} {place : ℕ → ℕ} {p : ℕ}
    (same : ∀ i < log.length, log'[place i]? = log[i]?)
    (whole : ∀ j < marker.length, place (p + j) = place p + j)
    (occurs : marker <+: log.drop p) : marker <+: log'.drop (place p) := by
  rw [List.prefix_iff_getElem?] at occurs ⊢
  intro j hj
  have old := occurs j hj
  rw [List.getElem?_drop] at old ⊢
  obtain ⟨inside, -⟩ := List.getElem?_eq_some_iff.mp old
  rw [← whole j hj, same (p + j) inside, old]

theorem chosen_of_inserted {log log' : Bytes} {groups : List (String × List String)}
    {occurrences : List Occurrence} (chosen : Chosen log groups occurrences)
    (inserted : Inserted log log' occurrences) :
    ∃ occurrences', Chosen log' groups occurrences' := by
  obtain ⟨place, mono, same, whole⟩ := inserted
  obtain ⟨occurring, increasing⟩ := chosen
  refine ⟨occurrences.map fun o => ⟨place o.position, o.marker⟩, ?_, ?_⟩
  · rw [List.forall₂_map_right_iff]
    clear increasing
    induction occurring with
    | nil => exact .nil
    | @cons group o groups occurrences first rest ih =>
      obtain ⟨member, occurs⟩ := first
      obtain ⟨whole, later⟩ := List.forall_mem_cons.mp whole
      exact .cons ⟨member, prefix_drop_of_place same whole occurs⟩ (ih later)
  · exact List.pairwise_map.mpr (increasing.imp fun h => mono h)

/-- Bytes at one place that is in the middle of no occurrence. -/
theorem inserted_splice {log extra : Bytes} {k : ℕ} {occurrences : List Occurrence}
    (hk : k ≤ log.length)
    (outside : ∀ o ∈ occurrences, k ≤ o.position ∨ o.position + (ascii o.marker).length ≤ k) :
    Inserted log (log.take k ++ extra ++ log.drop k) occurrences := by
  refine ⟨fun i => if i < k then i else i + extra.length, ?_, ?_, ?_⟩
  · intro i j hij
    dsimp only
    split <;> split <;> omega
  · intro i _
    dsimp only
    rw [List.append_assoc]
    split
    · rename_i hi
      rw [List.getElem?_append_left (by simp; omega), List.getElem?_take_of_lt hi]
    · rename_i hi
      rw [List.getElem?_append_right (by simp; omega), List.getElem?_append_right (by simp; omega),
        List.getElem?_drop]
      congr 1
      simp
      omega
  · intro o ho j hj
    have := outside o ho
    dsimp only
    split <;> split <;> omega

/-! ## §4 The check -/

/-- No `missing` for a group, and no `out_of_order`. -/
def StagePassed (groups : List (String × List String)) (violations : List Violation) : Prop :=
  ∀ v ∈ violations, ¬ OfLoop groups v

theorem stagePassed_iff {log : Bytes} {stage : Stage} {groups : List (String × List String)}
    (table : stageMarkers stage = some groups) {limit : Option ℤ} {fixture calibrated : Bool} :
    StagePassed groups (validateRustContract log stage limit fixture calibrated) ↔
      ∃ occurrences, Chosen log groups occurrences := by
  have passed : StagePassed groups (validateRustContract log stage limit fixture calibrated) ↔
      stageLoop log 0 groups = [] := by
    rw [List.eq_nil_iff_forall_not_mem]
    refine forall_congr' fun v => ?_
    rw [← ofLoop_iff_mem_stageLoop table (v := v), not_and]
  rw [passed, stageLoop_eq_nil_iff, Greedy.greedy_isSome_iff (earliest_groupPosition log),
    chosen_iff_ordered]

theorem stage_check_iff {stage : Stage} {groups : List (String × List String)}
    (table : stageMarkers stage = some groups) (log : Bytes) (limit : Option ℤ)
    (fixture calibrated : Bool) :
    (StagePassed groups (validateRustContract log stage limit fixture calibrated) ↔
      ∃ occurrences, Chosen log groups occurrences) ∧
    ∀ occurrences log', Chosen log groups occurrences → Inserted log log' occurrences →
      StagePassed groups (validateRustContract log' stage limit fixture calibrated) := by
  refine ⟨stagePassed_iff table, ?_⟩
  intro occurrences log' chosen inserted
  exact (stagePassed_iff table).mpr (chosen_of_inserted chosen inserted)

/-- A log of the first stage without line ends. -/
def scanLog : Bytes :=
  ascii ("RF1_IMAGE_OK" ++ "RF2_INIT_OK" ++ "A4_RADIO_EVENT kind=initialized" ++ "RF3_SCAN_OK" ++
    "A4_RADIO_EVENT kind=scan-completed")

def scanOccurrences : List Occurrence :=
  [⟨0, "RF1_IMAGE_OK"⟩, ⟨12, "RF2_INIT_OK"⟩, ⟨23, "A4_RADIO_EVENT kind=initialized"⟩,
    ⟨54, "RF3_SCAN_OK"⟩, ⟨65, "A4_RADIO_EVENT kind=scan-completed"⟩]

theorem chosen_scanLog : Chosen scanLog ((stageMarkers .initScan).getD []) scanOccurrences where
  occurring := by
    repeat first | exact .nil | refine .cons (by decide) ?_
  increasing := by decide

/-- Line ends may be put between the markers. -/
theorem stage_check_scanLog :
    StagePassed ((stageMarkers .initScan).getD [])
      (validateRustContract (scanLog.take 12 ++ [13, 10] ++ scanLog.drop 12) .initScan none false
        false) :=
  (stage_check_iff rfl scanLog none false false).2 scanOccurrences _ chosen_scanLog
    (inserted_splice (by decide) (by decide))

end HisiRiscv.Hil.RustContract
