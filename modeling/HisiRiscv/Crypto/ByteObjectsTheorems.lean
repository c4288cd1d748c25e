/-
HisiRiscv.Crypto.ByteObjectsTheorems — calls into the crypto adapter are atomic and alias-safe.

Each function ends in one store or in none, after it has read its inputs (`bignumBinary_cases`
and its like). So a call either leaves memory as it was or changes the value of its output
object alone, and what it stores is computed from the inputs before it. The alias checks make
the arguments that are compared identical or apart; an input that overlaps the context is not
refused (`not_aliasSafe`).

  §1 Alias checks.
  §2 Reads and stores.
  §3 The functions of numbers.
  §4 The functions of points.
  §5 The law.
  §6 Objects by address.
-/
import HisiRiscv.Crypto.ByteObjects

namespace HisiRiscv.Crypto.Bytes

open HisiRiscv.ByteMemory

/-! ## §1 Alias checks -/

section Aliases

variable {a b aLen bLen size : ℕ} {inputs : List ℕ}

theorem apart_of_rangesOverlap (h : rangesOverlap a aLen b bLen = some false) :
    ¬ (a < b + bLen ∧ b < a + aLen) := by
  rw [rangesOverlap, checkedRange, checkedRange] at h
  split_ifs at h with ha hb
  · dsimp only at h
    rw [Option.some.injEq, Bool.and_eq_false_iff, decide_eq_false_iff_not, decide_eq_false_iff_not] at h
    exact fun hoverlap => h.elim (absurd hoverlap.1) (absurd hoverlap.2)

theorem apart_of_objectAliasIsValid (h : objectAliasIsValid a size b size = true) :
    a = b ∨ ¬ (a < b + size ∧ b < a + size) := by
  rw [objectAliasIsValid, Bool.or_eq_true, beq_iff_eq, beq_iff_eq] at h
  exact h.imp_right apart_of_rangesOverlap

/-- The loop over the inputs of `bignum_aliases` and of `point_aliases`. -/
def inputsApart (size output : ℕ) (inputs : List ℕ) : Bool :=
  inputs.zipIdx.all fun pair =>
    pair.1 != 0 && objectAliasIsValid output size pair.1 size &&
      (inputs.take pair.2).all fun other => objectAliasIsValid pair.1 size other size

/-- The output and the inputs are identical or apart, each pair of them. -/
theorem apart_of_inputsApart {output p q : ℕ} (h : inputsApart size output inputs = true)
    (hp : p ∈ output :: inputs) (hq : q ∈ output :: inputs) :
    p = q ∨ ¬ (p < q + size ∧ q < p + size) := by
  have hinput {i : ℕ} (hi : i < inputs.length) : objectAliasIsValid output size inputs[i] size = true ∧
      ∀ other ∈ inputs.take i, objectAliasIsValid inputs[i] size other size = true := by
    have hmem : (inputs[i], i) ∈ inputs.zipIdx := List.mk_mem_zipIdx_iff_getElem?.mpr (List.getElem?_eq_getElem hi)
    have hpair := List.all_eq_true.mp h _ hmem
    rw [Bool.and_eq_true, Bool.and_eq_true, List.all_eq_true] at hpair
    exact ⟨hpair.1.2, hpair.2⟩
  have hswap {x y : ℕ} (hxy : x = y ∨ ¬ (x < y + size ∧ y < x + size)) :
      y = x ∨ ¬ (y < x + size ∧ x < y + size) :=
    hxy.imp Eq.symm fun hnot hoverlap => hnot hoverlap.symm
  have houtput {x : ℕ} (hx : x ∈ inputs) : output = x ∨ ¬ (output < x + size ∧ x < output + size) := by
    obtain ⟨i, hi, rfl⟩ := List.mem_iff_getElem.mp hx
    exact apart_of_objectAliasIsValid (hinput hi).1
  have hbefore {i j : ℕ} (hi : i < inputs.length) (hj : j < inputs.length) (hlt : j < i) :
      inputs[i] = inputs[j] ∨ ¬ (inputs[i] < inputs[j] + size ∧ inputs[j] < inputs[i] + size) := by
    refine apart_of_objectAliasIsValid ((hinput hi).2 _ ?_)
    exact List.mem_take_iff_getElem.mpr ⟨j, by omega, rfl⟩
  rcases List.mem_cons.mp hp with rfl | hp'
  · rcases List.mem_cons.mp hq with rfl | hq'
    · exact Or.inl rfl
    · exact houtput hq'
  · rcases List.mem_cons.mp hq with rfl | hq'
    · exact hswap (houtput hp')
    · obtain ⟨i, hi, rfl⟩ := List.mem_iff_getElem.mp hp'
      obtain ⟨j, hj, rfl⟩ := List.mem_iff_getElem.mp hq'
      rcases Nat.lt_trichotomy i j with hlt | rfl | hlt
      · exact hswap (hbefore hj hi hlt)
      · exact Or.inl rfl
      · exact hbefore hi hj hlt

theorem inputsApart_of_bignumAliases {layout : Layout} {output : ℕ}
    (h : bignumAliases layout output inputs = true) : inputsApart layout.size output inputs = true :=
  (Bool.and_eq_true_iff.mp h).2

theorem of_pointAliases {layouts : Layouts} {context output : ℕ}
    (h : EcProvider.pointAliases layouts context output inputs = true) :
    rangesOverlap output layouts.point.size context layouts.ec.size = some false ∧
      inputsApart layouts.point.size output inputs = true := by
  obtain ⟨h, hinputs⟩ := Bool.and_eq_true_iff.mp h
  exact ⟨beq_iff_eq.mp (Bool.and_eq_true_iff.mp h).2, hinputs⟩

end Aliases

/-! ## §2 Reads and stores -/

section Records

variable {c : Adapter} {m m' : Memory} {pointer result : ℕ}

theorem valid_of_bignumClone {v : c.Bignum} (h : bignumClone c m pointer = some v) :
    Object.Valid c m ⟨.bignum, pointer⟩ ∧ bignumValue c m pointer = v := by
  obtain ⟨hvalid, hvalue⟩ := Option.ite_none_right_eq_some.mp h
  rw [Bool.and_eq_true, beq_iff_eq] at hvalid
  exact ⟨hvalid, Option.some.inj hvalue⟩

theorem bignumClone_of_valid (h : Object.Valid c m ⟨.bignum, pointer⟩) :
    bignumClone c m pointer = some (bignumValue c m pointer) := by
  refine if_pos ?_
  rw [Bool.and_eq_true, beq_iff_eq]
  exact h

theorem valid_of_pointClone {v : c.Point} (h : pointClone c m pointer = some v) :
    Object.Valid c m ⟨.point, pointer⟩ ∧ pointValue c m pointer = v := by
  obtain ⟨hvalid, hvalue⟩ := Option.ite_none_right_eq_some.mp h
  rw [Bool.and_eq_true, beq_iff_eq] at hvalid
  exact ⟨hvalid, Option.some.inj hvalue⟩

theorem valid_of_ecGroup {group : c.Group} (h : ecGroup c m pointer = some group) :
    Object.Valid c m ⟨.context, pointer⟩ ∧ groupValue c m pointer = group := by
  obtain ⟨haligned, h⟩ := Option.ite_none_right_eq_some.mp h
  obtain ⟨hvalid, hvalue⟩ := Option.ite_none_right_eq_some.mp h
  rw [Bool.and_eq_true, beq_iff_eq, beq_iff_eq] at hvalid
  exact ⟨⟨haligned, hvalid⟩, Option.some.inj hvalue⟩

/-- Memory after the value of an object is replaced. -/
structure Stored (c : Adapter) (m m' : Memory) (x : Object) : Prop where
  valid : x.Valid c m
  owned : x.kind = .bignum → word m (x.address + 4) = Crypto.owned
  frame : ∀ address, address < x.valueStart c ∨ x.valueStop c ≤ address → m' address = m address

/-- A function stores a value in its output, or leaves memory as it was. -/
theorem finishBignum_cases (value : Option c.Bignum) :
    finishBignum c m result value = (-1, m) ∨ ∃ m', finishBignum c m result value = (0, m') ∧
      value = some (bignumValue c m' result) ∧ Stored c m m' ⟨.bignum, result⟩ := by
  cases value with
  | none => exact Or.inl rfl
  | some v =>
    by_cases haligned : aligned (bignumLayout c) result = true
    · by_cases hheader : word m result = bignumMagic ∧ word m (result + 4) = owned
      · refine Or.inr ⟨save c.bignumCodec m (result + bignumValueOffset c) v, ?_, ?_, ?_⟩
        · simp [finishBignum, bignumStore, haligned, hheader]
        · rw [bignumValue, load_save]
        · exact ⟨⟨haligned, hheader.1⟩, fun _ => hheader.2, fun _ => save_outside _ _⟩
      · left
        have hrefused : (word m result != bignumMagic || word m (result + 4) != owned) = true := by
          rw [Bool.or_eq_true, bne_iff_ne, bne_iff_ne]
          exact not_and_or.mp hheader
        simp [finishBignum, bignumStore, haligned, hrefused]
    · left
      simp [finishBignum, bignumStore, haligned]

theorem finishBignum_status_zero (v : c.Bignum) (hvalid : Object.Valid c m ⟨.bignum, result⟩)
    (howned : word m (result + 4) = owned) : (finishBignum c m result (some v)).1 = 0 := by
  have haligned : aligned (bignumLayout c) result = true := hvalid.1
  have hmagic : word m result = bignumMagic := hvalid.2
  simp [finishBignum, bignumStore, haligned, hmagic, howned]

theorem finishPoint_cases (value : Option c.Point) :
    finishPoint c m result value = (-1, m) ∨ ∃ m', finishPoint c m result value = (0, m') ∧
      value = some (pointValue c m' result) ∧ Stored c m m' ⟨.point, result⟩ := by
  cases value with
  | none => exact Or.inl rfl
  | some v =>
    by_cases haligned : aligned (pointLayout c) result = true
    · by_cases hheader : word m result = pointMagic
      · refine Or.inr ⟨save c.pointCodec m (result + pointValueOffset c) v, ?_, ?_, ?_⟩
        · simp [finishPoint, pointStore, haligned, hheader]
        · rw [pointValue, load_save]
        · exact ⟨⟨haligned, hheader⟩, nofun, fun _ => save_outside _ _⟩
      · left
        simp [finishPoint, pointStore, haligned, hheader]
    · left
      simp [finishPoint, pointStore, haligned]

end Records

/-! ## §3 The functions of numbers -/

/-- An outcome that is the store of what the operation gives, or a refusal. -/
def Settles (c : Adapter) (m : Memory) (call : Call) (outcome : Outcome) : Prop :=
  outcome = (-1, m) ∨ ∃ m', outcome = (0, m') ∧ call.operation c m = some (call.newValue c m') ∧
    Stored c m m' call.output ∧ (∀ x ∈ call.inputs ++ call.contexts, x.Valid c m) ∧
    ∀ x y, Compared call x y → ¬ x.Overlaps c y

/-- Objects of one kind that are identical or apart do not overlap. -/
theorem not_overlaps_of_inputsApart {c : Adapter} {kind : Kind} {result : ℕ} {inputs : List ℕ}
    (h : inputsApart (Object.layout c ⟨kind, result⟩).size result inputs = true) {x y : Object}
    (hx : x ∈ (⟨kind, result⟩ : Object) :: inputs.map (Object.mk kind))
    (hy : y ∈ (⟨kind, result⟩ : Object) :: inputs.map (Object.mk kind)) : ¬ x.Overlaps c y := by
  rw [← List.map_cons (f := Object.mk kind)] at hx hy
  obtain ⟨p, hp, rfl⟩ := List.mem_map.mp hx
  obtain ⟨q, hq, rfl⟩ := List.mem_map.mp hy
  rintro ⟨hne, hoverlap⟩
  rcases apart_of_inputsApart h hp hq with rfl | hapart
  · exact hne rfl
  · exact hapart hoverlap

section Numbers

variable {c : Adapter} {m : Memory} {a b modulus value result : ℕ}

/-- The inputs are numbers, and apart from each other and from the output or identical. -/
structure NumbersReady (c : Adapter) (m : Memory) (result : ℕ) (inputs : List ℕ) : Prop where
  valid : ∀ p ∈ inputs, Object.Valid c m ⟨.bignum, p⟩
  apart : inputsApart (bignumLayout c).size result inputs = true

theorem finishNumbers_cases {inputs : List ℕ} (value : Option c.Bignum)
    (halias : bignumAliases (bignumLayout c) result inputs = true)
    (hvalid : ∀ p ∈ inputs, Object.Valid c m ⟨.bignum, p⟩) :
    finishBignum c m result value = (-1, m) ∨ ∃ m', finishBignum c m result value = (0, m') ∧
      value = some (bignumValue c m' result) ∧ Stored c m m' ⟨.bignum, result⟩ ∧
      NumbersReady c m result inputs := by
  obtain hrefused | ⟨m', hout, hvalue, hstored⟩ := finishBignum_cases value
  · exact Or.inl hrefused
  · exact Or.inr ⟨m', hout, hvalue, hstored, hvalid, inputsApart_of_bignumAliases halias⟩

theorem bignumBinary_cases (operation : c.Bignum → c.Bignum → Option c.Bignum) :
    bignumBinary c m a b result operation = (-1, m) ∨
      ∃ m', bignumBinary c m a b result operation = (0, m') ∧
        operation (bignumValue c m a) (bignumValue c m b) = some (bignumValue c m' result) ∧
        Stored c m m' ⟨.bignum, result⟩ ∧ NumbersReady c m result [a, b] := by
  rw [bignumBinary]
  split
  · exact Or.inl rfl
  next halias =>
    rw [Bool.not_eq_true, Bool.not_eq_false'] at halias
    split
    next x y hx hy =>
      obtain ⟨hxvalid, rfl⟩ := valid_of_bignumClone hx
      obtain ⟨hyvalid, rfl⟩ := valid_of_bignumClone hy
      exact finishNumbers_cases _ halias (by simp [hxvalid, hyvalid])
    next => exact Or.inl rfl

theorem bignumTernary_cases (operation : c.Bignum → c.Bignum → c.Bignum → Option c.Bignum) :
    bignumTernary c m a b modulus result operation = (-1, m) ∨
      ∃ m', bignumTernary c m a b modulus result operation = (0, m') ∧
        operation (bignumValue c m a) (bignumValue c m b) (bignumValue c m modulus) =
          some (bignumValue c m' result) ∧
        Stored c m m' ⟨.bignum, result⟩ ∧ NumbersReady c m result [a, b, modulus] := by
  rw [bignumTernary]
  split
  · exact Or.inl rfl
  next halias =>
    rw [Bool.not_eq_true, Bool.not_eq_false'] at halias
    split
    next x y z hx hy hz =>
      obtain ⟨hxvalid, rfl⟩ := valid_of_bignumClone hx
      obtain ⟨hyvalid, rfl⟩ := valid_of_bignumClone hy
      obtain ⟨hzvalid, rfl⟩ := valid_of_bignumClone hz
      exact finishNumbers_cases _ halias (by simp [hxvalid, hyvalid, hzvalid])
    next => exact Or.inl rfl

theorem cryptoBignumRshift_cases (bits : Int32) :
    cryptoBignumRshift c m value bits result = (-1, m) ∨
      ∃ m', cryptoBignumRshift c m value bits result = (0, m') ∧
        some (c.rshift (bignumValue c m value) bits.toUInt32) = some (bignumValue c m' result) ∧
        Stored c m m' ⟨.bignum, result⟩ ∧ NumbersReady c m result [value] := by
  rw [cryptoBignumRshift]
  split
  · exact Or.inl rfl
  next halias =>
    rw [Bool.not_eq_true, Bool.or_eq_false_iff, Bool.not_eq_false'] at halias
    split
    next x hx =>
      obtain ⟨hxvalid, rfl⟩ := valid_of_bignumClone hx
      exact finishNumbers_cases _ halias.2 (by simp [hxvalid])
    next => exact Or.inl rfl

/-- A call on numbers. -/
theorem settles_of_numbers {call : Call} {inputs : List ℕ} {outcome : Outcome}
    (houtput : call.output = ⟨.bignum, result⟩) (hinputs : call.inputs = inputs.map (Object.mk .bignum))
    (hcontexts : call.contexts = [])
    (h : outcome = (-1, m) ∨ ∃ m', outcome = (0, m') ∧
      call.operation c m = some (.bignum (bignumValue c m' result)) ∧
      Stored c m m' ⟨.bignum, result⟩ ∧ NumbersReady c m result inputs) :
    Settles c m call outcome := by
  obtain hrefused | ⟨m', hout, hvalue, hstored, hready⟩ := h
  · exact Or.inl hrefused
  refine Or.inr ⟨m', hout, ?_, ?_, ?_, ?_⟩
  · rw [hvalue, Call.newValue, houtput]
  · rw [houtput]
    exact hstored
  · rw [hinputs, hcontexts, List.append_nil]
    rintro x hx
    obtain ⟨p, hp, rfl⟩ := List.mem_map.mp hx
    exact hready.valid p hp
  · rintro x y hcompared
    rw [Compared, houtput, hinputs, hcontexts] at hcompared
    rcases hcompared with ⟨hx, hy⟩ | ⟨_, hy⟩
    · have hapart : inputsApart (Object.layout c ⟨.bignum, result⟩).size result inputs = true :=
        hready.apart
      exact not_overlaps_of_inputsApart hapart hx hy
    · exact absurd hy List.not_mem_nil

end Numbers

/-! ## §4 The functions of points -/

section Points

variable {c : Adapter} {m : Memory} {context a b point scalar result : ℕ}

/-- The output is apart from the context, and identical to the points that are read or apart. -/
structure PointsReady (c : Adapter) (m : Memory) (context result : ℕ) (inputs : List ℕ) : Prop where
  group : Object.Valid c m ⟨.context, context⟩
  valid : ∀ p ∈ inputs, Object.Valid c m ⟨.point, p⟩
  context : rangesOverlap result (pointLayout c).size context (ecLayout c).size = some false
  apart : inputsApart (pointLayout c).size result inputs = true

theorem PointsReady.not_overlaps_context {inputs : List ℕ} (h : PointsReady c m context result inputs) :
    ¬ Object.Overlaps c ⟨.point, result⟩ ⟨.context, context⟩ :=
  fun hoverlap => apart_of_rangesOverlap h.context hoverlap.2

theorem finishPoints_cases {inputs : List ℕ} {group : c.Group} (value : Option c.Point)
    (hgroup : ecGroup c m context = some group)
    (halias : EcProvider.pointAliases (layouts c) context result inputs = true)
    (hvalid : ∀ p ∈ inputs, Object.Valid c m ⟨.point, p⟩) :
    finishPoint c m result value = (-1, m) ∨ ∃ m', finishPoint c m result value = (0, m') ∧
      value = some (pointValue c m' result) ∧ Stored c m m' ⟨.point, result⟩ ∧
      PointsReady c m context result inputs := by
  obtain ⟨hcontext, happart⟩ := of_pointAliases halias
  obtain hrefused | ⟨m', hout, hvalue, hstored⟩ := finishPoint_cases value
  · exact Or.inl hrefused
  · exact Or.inr ⟨m', hout, hvalue, hstored, (valid_of_ecGroup hgroup).1, hvalid, hcontext, happart⟩

theorem cryptoEcPointAdd_cases :
    cryptoEcPointAdd c m context a b result = (-1, m) ∨
      ∃ m', cryptoEcPointAdd c m context a b result = (0, m') ∧
        pointAddValue c (groupValue c m context) (pointValue c m a) (pointValue c m b) =
          some (pointValue c m' result) ∧
        Stored c m m' ⟨.point, result⟩ ∧ PointsReady c m context result [a, b] := by
  rw [cryptoEcPointAdd]
  split
  · exact Or.inl rfl
  next group hgroup =>
    split
    · exact Or.inl rfl
    next halias =>
      rw [Bool.not_eq_true, Bool.not_eq_false'] at halias
      split
      next x y hx hy =>
        obtain ⟨hxvalid, rfl⟩ := valid_of_pointClone hx
        obtain ⟨hyvalid, rfl⟩ := valid_of_pointClone hy
        obtain rfl := (valid_of_ecGroup hgroup).2
        exact finishPoints_cases _ hgroup halias (by simp [hxvalid, hyvalid])
      next => exact Or.inl rfl

theorem cryptoEcPointMul_cases :
    cryptoEcPointMul c m context point scalar result = (-1, m) ∨
      ∃ m', cryptoEcPointMul c m context point scalar result = (0, m') ∧
        pointMulValue c (groupValue c m context) (pointValue c m point) (bignumValue c m scalar) =
          some (pointValue c m' result) ∧
        Stored c m m' ⟨.point, result⟩ ∧ PointsReady c m context result [point] ∧
        Object.Valid c m ⟨.bignum, scalar⟩ ∧
        rangesOverlap result (pointLayout c).size scalar (bignumLayout c).size = some false ∧
        rangesOverlap point (pointLayout c).size scalar (bignumLayout c).size = some false := by
  rw [cryptoEcPointMul]
  split
  · exact Or.inl rfl
  next group hgroup =>
    split
    · exact Or.inl rfl
    next halias =>
      rw [Bool.not_eq_true, Bool.or_eq_false_iff, Bool.or_eq_false_iff, Bool.not_eq_false',
        bne_eq_false_iff_eq, bne_eq_false_iff_eq] at halias
      obtain ⟨⟨halias, hresult⟩, hpoint⟩ := halias
      split
      next x k hx hk =>
        obtain ⟨hxvalid, rfl⟩ := valid_of_pointClone hx
        obtain ⟨hkvalid, rfl⟩ := valid_of_bignumClone hk
        obtain rfl := (valid_of_ecGroup hgroup).2
        obtain hrefused | ⟨m', hout, hvalue, hstored, hready⟩ := finishPoints_cases
          (pointMulValue c (groupValue c m context) (pointValue c m point) (bignumValue c m scalar))
          hgroup halias (by simp [hxvalid])
        · exact Or.inl hrefused
        · exact Or.inr ⟨m', hout, hvalue, hstored, hready, hkvalid, hresult, hpoint⟩
      next => exact Or.inl rfl

theorem cryptoEcPointInvert_cases :
    cryptoEcPointInvert c m context point = (-1, m) ∨
      ∃ m', cryptoEcPointInvert c m context point = (0, m') ∧
        pointInverse c (groupValue c m context) (pointValue c m point) = some (pointValue c m' point) ∧
        Stored c m m' ⟨.point, point⟩ ∧ PointsReady c m context point [point] := by
  rw [cryptoEcPointInvert]
  split
  · exact Or.inl rfl
  next group hgroup =>
    split
    · exact Or.inl rfl
    next halias =>
      rw [Bool.not_eq_true, Bool.not_eq_false'] at halias
      split
      next => exact Or.inl rfl
      next x hx =>
        obtain ⟨hxvalid, rfl⟩ := valid_of_pointClone hx
        obtain rfl := (valid_of_ecGroup hgroup).2
        rw [pointInverse]
        split
        · obtain ⟨hcontext, happart⟩ := of_pointAliases halias
          -- the identity is its own inverse, and nothing is stored
          exact Or.inr ⟨m, rfl, rfl, ⟨hxvalid, nofun, fun _ _ => rfl⟩,
            (valid_of_ecGroup hgroup).1, by simp [hxvalid], hcontext, happart⟩
        · exact finishPoints_cases _ hgroup halias (by simp [hxvalid])

/-- A call on two points, or on one. -/
theorem settles_of_points {call : Call} {inputs : List ℕ} {outcome : Outcome}
    (houtput : call.output = ⟨.point, result⟩) (hinputs : call.inputs = inputs.map (Object.mk .point))
    (hcontexts : call.contexts = [⟨.context, context⟩])
    (h : outcome = (-1, m) ∨ ∃ m', outcome = (0, m') ∧
      call.operation c m = some (.point (pointValue c m' result)) ∧
      Stored c m m' ⟨.point, result⟩ ∧ PointsReady c m context result inputs) :
    Settles c m call outcome := by
  obtain hrefused | ⟨m', hout, hvalue, hstored, hready⟩ := h
  · exact Or.inl hrefused
  refine Or.inr ⟨m', hout, ?_, ?_, ?_, ?_⟩
  · rw [hvalue, Call.newValue, houtput]
  · rw [houtput]
    exact hstored
  · rw [hinputs, hcontexts]
    rintro x hx
    rcases List.mem_append.mp hx with hx | hx
    · obtain ⟨p, hp, rfl⟩ := List.mem_map.mp hx
      exact hready.valid p hp
    · rw [List.mem_singleton.mp hx]
      exact hready.group
  · rintro x y hcompared
    rw [Compared, houtput, hinputs, hcontexts] at hcompared
    rcases hcompared with ⟨hx, hy⟩ | ⟨rfl, hy⟩
    · have hapart : inputsApart (Object.layout c ⟨.point, result⟩).size result inputs = true :=
        hready.apart
      exact not_overlaps_of_inputsApart hapart hx hy
    · rw [List.mem_singleton.mp hy]
      exact hready.not_overlaps_context

/-- A call on a point and a number. -/
theorem settles_pointMul :
    Settles c m (.pointMul context point scalar result) (cryptoEcPointMul c m context point scalar result) := by
  obtain hrefused | ⟨m', hout, hvalue, hstored, hready, hscalar, hresult, hpoint⟩ := cryptoEcPointMul_cases
  · exact Or.inl hrefused
  refine Or.inr ⟨m', hout, ?_, hstored, ?_, ?_⟩
  · rw [Call.operation, hvalue]
    rfl
  · simp [Call.inputs, Call.contexts, hready.valid point, hscalar, hready.group]
  · have hapart : inputsApart (Object.layout c ⟨.point, result⟩).size result [point] = true := hready.apart
    have hnumber {p : ℕ} (hp : rangesOverlap p (pointLayout c).size scalar (bignumLayout c).size =
        some false) : ¬ Object.Overlaps c ⟨.point, p⟩ ⟨.bignum, scalar⟩ :=
      fun hoverlap => apart_of_rangesOverlap hp hoverlap.2
    have hswap {x y : Object} (h : ¬ x.Overlaps c y) : ¬ y.Overlaps c x :=
      fun hoverlap => h ⟨hoverlap.1.symm, hoverlap.2.symm⟩
    rintro x y (⟨hx, hy⟩ | ⟨rfl, hy⟩)
    · simp only [Call.output, Call.inputs, List.mem_cons, List.not_mem_nil, or_false] at hx hy
      rcases hx with rfl | rfl | rfl <;> rcases hy with rfl | rfl | rfl
      · exact fun hoverlap => hoverlap.1 rfl
      · exact not_overlaps_of_inputsApart hapart (by simp) (by simp)
      · exact hnumber hresult
      · exact not_overlaps_of_inputsApart hapart (by simp) (by simp)
      · exact fun hoverlap => hoverlap.1 rfl
      · exact hnumber hpoint
      · exact hswap (hnumber hresult)
      · exact hswap (hnumber hpoint)
      · exact fun hoverlap => hoverlap.1 rfl
    · rw [List.mem_singleton.mp hy]
      exact hready.not_overlaps_context

end Points

/-! ## §5 The law -/

section Law

variable {c : Adapter} {m : Memory} {a b modulus result : ℕ} {call : Call}

theorem settles_binary {operation : c.Bignum → c.Bignum → Option c.Bignum}
    (hoperation : call.operation c m = (operation (bignumValue c m a) (bignumValue c m b)).map .bignum)
    (houtput : call.output = ⟨.bignum, result⟩)
    (hinputs : call.inputs = [a, b].map (Object.mk .bignum)) (hcontexts : call.contexts = []) :
    Settles c m call (bignumBinary c m a b result operation) := by
  refine settles_of_numbers houtput hinputs hcontexts ((bignumBinary_cases operation).imp_right ?_)
  rintro ⟨m', hout, hvalue, hstored⟩
  exact ⟨m', hout, by rw [hoperation, hvalue, Option.map_some], hstored⟩

theorem settles_ternary {operation : c.Bignum → c.Bignum → c.Bignum → Option c.Bignum}
    (hoperation : call.operation c m =
      (operation (bignumValue c m a) (bignumValue c m b) (bignumValue c m modulus)).map .bignum)
    (houtput : call.output = ⟨.bignum, result⟩)
    (hinputs : call.inputs = [a, b, modulus].map (Object.mk .bignum)) (hcontexts : call.contexts = []) :
    Settles c m call (bignumTernary c m a b modulus result operation) := by
  refine settles_of_numbers houtput hinputs hcontexts ((bignumTernary_cases operation).imp_right ?_)
  rintro ⟨m', hout, hvalue, hstored⟩
  exact ⟨m', hout, by rw [hoperation, hvalue, Option.map_some], hstored⟩

theorem settles_perform (c : Adapter) (m : Memory) (call : Call) : Settles c m call (perform c m call) := by
  cases call with
  | add a b result => exact settles_binary rfl rfl rfl rfl
  | sub a b result => exact settles_binary rfl rfl rfl rfl
  | div a b result => exact settles_binary rfl rfl rfl rfl
  | mod a b result => exact settles_binary rfl rfl rfl rfl
  | inverse value modulus result => exact settles_binary rfl rfl rfl rfl
  | sqrmod value modulus result => exact settles_binary rfl rfl rfl rfl
  | addmod a b modulus result => exact settles_ternary rfl rfl rfl rfl
  | exptmod base exponent modulus result => exact settles_ternary rfl rfl rfl rfl
  | mulmod a b modulus result => exact settles_ternary rfl rfl rfl rfl
  | rshift value bits result =>
    have hinputs : (Call.rshift value bits result).inputs = [value].map (Object.mk .bignum) := rfl
    refine settles_of_numbers rfl hinputs rfl ((cryptoBignumRshift_cases bits).imp_right ?_)
    rintro ⟨m', hout, hvalue, hstored⟩
    exact ⟨m', hout, by rw [Call.operation, Option.some.inj hvalue], hstored⟩
  | pointAdd context a b result =>
    have hinputs : (Call.pointAdd context a b result).inputs = [a, b].map (Object.mk .point) := rfl
    refine settles_of_points rfl hinputs rfl (cryptoEcPointAdd_cases.imp_right ?_)
    rintro ⟨m', hout, hvalue, hstored⟩
    exact ⟨m', hout, by rw [Call.operation, hvalue, Option.map_some], hstored⟩
  | pointMul context point scalar result => exact settles_pointMul
  | pointInvert context point =>
    have hinputs : (Call.pointInvert context point).inputs = [point].map (Object.mk .point) := rfl
    refine settles_of_points rfl hinputs rfl (cryptoEcPointInvert_cases.imp_right ?_)
    rintro ⟨m', hout, hvalue, hstored⟩
    exact ⟨m', hout, by rw [Call.operation, hvalue, Option.map_some], hstored⟩

theorem atomic_of_settles {outcome : Outcome} (h : Settles c m call outcome) : Atomic c m call outcome := by
  rcases h with rfl | ⟨m', rfl, hvalue, hstored, hvalid, -⟩
  · have hne : ¬ (-1 : Int32) = 0 := by decide
    exact ⟨Or.inr rfl, fun _ => rfl, fun h => absurd h hne, fun h => absurd h hne,
      fun h => absurd h hne, fun h => absurd h hne⟩
  · have hne : ¬ (0 : Int32) = -1 := by decide
    exact ⟨Or.inl rfl, fun h => absurd h hne, fun _ => hvalue, fun _ => hstored.frame,
      fun _ => List.forall_mem_cons.mpr ⟨hstored.valid, hvalid⟩, fun _ => hstored.owned⟩

/-- Every call is atomic, and refuses arguments that overlap where it compares them. -/
theorem crypto_call_atomic (c : Adapter) (m : Memory) (call : Call) :
    Atomic c m call (perform c m call) ∧
      ∀ x y, Compared call x y → x.Overlaps c y → (perform c m call).1 = -1 := by
  have h := settles_perform c m call
  refine ⟨atomic_of_settles h, fun x y hcompared hoverlap => ?_⟩
  rcases h with hrefused | ⟨m', _, _, _, _, happart⟩
  · rw [hrefused]
  · exact absurd hoverlap (happart x y hcompared)

/-- An adapter in whose calls below every point is the identity. -/
def identityAdapter : Adapter where
  Bignum := Vector UInt8 64
  toNat := fun v => BigEndian.fromBe v.toList
  writeBe := fun _ _ => none
  initSet := fun _ => none
  inverse := fun _ _ => none
  squareMod := fun _ _ => none
  expMod := fun _ _ _ => none
  mulMod := fun _ _ _ => none
  legendre := fun _ _ => none
  Field := Unit
  fieldVal := fun _ => 0
  fieldZero := ()
  fieldIsZero := fun _ => true
  tryFromBeBytes := fun _ => none
  asBeBytes := fun _ => []
  fieldPowHardware := fun _ _ => none
  fieldSquareHardware := fun _ => none
  fieldMulHardware := fun _ _ => none
  Group := Vector UInt8 2
  groupId := fun g => UInt32.ofNat (g.toList.foldr (fun byte n => byte.toNat + 256 * n) 0)
  group19 := 19
  Point := Vector UInt8 65
  toPoint := fun _ => 0
  identity := fun _ => Vector.replicate 65 0
  pointIsInfinity := fun _ v => v == Vector.replicate 65 0
  pointToXy := fun _ _ => none
  pointFromXy := fun _ _ _ => none
  pointAddHardware := fun _ _ => none
  pointMulHardware := fun _ _ => none
  pointInvertHardware := fun _ => none
  add := fun _ _ => none
  sub := fun _ _ => none
  div := fun _ _ => none
  modulo := fun _ _ => none
  addMod := fun _ _ _ => none
  rshift := fun v _ => v
  bignumCodec := Codec.bytes 64
  groupCodec := Codec.bytes 2
  pointCodec := Codec.bytes 65

/-- A context at 4096, which holds the group and then the header of a point; and two points. -/
def identityMemory : Memory :=
  write (write (write (fun _ => 0) 4096 [0x39, 0x31, 0x43, 0x45, 19, 0, 0, 0, 0x39, 0x31, 0x54, 0x50])
    8192 [0x39, 0x31, 0x54, 0x50]) 12288 [0x39, 0x31, 0x54, 0x50]

/-- The sum of a point that lies in the context and another one is stored. -/
theorem not_aliasSafe : ¬ ∀ (c : Adapter) (m : Memory) (call : Call), AliasSafe c m call := by
  rintro h
  have hrefused := (h identityAdapter identityMemory (.pointAdd 4096 4104 8192 12288)).2
    ⟨.point, 4104⟩ (by simp [Call.inputs]) ⟨.context, 4096⟩ (by simp [Call.contexts])
    ⟨by decide, by decide +kernel, by decide +kernel⟩
  have hstored : (perform identityAdapter identityMemory (.pointAdd 4096 4104 8192 12288)).1 = 0 := by
    decide +kernel
  rw [hstored] at hrefused
  exact absurd hrefused (by decide)

end Law

/-! ## §6 Objects by address -/

section Refinement

variable {c : Adapter} {m : Memory} {a b modulus context point scalar result : ℕ}

/-- The numbers at all addresses, as `Crypto.Bignum` has them. -/
def numbersOf (c : Adapter) (m : Memory) : Objects (BignumObject c.Bignum) :=
  fun p => ⟨word m p, word m (p + 4), bignumValue c m p⟩

def pointsOf (c : Adapter) (m : Memory) : Objects (PointObject c.Point) :=
  fun p => ⟨word m p, pointValue c m p⟩

/-- The objects at all addresses, as `Crypto.Points` has them. -/
def heapOf (c : Adapter) (m : Memory) : Heap c.toEcProvider where
  contexts := fun p => ⟨word m p, groupValue c m p⟩
  points := pointsOf c m
  bignums := numbersOf c m

/-- The same status, and the same objects at the output and apart from it. -/
def Agrees {α : Type} (objectsOf : Memory → Objects α) (size result : ℕ) (outcome : Outcome)
    (outcome' : Int32 × Objects α) : Prop :=
  outcome.1 = outcome'.1 ∧ ∀ p, p = result ∨ p + size ≤ result ∨ result + size ≤ p →
    objectsOf outcome.2 p = outcome'.2 p

theorem Agrees.refl {α : Type} {objectsOf : Memory → Objects α} {size : ℕ} (status : Int32) (m : Memory) :
    Agrees objectsOf size result (status, m) (status, objectsOf m) := ⟨rfl, fun _ _ => rfl⟩

theorem bignumValueOffset_le (c : Adapter) : 8 ≤ bignumValueOffset c := le_roundUp c.bignumCodec.align_pos

theorem bignumValue_in_layout (c : Adapter) :
    bignumValueOffset c + c.bignumCodec.size ≤ (bignumLayout c).size :=
  le_roundUp (lt_of_lt_of_le (by decide) (Nat.le_max_left 4 _))

theorem pointValueOffset_le (c : Adapter) : 4 ≤ pointValueOffset c := le_roundUp c.pointCodec.align_pos

theorem pointValue_in_layout (c : Adapter) :
    pointValueOffset c + c.pointCodec.size ≤ (pointLayout c).size :=
  le_roundUp (lt_of_lt_of_le (by decide) (Nat.le_max_left 4 _))

/-- Both stores look at the same words. -/
theorem bignumStore_cases (m : Memory) (result : ℕ) (v : c.Bignum) :
    bignumStore c m result v = none ∧ Crypto.bignumStore (bignumLayout c) (numbersOf c m) result v = none ∨
      bignumStore c m result v = some (save c.bignumCodec m (result + bignumValueOffset c) v) ∧
        Crypto.bignumStore (bignumLayout c) (numbersOf c m) result v =
          some (Function.update (numbersOf c m) result { numbersOf c m result with value := v }) := by
  by_cases haligned : (!aligned (bignumLayout c) result) = true
  · exact Or.inl ⟨if_pos haligned, if_pos haligned⟩
  by_cases hheader : (word m result != bignumMagic || word m (result + 4) != owned) = true
  · exact Or.inl ⟨(if_neg haligned).trans (if_pos hheader), (if_neg haligned).trans (if_pos hheader)⟩
  · exact Or.inr ⟨(if_neg haligned).trans (if_neg hheader), (if_neg haligned).trans (if_neg hheader)⟩

/-- A store of a value leaves the words in front of it and everything apart from the object. -/
theorem numbersOf_save (v : c.Bignum) {p : ℕ}
    (hp : p = result ∨ p + (bignumLayout c).size ≤ result ∨ result + (bignumLayout c).size ≤ p) :
    numbersOf c (save c.bignumCodec m (result + bignumValueOffset c) v) p =
      Function.update (numbersOf c m) result { numbersOf c m result with value := v } p := by
  have hoffset := bignumValueOffset_le c
  have hlayout := bignumValue_in_layout c
  rcases hp with rfl | hp
  · rw [Function.update_self, numbersOf, numbersOf, word_save _ v (by omega), word_save _ v (by omega),
      bignumValue, load_save]
  · rw [Function.update_of_ne (by omega), numbersOf, numbersOf, word_save _ v (by omega),
      word_save _ v (by omega), bignumValue, bignumValue, load_save_apart _ _ v (by omega)]

theorem finishBignum_agrees (value : Option c.Bignum) :
    Agrees (numbersOf c) (bignumLayout c).size result (finishBignum c m result value)
      (finishCall (bignumLayout c) (numbersOf c m) result value) := by
  cases value with
  | none => exact Agrees.refl _ _
  | some v =>
    rw [finishBignum, finishCall, Option.bind_some, Option.bind_some]
    obtain ⟨hbytes, hobjects⟩ | ⟨hbytes, hobjects⟩ := bignumStore_cases m result v
    · rw [hbytes, hobjects]
      exact Agrees.refl _ _
    · rw [hbytes, hobjects]
      exact ⟨rfl, fun p hp => numbersOf_save v hp⟩

/-- On numbers the two models agree. -/
theorem bignumBinary_agrees (operation : c.Bignum → c.Bignum → Option c.Bignum) :
    Agrees (numbersOf c) (bignumLayout c).size result (bignumBinary c m a b result operation)
      (Crypto.bignumBinary (bignumLayout c) (numbersOf c m) a b result operation) := by
  have hclone (p : ℕ) : Crypto.bignumClone (bignumLayout c) (numbersOf c m) p = bignumClone c m p := rfl
  rw [bignumBinary, Crypto.bignumBinary, hclone, hclone]
  split
  · exact Agrees.refl _ _
  · match bignumClone c m a, bignumClone c m b with
    | some a, some b => exact finishBignum_agrees _
    | some a, none => exact Agrees.refl _ _
    | none, _ => exact Agrees.refl _ _

theorem bignumTernary_agrees (operation : c.Bignum → c.Bignum → c.Bignum → Option c.Bignum) :
    Agrees (numbersOf c) (bignumLayout c).size result (bignumTernary c m a b modulus result operation)
      (Crypto.bignumTernary (bignumLayout c) (numbersOf c m) a b modulus result operation) := by
  have hclone (p : ℕ) : Crypto.bignumClone (bignumLayout c) (numbersOf c m) p = bignumClone c m p := rfl
  rw [bignumTernary, Crypto.bignumTernary, hclone, hclone, hclone]
  split
  · exact Agrees.refl _ _
  · match bignumClone c m a, bignumClone c m b, bignumClone c m modulus with
    | some a, some b, some modulus => exact finishBignum_agrees _
    | some a, some b, none => exact Agrees.refl _ _
    | some a, none, _ => exact Agrees.refl _ _
    | none, _, _ => exact Agrees.refl _ _

theorem pointStore_cases (m : Memory) (result : ℕ) (v : c.Point) :
    pointStore c m result v = none ∧
        c.toEcProvider.pointStore (layouts c) (heapOf c m) result v = none ∨
      pointStore c m result v = some (save c.pointCodec m (result + pointValueOffset c) v) ∧
        c.toEcProvider.pointStore (layouts c) (heapOf c m) result v =
          some (Function.update (pointsOf c m) result { pointsOf c m result with value := v }) := by
  by_cases haligned : (!aligned (pointLayout c) result) = true
  · exact Or.inl ⟨if_pos haligned, if_pos haligned⟩
  by_cases hheader : (word m result != pointMagic) = true
  · exact Or.inl ⟨(if_neg haligned).trans (if_pos hheader), (if_neg haligned).trans (if_pos hheader)⟩
  · exact Or.inr ⟨(if_neg haligned).trans (if_neg hheader), (if_neg haligned).trans (if_neg hheader)⟩

theorem pointsOf_save (v : c.Point) {p : ℕ}
    (hp : p = result ∨ p + (pointLayout c).size ≤ result ∨ result + (pointLayout c).size ≤ p) :
    pointsOf c (save c.pointCodec m (result + pointValueOffset c) v) p =
      Function.update (pointsOf c m) result { pointsOf c m result with value := v } p := by
  have hoffset := pointValueOffset_le c
  have hlayout := pointValue_in_layout c
  rcases hp with rfl | hp
  · rw [Function.update_self, pointsOf, pointsOf, word_save _ v (by omega), pointValue, load_save]
  · rw [Function.update_of_ne (by omega), pointsOf, pointsOf, word_save _ v (by omega), pointValue,
      pointValue, load_save_apart _ _ v (by omega)]

theorem finishPoint_agrees (value : Option c.Point) :
    Agrees (pointsOf c) (pointLayout c).size result (finishPoint c m result value)
      (c.toEcProvider.finishPoint (layouts c) (heapOf c m) result value) := by
  cases value with
  | none => exact Agrees.refl _ _
  | some v =>
    rw [finishPoint, EcProvider.finishPoint, Option.bind_some, Option.bind_some]
    obtain ⟨hbytes, hobjects⟩ | ⟨hbytes, hobjects⟩ := pointStore_cases m result v
    · rw [hbytes, hobjects]
      exact Agrees.refl _ _
    · rw [hbytes, hobjects]
      exact ⟨rfl, fun p hp => pointsOf_save v hp⟩

/-- On points the two models agree. -/
theorem cryptoEcPointAdd_agrees :
    Agrees (pointsOf c) (pointLayout c).size result (cryptoEcPointAdd c m context a b result)
      (c.toEcProvider.cryptoEcPointAdd (layouts c) (heapOf c m) context a b result) := by
  have hgroup : c.toEcProvider.ecGroup (layouts c) (heapOf c m) context = ecGroup c m context := rfl
  have hclone (p : ℕ) : c.toEcProvider.pointClone (layouts c) (heapOf c m) p = pointClone c m p := rfl
  rw [cryptoEcPointAdd, EcProvider.cryptoEcPointAdd, hgroup, hclone, hclone]
  match ecGroup c m context with
  | none => exact Agrees.refl _ _
  | some group =>
    dsimp only
    split
    · exact Agrees.refl _ _
    · match pointClone c m a, pointClone c m b with
      | some a, none => exact Agrees.refl _ _
      | none, _ => exact Agrees.refl _ _
      | some a, some b =>
        unfold pointAddValue
        dsimp only
        split
        · exact finishPoint_agrees _
        · split
          · exact finishPoint_agrees _
          · match c.pointToXy group a, c.pointToXy group b with
            | some (aX, aY), none => exact Agrees.refl _ _
            | none, _ => exact Agrees.refl _ _
            | some (aX, aY), some (bX, bY) =>
              dsimp only
              match c.pointAddHardware ⟨aX, aY⟩ ⟨bX, bY⟩ with
              | none => exact Agrees.refl _ _
              | some .infinity => exact finishPoint_agrees _
              | some (.affine sum) => exact finishPoint_agrees _

theorem cryptoEcPointMul_agrees :
    Agrees (pointsOf c) (pointLayout c).size result (cryptoEcPointMul c m context point scalar result)
      (c.toEcProvider.cryptoEcPointMul (layouts c) (heapOf c m) context point scalar result) := by
  have hgroup : c.toEcProvider.ecGroup (layouts c) (heapOf c m) context = ecGroup c m context := rfl
  have hclone (p : ℕ) : c.toEcProvider.pointClone (layouts c) (heapOf c m) p = pointClone c m p := rfl
  have hnumber (p : ℕ) :
      Crypto.bignumClone (layouts c).bignum (heapOf c m).bignums p = bignumClone c m p := rfl
  have hpoint : (layouts c).point = pointLayout c := rfl
  have hbignum : (layouts c).bignum = bignumLayout c := rfl
  rw [cryptoEcPointMul, EcProvider.cryptoEcPointMul, hgroup, hclone, hnumber, hpoint, hbignum]
  match ecGroup c m context with
  | none => exact Agrees.refl _ _
  | some group =>
    dsimp only
    split
    · exact Agrees.refl _ _
    · match pointClone c m point, bignumClone c m scalar with
      | some point, none => exact Agrees.refl _ _
      | none, _ => exact Agrees.refl _ _
      | some point, some scalar =>
        unfold pointMulValue
        dsimp only
        match c.pointToXy group point with
        | none => exact Agrees.refl _ _
        | some (x, y) =>
          dsimp only
          match c.writeBe scalar p256ElementBytes with
          | none => exact Agrees.refl _ _
          | some scalarBytes =>
            dsimp only
            match c.pointMulHardware ⟨x, y⟩ scalarBytes with
            | none => exact Agrees.refl _ _
            | some output => exact finishPoint_agrees _

theorem cryptoEcPointInvert_agrees :
    Agrees (pointsOf c) (pointLayout c).size point (cryptoEcPointInvert c m context point)
      (c.toEcProvider.cryptoEcPointInvert (layouts c) (heapOf c m) context point) := by
  have hgroup : c.toEcProvider.ecGroup (layouts c) (heapOf c m) context = ecGroup c m context := rfl
  have hclone (p : ℕ) : c.toEcProvider.pointClone (layouts c) (heapOf c m) p = pointClone c m p := rfl
  rw [cryptoEcPointInvert, EcProvider.cryptoEcPointInvert, hgroup, hclone]
  match ecGroup c m context with
  | none => exact Agrees.refl _ _
  | some group =>
    dsimp only
    split
    · exact Agrees.refl _ _
    · match pointClone c m point with
      | none => exact Agrees.refl _ _
      | some value =>
        unfold pointInvertValue
        dsimp only
        split
        · exact Agrees.refl _ _
        · match c.pointToXy group value with
          | none => exact Agrees.refl _ _
          | some (x, y) =>
            dsimp only
            match c.pointInvertHardware ⟨x, y⟩ with
            | none => exact Agrees.refl _ _
            | some output => exact finishPoint_agrees _

end Refinement

end HisiRiscv.Crypto.Bytes
