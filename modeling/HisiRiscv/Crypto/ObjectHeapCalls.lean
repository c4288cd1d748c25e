/-
HisiRiscv.Crypto.ObjectHeapCalls — calls on a heap that refines a store.

The objects of a store are apart, and so are the constants of a context, so that the alias checks of the
code pass where the store has what a call asks for, and the header of an object is
that of its type (`Refines.perform_zero`). A call that is carried out replaces the value of
its output and nothing else, as the store does (`Refines.call`, `Refines.rand`).

  §1 Alias checks.
  §2 What the store carries out.
  §3 What the code carries out.
-/
import HisiRiscv.Crypto.ObjectHeapLookup

namespace HisiRiscv.Crypto.Bytes

open HisiRiscv.ByteMemory HisiRiscv.Machine

/-! ## §1 Alias checks -/

theorem rangesOverlap_eq_false {a aLen b bLen : ℕ} (ha : a + aLen < 2 ^ 32) (hb : b + bLen < 2 ^ 32)
    (h : a + aLen ≤ b ∨ b + bLen ≤ a) : rangesOverlap a aLen b bLen = some false := by
  rw [rangesOverlap, checkedRange, checkedRange, if_pos ha, if_pos hb]
  dsimp only
  rw [Option.some_inj, Bool.and_eq_false_iff, decide_eq_false_iff_not, decide_eq_false_iff_not]
  omega

/-- The loop over the inputs passes if all pairs do. -/
theorem inputsPass_of_pairs {size output : ℕ} {inputs : List ℕ} (hpos : ∀ p ∈ inputs, p ≠ 0)
    (h : ∀ p ∈ output :: inputs, ∀ q ∈ output :: inputs, objectAliasIsValid p size q size = true) :
    inputsApart size output inputs = true := by
  refine List.all_eq_true.mpr fun pair hpair => ?_
  have hmem : pair.1 ∈ inputs := List.fst_mem_of_mem_zipIdx hpair
  rw [Bool.and_eq_true, Bool.and_eq_true, bne_iff_ne, List.all_eq_true]
  exact ⟨⟨hpos _ hmem, h _ List.mem_cons_self _ (List.mem_cons_of_mem _ hmem)⟩,
    fun other hother => h _ (List.mem_cons_of_mem _ hmem) _
      (List.mem_cons_of_mem _ (List.mem_of_mem_take hother))⟩

section Windows

variable {c : HeapAdapter} {s : State} {a : Store c.toAdapter} {e f : Entry c.toAdapter} {p q : ℕ}

theorem Refines.apart_of_ne (h : Refines s a) (he : e ∈ a.entries) (hf : f ∈ a.entries) (hne : e ≠ f) :
    e.Apart f := by
  have hsymm : Std.Symm (Entry.Apart (c := c.toAdapter)) := ⟨fun _ _ => Or.symm⟩
  exact h.apart.forall he hf hne

/-- The client reads a number at `p`, which lies in `e`. -/
structure NumberIn (e : Entry c.toAdapter) (p : ℕ) : Prop where
  le : e.address ≤ p
  fits : p + (bignumLayout c.toAdapter).size ≤ e.address + e.size
  place : e.content.kind = .bignum ∧ p = e.address ∨
    e.content.kind = .context ∧ ∃ name, p = e.address + Constant.offset c.toAdapter name

theorem Refines.number_in (h : Refines s a) {v : c.Bignum} (hv : a.number p = some v) :
    p ≠ 0 ∧ ∃ e ∈ a.entries, NumberIn e p := by
  obtain ⟨e, he, hat⟩ := List.exists_of_findSome?_eq_some hv
  have hne := (h.holds e he).address_ne_zero
  obtain ⟨address, content⟩ := e
  cases content with
  | number value =>
    obtain ⟨heq, -⟩ := Option.ite_none_right_eq_some.mp hat
    dsimp only at heq hne
    subst heq
    exact ⟨hne, _, he, Nat.le_refl _, Nat.le_refl _, Or.inl ⟨rfl, rfl⟩⟩
  | point value => cases hat
  | group group =>
    obtain ⟨name, -, hname⟩ := List.exists_of_findSome?_eq_some hat
    obtain ⟨heq, -⟩ := Option.ite_none_right_eq_some.mp hname
    have hlayout := Constant.in_layout c.toAdapter name
    dsimp only at heq hne
    subst heq
    refine ⟨by omega, _, he, Nat.le_add_right .., ?_, Or.inr ⟨rfl, name, rfl⟩⟩
    show address + _ + _ ≤ address + (ecLayout c.toAdapter).size
    omega

/-- Two numbers are identical or apart. -/
theorem Refines.numbers_alias (h : Refines s a) {v w : c.Bignum} (hp : a.number p = some v)
    (hq : a.number q = some w) :
    objectAliasIsValid p (bignumLayout c.toAdapter).size q (bignumLayout c.toAdapter).size = true := by
  obtain ⟨-, e, he, hple, hpfits, hpplace⟩ := h.number_in hp
  obtain ⟨-, f, hf, hqle, hqfits, hqplace⟩ := h.number_in hq
  have heplace := h.place e he
  have hfplace := h.place f hf
  rw [objectAliasIsValid, Bool.or_eq_true, beq_iff_eq, beq_iff_eq]
  refine or_iff_not_imp_left.mpr fun hne => rangesOverlap_eq_false (by omega) (by omega) ?_
  by_cases hef : e = f
  · subst hef
    rcases hpplace with ⟨hkind, rfl⟩ | ⟨hkind, name, rfl⟩ <;>
      rcases hqplace with ⟨hkind', hq⟩ | ⟨hkind', other, hq⟩
    · exact absurd hq.symm hne
    · rw [hkind] at hkind'
      cases hkind'
    · rw [hkind] at hkind'
      cases hkind'
    · subst hq
      have hname : name ≠ other := fun heq => hne (by rw [heq])
      have := Constant.apart c.toAdapter hname
      omega
  · have hapart := h.apart_of_ne he hf hef
    unfold Entry.Apart at hapart
    omega

theorem Refines.point_entry (h : Refines s a) {v : c.Point} (hp : a.point p = some v) :
    p ≠ 0 ∧ ∃ e ∈ a.entries, e.object = ⟨.point, p⟩ := by
  obtain ⟨e, he, hat⟩ := List.exists_of_findSome?_eq_some hp
  have hne := (h.holds e he).address_ne_zero
  obtain ⟨address, content⟩ := e
  cases content with
  | number _ | group _ => cases hat
  | point value =>
    obtain ⟨heq, -⟩ := Option.ite_none_right_eq_some.mp hat
    dsimp only at heq hne
    subst heq
    exact ⟨hne, _, he, rfl⟩

theorem Refines.group_entry {v : c.Group} (hp : a.group p = some v) :
    ∃ e ∈ a.entries, e.object = ⟨.context, p⟩ := by
  obtain ⟨e, he, hat⟩ := List.exists_of_findSome?_eq_some hp
  obtain ⟨address, content⟩ := e
  cases content with
  | number _ | point _ => cases hat
  | group group =>
    obtain ⟨heq, -⟩ := Option.ite_none_right_eq_some.mp hat
    dsimp only at heq
    subst heq
    exact ⟨_, he, rfl⟩

theorem Entry.size_eq {kind : Kind} (h : e.object = ⟨kind, p⟩) :
    e.address = p ∧ e.size = (Object.layout c.toAdapter ⟨kind, p⟩).size :=
  ⟨congrArg Object.address h, by rw [Entry.size, h]⟩

/-- Objects of different types are apart. -/
theorem Refines.ranges_apart (h : Refines s a) (he : e ∈ a.entries) (hf : f ∈ a.entries) (hne : e ≠ f)
    {pLen qLen : ℕ} (hp : e.address ≤ p ∧ p + pLen ≤ e.address + e.size)
    (hq : f.address ≤ q ∧ q + qLen ≤ f.address + f.size) : rangesOverlap p pLen q qLen = some false := by
  have heplace := h.place e he
  have hfplace := h.place f hf
  have hapart := h.apart_of_ne he hf hne
  unfold Entry.Apart at hapart
  exact rangesOverlap_eq_false (by omega) (by omega) (by omega)

theorem Refines.points_alias (h : Refines s a) {v w : c.Point} (hp : a.point p = some v)
    (hq : a.point q = some w) :
    objectAliasIsValid p (pointLayout c.toAdapter).size q (pointLayout c.toAdapter).size = true := by
  obtain ⟨-, e, he, hobj⟩ := h.point_entry hp
  obtain ⟨-, f, hf, hobj'⟩ := h.point_entry hq
  obtain ⟨hp', hsize⟩ := Entry.size_eq hobj
  obtain ⟨hq', hsize'⟩ := Entry.size_eq hobj'
  rw [objectAliasIsValid, Bool.or_eq_true, beq_iff_eq, beq_iff_eq]
  refine or_iff_not_imp_left.mpr fun hne => ?_
  refine h.ranges_apart he hf (fun heq => hne (by rw [← hp', ← hq', heq])) ⟨hp'.le, ?_⟩ ⟨hq'.le, ?_⟩
  · rw [hp', hsize]
    exact Nat.le_refl _
  · rw [hq', hsize']
    exact Nat.le_refl _

theorem Refines.point_context_apart (h : Refines s a) {v : c.Point} {g : c.Group} (hp : a.point p = some v)
    (hq : a.group q = some g) :
    rangesOverlap p (pointLayout c.toAdapter).size q (ecLayout c.toAdapter).size = some false := by
  obtain ⟨-, e, he, hobj⟩ := h.point_entry hp
  obtain ⟨f, hf, hobj'⟩ := Refines.group_entry hq
  obtain ⟨hp', hsize⟩ := Entry.size_eq hobj
  obtain ⟨hq', hsize'⟩ := Entry.size_eq hobj'
  refine h.ranges_apart he hf ?_ ⟨hp'.le, ?_⟩ ⟨hq'.le, ?_⟩
  · rintro rfl
    rw [hobj] at hobj'
    cases hobj'
  · rw [hp', hsize]
    exact Nat.le_refl _
  · rw [hq', hsize']
    exact Nat.le_refl _

theorem Refines.point_number_apart (h : Refines s a) {v : c.Point} {w : c.Bignum} (hp : a.point p = some v)
    (hq : a.number q = some w) :
    rangesOverlap p (pointLayout c.toAdapter).size q (bignumLayout c.toAdapter).size = some false := by
  obtain ⟨-, e, he, hobj⟩ := h.point_entry hp
  obtain ⟨-, f, hf, hle, hfits, hplace⟩ := h.number_in hq
  obtain ⟨hp', hsize⟩ := Entry.size_eq hobj
  refine h.ranges_apart he hf ?_ ⟨hp'.le, ?_⟩ ⟨hle, hfits⟩
  · rintro rfl
    have hkind : e.content.kind = .point := congrArg Object.kind hobj
    rw [hkind] at hplace
    rcases hplace with ⟨hfalse, -⟩ | ⟨hfalse, -⟩ <;> cases hfalse
  · rw [hp', hsize]
    exact Nat.le_refl _

end Windows

/-! ## §2 What the store carries out -/

section Calls

variable {c : HeapAdapter} {s : State} {a : Store c.toAdapter} {p result : ℕ}

/-- The client has a pointer. -/
abbrev Known (c : HeapAdapter) (s : State) (p : ℕ) : Prop := p ∈ pointers c.toAdapter s.handles

theorem mem_handles {x : Object} : x ∈ a.handles ↔ ∃ e ∈ a.entries, e.object = x := List.mem_map

theorem known_of_handle (h : Refines s a) {x : Object} (hx : x ∈ a.handles) : Known c s x.address := by
  refine List.mem_cons_of_mem _ (List.mem_flatMap.mpr ⟨x, ?_, List.mem_cons_self⟩)
  rw [h.handles]
  exact hx

theorem Refines.holdsBignum (h : Refines s a) (hx : ⟨.bignum, p⟩ ∈ a.handles) :
    ∃ value, HoldsBignum c.toAdapter s.memory p owned value := by
  obtain ⟨⟨address, content⟩, he, hobj⟩ := mem_handles.mp hx
  have hholds := h.holds _ he
  cases content with
  | number value =>
    cases hobj
    exact ⟨value, hholds⟩
  | point _ | group _ => cases hobj

theorem Refines.holdsPoint (h : Refines s a) (hx : ⟨.point, p⟩ ∈ a.handles) :
    ∃ value, HoldsPoint c.toAdapter s.memory p value := by
  obtain ⟨⟨address, content⟩, he, hobj⟩ := mem_handles.mp hx
  have hholds := h.holds _ he
  cases content with
  | point value =>
    cases hobj
    exact ⟨value, hholds⟩
  | number _ | group _ => cases hobj

theorem Refines.number_handle (h : Refines s a) (hx : ⟨.bignum, p⟩ ∈ a.handles) :
    ∃ value, a.number p = some value := by
  obtain ⟨value, hholds⟩ := h.holdsBignum hx
  exact ⟨value, (h.number_eq (known_of_handle h hx)).trans (bignumClone_eq_some hholds)⟩

theorem pointClone_eq_some {c : Adapter} {m : Memory} {value : c.Point} (h : HoldsPoint c m p value) :
    pointClone c m p = some value := by
  rw [pointClone, h.aligned, h.magic, h.value]
  rfl

theorem Refines.point_handle (h : Refines s a) (hx : ⟨.point, p⟩ ∈ a.handles) :
    ∃ value, a.point p = some value := by
  obtain ⟨value, hholds⟩ := h.holdsPoint hx
  exact ⟨value, (h.point_eq (known_of_handle h hx)).trans (pointClone_eq_some hholds)⟩

/-- A pointer of the client behind which the magic and the mark of a number lie is one of its numbers. -/
theorem Refines.handle_of_owned (h : Refines s a) (hp : Known c s p) (hne : p ≠ 0)
    (hmagic : word s.memory p = bignumMagic) (howned : word s.memory (p + 4) = owned) :
    ⟨.bignum, p⟩ ∈ a.handles := by
  obtain ⟨⟨address, content⟩, he, hat⟩ := (h.pointer_cases hp).resolve_left hne
  have hholds := h.holds _ he
  obtain rfl | ⟨group, name, hcontent, rfl⟩ := hat
  · cases content with
    | number value => exact mem_handles.mpr ⟨_, he, rfl⟩
    | point value | group value =>
      have hother := hholds.magic
      dsimp only at hmagic hother
      rw [hother] at hmagic
      exact absurd hmagic (by decide)
  · cases hcontent
    rw [(hholds.constants name).ownership] at howned
    exact absurd howned (by decide)

theorem Refines.handle_of_pointMagic (h : Refines s a) (hp : Known c s p) (hne : p ≠ 0)
    (hmagic : word s.memory p = pointMagic) : ⟨.point, p⟩ ∈ a.handles := by
  obtain ⟨⟨address, content⟩, he, hat⟩ := (h.pointer_cases hp).resolve_left hne
  have hholds := h.holds _ he
  obtain rfl | ⟨group, name, hcontent, rfl⟩ := hat
  · cases content with
    | point value => exact mem_handles.mpr ⟨_, he, rfl⟩
    | number value | group value =>
      have hother := hholds.magic
      dsimp only at hmagic hother
      rw [hother] at hmagic
      exact absurd hmagic (by decide)
  · cases hcontent
    rw [(hholds.constants name).magic] at hmagic
    exact absurd hmagic (by decide)

/-- A place for the result, and inputs that are numbers: the alias checks pass. -/
theorem Refines.bignumAliases_numbers (h : Refines s a) (hresult : ⟨.bignum, result⟩ ∈ a.handles)
    (inputs : List ℕ) (hinputs : ∀ p ∈ inputs, ∃ v, a.number p = some v) :
    bignumAliases (bignumLayout c.toAdapter) result inputs = true := by
  have hnumber : ∀ p ∈ result :: inputs, ∃ v, a.number p = some v :=
    List.forall_mem_cons.mpr ⟨h.number_handle hresult, hinputs⟩
  have hpos : ∀ p ∈ result :: inputs, p ≠ 0 := fun p hp => (h.number_in (hnumber p hp).choose_spec).1
  rw [bignumAliases, Bool.and_eq_true, bne_iff_ne]
  exact ⟨hpos _ List.mem_cons_self, inputsPass_of_pairs (fun p hp => hpos p (List.mem_cons_of_mem _ hp))
    fun p hp q hq => h.numbers_alias (hnumber p hp).choose_spec (hnumber q hq).choose_spec⟩

theorem Refines.pointAliases_points (h : Refines s a) {context : ℕ} {g : c.Group}
    (hgroup : a.group context = some g) (hresult : ⟨.point, result⟩ ∈ a.handles) (inputs : List ℕ)
    (hinputs : ∀ p ∈ inputs, ∃ v, a.point p = some v) :
    EcProvider.pointAliases (layouts c.toAdapter) context result inputs = true := by
  have hpoint : ∀ p ∈ result :: inputs, ∃ v, a.point p = some v :=
    List.forall_mem_cons.mpr ⟨h.point_handle hresult, hinputs⟩
  have hpos : ∀ p ∈ result :: inputs, p ≠ 0 := fun p hp => (h.point_entry (hpoint p hp).choose_spec).1
  obtain ⟨v, hv⟩ := h.point_handle hresult
  rw [EcProvider.pointAliases, Bool.and_eq_true, Bool.and_eq_true, bne_iff_ne, beq_iff_eq]
  exact ⟨⟨hpos _ List.mem_cons_self, h.point_context_apart hv hgroup⟩,
    inputsPass_of_pairs (fun p hp => hpos p (List.mem_cons_of_mem _ hp))
      fun p hp q hq => h.points_alias (hpoint p hp).choose_spec (hpoint q hq).choose_spec⟩

theorem Refines.finishBignum_zero (h : Refines s a) (hresult : ⟨.bignum, result⟩ ∈ a.handles)
    (value : c.Bignum) : (finishBignum c.toAdapter s.memory result (some value)).1 = 0 := by
  obtain ⟨old, hholds⟩ := h.holdsBignum hresult
  exact finishBignum_status_zero value ⟨hholds.aligned, hholds.magic⟩ hholds.ownership

theorem Refines.finishPoint_zero (h : Refines s a) (hresult : ⟨.point, result⟩ ∈ a.handles)
    (value : c.Point) : (finishPoint c.toAdapter s.memory result (some value)).1 = 0 := by
  obtain ⟨old, hholds⟩ := h.holdsPoint hresult
  simp [finishPoint, pointStore, hholds.aligned, hholds.magic]

/-- What a call of two numbers stores in the store, it stores in the heap. -/
theorem Refines.binary_zero (h : Refines s a) {x y : ℕ} (hx : Known c s x) (hy : Known c s y)
    {op : c.Bignum → c.Bignum → Option c.Bignum} {v : Content c.toAdapter}
    (hop : (do return .number (← op (← a.number x) (← a.number y))) = some v)
    (hresult : ⟨v.kind, result⟩ ∈ a.handles) :
    (bignumBinary c.toAdapter s.memory x y result op).1 = 0 := by
  obtain ⟨vx, hvx, hop⟩ := Option.bind_eq_some_iff.mp hop
  obtain ⟨vy, hvy, hop⟩ := Option.bind_eq_some_iff.mp hop
  obtain ⟨w, hw, hop⟩ := Option.bind_eq_some_iff.mp hop
  cases hop
  have halias := h.bignumAliases_numbers hresult [x, y] (by simp [hvx, hvy])
  rw [bignumBinary, halias, ← h.number_eq hx, ← h.number_eq hy, hvx, hvy]
  dsimp only
  rw [hw]
  exact h.finishBignum_zero hresult w

theorem Refines.ternary_zero (h : Refines s a) {x y z : ℕ} (hx : Known c s x) (hy : Known c s y)
    (hz : Known c s z) {op : c.Bignum → c.Bignum → c.Bignum → Option c.Bignum} {v : Content c.toAdapter}
    (hop : (do return .number (← op (← a.number x) (← a.number y) (← a.number z))) = some v)
    (hresult : ⟨v.kind, result⟩ ∈ a.handles) :
    (bignumTernary c.toAdapter s.memory x y z result op).1 = 0 := by
  obtain ⟨vx, hvx, hop⟩ := Option.bind_eq_some_iff.mp hop
  obtain ⟨vy, hvy, hop⟩ := Option.bind_eq_some_iff.mp hop
  obtain ⟨vz, hvz, hop⟩ := Option.bind_eq_some_iff.mp hop
  obtain ⟨w, hw, hop⟩ := Option.bind_eq_some_iff.mp hop
  cases hop
  have halias := h.bignumAliases_numbers hresult [x, y, z] (by simp [hvx, hvy, hvz])
  rw [bignumTernary, halias, ← h.number_eq hx, ← h.number_eq hy, ← h.number_eq hz, hvx, hvy, hvz]
  dsimp only
  rw [hw]
  exact h.finishBignum_zero hresult w

/-- What the store carries out, the code does not refuse. -/
theorem Refines.perform_zero (h : Refines s a) {call : Call} (hknown : ∀ p ∈ call.pointers, Known c s p)
    {v : Content c.toAdapter} (hop : a.operation call = some v)
    (hresult : ⟨v.kind, call.output.address⟩ ∈ a.handles) :
    (Bytes.perform c.toAdapter s.memory call).1 = 0 := by
  cases call with
  | add x y result | sub x y result | div x y result | mod x y result | inverse x y result
  | sqrmod x y result =>
    exact h.binary_zero (hknown x (by simp [Call.pointers, Call.inputs]))
      (hknown y (by simp [Call.pointers, Call.inputs])) hop hresult
  | addmod x y z result | exptmod x y z result | mulmod x y z result =>
    exact h.ternary_zero (hknown x (by simp [Call.pointers, Call.inputs]))
      (hknown y (by simp [Call.pointers, Call.inputs])) (hknown z (by simp [Call.pointers, Call.inputs]))
      hop hresult
  | rshift value bits result =>
    rw [Store.operation] at hop
    split_ifs at hop with hbits
    obtain ⟨x, hx, hop⟩ := Option.bind_eq_some_iff.mp hop
    cases hop
    have halias := h.bignumAliases_numbers hresult [value] (by simp [hx])
    rw [Bytes.perform, cryptoBignumRshift, show (Call.rshift value bits result).output.address = result
      from rfl] at *
    rw [halias, decide_eq_false hbits, ← h.number_eq (hknown value (by simp [Call.pointers, Call.inputs])), hx]
    exact h.finishBignum_zero hresult _
  | pointAdd context x y result =>
    obtain ⟨g, hg, hop⟩ := Option.bind_eq_some_iff.mp hop
    obtain ⟨vx, hvx, hop⟩ := Option.bind_eq_some_iff.mp hop
    obtain ⟨vy, hvy, hop⟩ := Option.bind_eq_some_iff.mp hop
    obtain ⟨w, hw, hop⟩ := Option.bind_eq_some_iff.mp hop
    cases hop
    have halias := h.pointAliases_points hg hresult [x, y] (by simp [hvx, hvy])
    rw [show (Call.pointAdd context x y result).output.address = result from rfl] at halias hresult
    rw [Bytes.perform, cryptoEcPointAdd,
      ← h.group_eq (hknown context (by simp [Call.pointers, Call.contexts])), hg]
    dsimp only
    rw [halias, ← h.point_eq (hknown x (by simp [Call.pointers, Call.inputs])),
      ← h.point_eq (hknown y (by simp [Call.pointers, Call.inputs])), hvx, hvy]
    dsimp only
    rw [hw]
    exact h.finishPoint_zero hresult w
  | pointMul context point scalar result =>
    obtain ⟨g, hg, hop⟩ := Option.bind_eq_some_iff.mp hop
    obtain ⟨vp, hvp, hop⟩ := Option.bind_eq_some_iff.mp hop
    obtain ⟨vs, hvs, hop⟩ := Option.bind_eq_some_iff.mp hop
    obtain ⟨w, hw, hop⟩ := Option.bind_eq_some_iff.mp hop
    cases hop
    have halias := h.pointAliases_points hg hresult [point] (by simp [hvp])
    obtain ⟨old, hold⟩ := h.point_handle hresult
    rw [show (Call.pointMul context point scalar result).output.address = result from rfl] at halias hresult hold
    rw [Bytes.perform, cryptoEcPointMul,
      ← h.group_eq (hknown context (by simp [Call.pointers, Call.contexts])), hg]
    dsimp only
    rw [halias, h.point_number_apart hold hvs, h.point_number_apart hvp hvs,
      ← h.point_eq (hknown point (by simp [Call.pointers, Call.inputs])),
      ← h.number_eq (hknown scalar (by simp [Call.pointers, Call.inputs])), hvp, hvs]
    dsimp only
    rw [hw]
    exact h.finishPoint_zero hresult w
  | pointInvert context point =>
    obtain ⟨g, hg, hop⟩ := Option.bind_eq_some_iff.mp hop
    obtain ⟨vp, hvp, hop⟩ := Option.bind_eq_some_iff.mp hop
    obtain ⟨w, hw, hop⟩ := Option.bind_eq_some_iff.mp hop
    cases hop
    have halias := h.pointAliases_points hg hresult [point] (by simp [hvp])
    rw [show (Call.pointInvert context point).output.address = point from rfl] at halias hresult
    rw [Bytes.perform, cryptoEcPointInvert,
      ← h.group_eq (hknown context (by simp [Call.pointers, Call.contexts])), hg]
    dsimp only
    rw [halias, ← h.point_eq (hknown point (by simp [Call.pointers, Call.inputs])), hvp]
    rw [pointInverse] at hw
    by_cases hinfinity : c.pointIsInfinity g vp = true
    · simp [hinfinity]
    · rw [if_neg hinfinity] at hw
      simp only [hinfinity, hw]
      exact h.finishPoint_zero hresult w

end Calls

/-! ## §3 What the code carries out -/

section Settled

variable {c : HeapAdapter} {s : State} {a : Store c.toAdapter} {p : ℕ}

theorem operation_kind {call : Call} {v : Content c.toAdapter} (hop : a.operation call = some v) :
    call.output = ⟨v.kind, call.output.address⟩ := by
  cases call with
  | add x y result | sub x y result | div x y result | mod x y result | inverse x y result
  | sqrmod x y result | addmod x y z result | exptmod x y z result | mulmod x y z result
  | rshift value bits result =>
    simp only [Store.operation, Option.bind_eq_bind, Option.bind_eq_some_iff, Option.pure_def,
      Option.ite_none_left_eq_some] at hop
    grind [Content.kind, Call.output]
  | pointAdd context x y result | pointMul context point scalar result | pointInvert context point =>
    simp only [Store.operation, Option.bind_eq_bind, Option.bind_eq_some_iff, Option.pure_def] at hop
    grind [Content.kind, Call.output]

/-- What is stored, as a value of the store. -/
def Value.content {c : Adapter} : Value c → Content c
  | .bignum value => .number value
  | .point value => .point value

theorem Refines.number_of_valid (h : Refines s a) (hp : Known c s p)
    (hvalid : Object.Valid c.toAdapter s.memory ⟨.bignum, p⟩) :
    a.number p = some (bignumValue c.toAdapter s.memory p) :=
  (h.number_eq hp).trans (bignumClone_of_valid hvalid)

theorem Refines.point_of_valid (h : Refines s a) (hp : Known c s p)
    (hvalid : Object.Valid c.toAdapter s.memory ⟨.point, p⟩) :
    a.point p = some (pointValue c.toAdapter s.memory p) := by
  refine (h.point_eq hp).trans (if_pos ?_)
  rw [Bool.and_eq_true, beq_iff_eq]
  exact hvalid

theorem Refines.group_of_valid (h : Refines s a) (hp : Known c s p)
    (hvalid : Object.Valid c.toAdapter s.memory ⟨.context, p⟩) :
    a.group p = some (groupValue c.toAdapter s.memory p) := by
  refine (h.group_eq hp).trans ((if_pos hvalid.1).trans (if_pos ?_))
  rw [Bool.and_eq_true, beq_iff_eq, beq_iff_eq]
  exact hvalid.2

/-- What the operation of a call gives for valid arguments is what the store computes. -/
theorem Refines.operation_eq (h : Refines s a) {call : Call} (hknown : ∀ p ∈ call.pointers, Known c s p)
    (hvalid : ∀ x ∈ call.inputs ++ call.contexts, x.Valid c.toAdapter s.memory)
    (hbits : ∀ value bits result, call = .rshift value bits result → ¬ bits < 0) :
    a.operation call = (call.operation c.toAdapter s.memory).map Value.content := by
  have hnumber : ∀ p, ⟨.bignum, p⟩ ∈ call.inputs ++ call.contexts →
      a.number p = some (bignumValue c.toAdapter s.memory p) := fun p hp =>
    h.number_of_valid (hknown p (List.mem_map.mpr ⟨_, List.mem_cons_of_mem _ hp, rfl⟩)) (hvalid _ hp)
  have hpoint : ∀ p, ⟨.point, p⟩ ∈ call.inputs ++ call.contexts →
      a.point p = some (pointValue c.toAdapter s.memory p) := fun p hp =>
    h.point_of_valid (hknown p (List.mem_map.mpr ⟨_, List.mem_cons_of_mem _ hp, rfl⟩)) (hvalid _ hp)
  have hgroup : ∀ p, ⟨.context, p⟩ ∈ call.inputs ++ call.contexts →
      a.group p = some (groupValue c.toAdapter s.memory p) := fun p hp =>
    h.group_of_valid (hknown p (List.mem_map.mpr ⟨_, List.mem_cons_of_mem _ hp, rfl⟩)) (hvalid _ hp)
  cases call with
  | add x y result | sub x y result | div x y result | mod x y result | inverse x y result
  | sqrmod x y result =>
    rw [Store.operation, hnumber x (by simp [Call.inputs]), hnumber y (by simp [Call.inputs]), Call.operation,
      Option.map_map, Option.map_eq_bind]
    rfl
  | addmod x y z result | exptmod x y z result | mulmod x y z result =>
    rw [Store.operation, hnumber x (by simp [Call.inputs]), hnumber y (by simp [Call.inputs]),
      hnumber z (by simp [Call.inputs]), Call.operation, Option.map_map, Option.map_eq_bind]
    rfl
  | rshift value bits result =>
    rw [Store.operation, if_neg (hbits _ _ _ rfl), hnumber value (by simp [Call.inputs])]
    rfl
  | pointAdd context x y result =>
    rw [Store.operation, hgroup context (by simp [Call.contexts]), hpoint x (by simp [Call.inputs]),
      hpoint y (by simp [Call.inputs]), Call.operation, Option.map_map, Option.map_eq_bind]
    rfl
  | pointMul context point scalar result =>
    rw [Store.operation, hgroup context (by simp [Call.contexts]), hpoint point (by simp [Call.inputs]),
      hnumber scalar (by simp [Call.inputs]), Call.operation, Option.map_map, Option.map_eq_bind]
    rfl
  | pointInvert context point =>
    rw [Store.operation, hgroup context (by simp [Call.contexts]), hpoint point (by simp [Call.inputs]),
      Call.operation, Option.map_map, Option.map_eq_bind]
    rfl

/-- The value of an object in memory. -/
def Content.ReadAt {c : Adapter} (m : Memory) (p : ℕ) : Content c → Prop
  | .number value => bignumValue c m p = value
  | .point value => pointValue c m p = value
  | .group value => groupValue c m p = value

theorem Entry.value_inside (e : Entry c.toAdapter) :
    e.address ≤ e.object.valueStart c.toAdapter ∧ e.object.valueStop c.toAdapter ≤ e.address + e.size := by
  obtain ⟨address, content⟩ := e
  cases content with
  | number value =>
    have hlayout := bignumValue_in_layout c.toAdapter
    exact ⟨Nat.le_add_right .., by
      show address + _ + _ ≤ address + (bignumLayout c.toAdapter).size
      omega⟩
  | point value =>
    have hlayout := pointValue_in_layout c.toAdapter
    exact ⟨Nat.le_add_right .., by
      show address + _ + _ ≤ address + (pointLayout c.toAdapter).size
      omega⟩
  | group value =>
    have hgroup := ecGroup_in_layout c.toAdapter
    have hlayout := Constant.in_layout c.toAdapter .prime
    exact ⟨Nat.le_add_right .., by
      show address + _ + _ ≤ address + (ecLayout c.toAdapter).size
      omega⟩

/-- The header of an object stays when its value is replaced. -/
theorem Entry.Holds.set {e : Entry c.toAdapter} {m m' : Memory} {content : Content c.toAdapter}
    (h : e.Holds m) (hkind : content.kind = e.content.kind) (hcontext : content.kind ≠ .context)
    (hframe : ∀ x, x < e.object.valueStart c.toAdapter ∨ e.object.valueStop c.toAdapter ≤ x → m' x = m x)
    (hread : content.ReadAt m' e.address) : Entry.Holds m' ⟨e.address, content⟩ := by
  obtain ⟨address, old⟩ := e
  cases content with
  | number value =>
    cases old with
    | point _ | group _ => cases hkind
    | number old =>
      have hoffset := bignumValueOffset_le c.toAdapter
      have hstart : Object.valueStart c.toAdapter ⟨.bignum, address⟩ =
          address + bignumValueOffset c.toAdapter := rfl
      show HoldsBignum c.toAdapter m' address owned value
      refine ⟨h.aligned, ?_, ?_, hread⟩
      · rw [word_congr fun x _ hlt => hframe x (Or.inl ?_), h.magic]
        show x < Object.valueStart c.toAdapter ⟨.bignum, address⟩
        omega
      · rw [word_congr fun x _ hlt => hframe x (Or.inl ?_), h.ownership]
        show x < Object.valueStart c.toAdapter ⟨.bignum, address⟩
        omega
  | point value =>
    cases old with
    | number _ | group _ => cases hkind
    | point old =>
      have hoffset := pointValueOffset_le c.toAdapter
      have hstart : Object.valueStart c.toAdapter ⟨.point, address⟩ =
          address + pointValueOffset c.toAdapter := rfl
      show HoldsPoint c.toAdapter m' address value
      refine ⟨h.aligned, ?_, hread⟩
      rw [word_congr fun x _ hlt => hframe x (Or.inl ?_), h.magic]
      show x < Object.valueStart c.toAdapter ⟨.point, address⟩
      omega
  | group group => exact absurd rfl hcontext

theorem object_set {e : Entry c.toAdapter} {x : Object} {content : Content c.toAdapter}
    (hkind : content.kind = x.kind) :
    (if e.object = x then { e with content } else e).object = e.object := by
  split_ifs with hobj
  · rw [hobj]
    exact congrArg₂ Object.mk hkind (congrArg Object.address hobj)
  · rfl

theorem handles_set {x : Object} {content : Content c.toAdapter} (hkind : content.kind = x.kind) :
    (a.set x content).handles = a.handles := by
  rw [Store.handles, Store.set, List.map_map]
  exact List.map_congr_left fun e _ => object_set hkind

/-- The value of one object is replaced, in memory and in the store. -/
theorem Refines.set (h : Refines s a) {x : Object} {content : Content c.toAdapter} {m' : Memory}
    (hx : x ∈ a.handles) (hkind : content.kind = x.kind) (hcontext : x.kind ≠ .context)
    (hframe : ∀ y, y < x.valueStart c.toAdapter ∨ x.valueStop c.toAdapter ≤ y → m' y = s.memory y)
    (hread : content.ReadAt m' x.address) : Refines { s with memory := m' } (a.set x content) := by
  have hobject := fun e : Entry c.toAdapter => object_set (e := e) hkind
  have haddress : ∀ e : Entry c.toAdapter,
      (if e.object = x then { e with content } else e).address = e.address :=
    fun e => congrArg Object.address (hobject e)
  have hsize : ∀ e : Entry c.toAdapter,
      (if e.object = x then { e with content } else e).size = e.size :=
    fun e => congrArg (fun y : Object => (y.layout c.toAdapter).size) (hobject e)
  refine ⟨h.handles.trans (handles_set hkind).symm, h.blocks.trans (handles_set hkind).symm, h.noFaults,
    h.log, List.forall_mem_map.mpr fun e he => ?_, List.pairwise_map.mpr ?_,
    List.forall_mem_map.mpr fun e he => ?_⟩
  · rw [haddress, hsize]
    exact h.place e he
  · refine h.apart.imp fun {e f} hapart => ?_
    rw [Entry.Apart, haddress, haddress, hsize, hsize]
    exact hapart
  · split_ifs with hobj
    · subst hobj
      exact (h.holds e he).set hkind (hkind ▸ hcontext) hframe hread
    · obtain ⟨f, hf, rfl⟩ := mem_handles.mp hx
      have hapart := h.apart_of_ne hf he fun heq => hobj (congrArg Entry.object heq).symm
      unfold Entry.Apart at hapart
      have hinside := f.value_inside
      exact (h.holds e he).congr fun y _ _ => hframe y (by omega)

theorem Refines.answer (h : Refines s a) (r : Return) : Refines (s.answer r) (a.answer r) :=
  ⟨h.handles, h.blocks, h.noFaults, congrArg (r :: ·) h.log, h.place, h.apart, h.holds⟩

/-- The store finishes a call as the code does. -/
theorem Refines.settle (h : Refines s a) {x : Object} {outcome : Outcome}
    {content : Option (Content c.toAdapter)}
    (hkind : ∀ v, content = some v → v.kind = x.kind)
    (hzero : ∀ v, content = some v → x ∈ a.handles → outcome.1 = 0)
    (hcases : outcome = (-1, s.memory) ∨ outcome.1 = 0 ∧ x ∈ a.handles ∧ x.kind ≠ .context ∧
      (∀ y, y < x.valueStart c.toAdapter ∨ x.valueStop c.toAdapter ≤ y → outcome.2 y = s.memory y) ∧
      ∃ v, content = some v ∧ v.ReadAt outcome.2 x.address) :
    Refines (s.settle outcome) (a.finish x.address content) := by
  obtain rfl | ⟨hstatus, hx, hcontext, hframe, v, rfl, hread⟩ := hcases
  · have hfinish : a.finish x.address content = a.answer (.status (-1)) := by
      cases content with
      | none => rfl
      | some v =>
        refine if_neg fun hx => ?_
        rw [hkind v rfl] at hx
        have hne : ¬ (-1 : Int32) = 0 := by decide
        exact absurd (hzero v rfl hx) hne
    rw [hfinish]
    exact h.answer _
  · have hobj : (⟨v.kind, x.address⟩ : Object) = x := by rw [hkind v rfl]
    rw [Store.finish, hobj, if_pos hx, State.settle, hstatus]
    exact (h.set hx (hkind v rfl) hcontext hframe hread).answer _

/-- A valid output that is owned is an object of the client. -/
theorem Refines.output_handle (h : Refines s a) {x : Object} (hx : Known c s x.address)
    (hkind : x.kind ≠ .context) (hvalid : x.Valid c.toAdapter s.memory)
    (howned : x.kind = .bignum → word s.memory (x.address + 4) = owned) : x ∈ a.handles := by
  have hne : x.address ≠ 0 := by
    have haligned := hvalid.1
    rw [aligned, Bool.and_eq_true, bne_iff_ne] at haligned
    exact haligned.1
  obtain ⟨kind, address⟩ := x
  cases kind with
  | bignum => exact h.handle_of_owned hx hne hvalid.2 (howned rfl)
  | point => exact h.handle_of_pointMagic hx hne hvalid.2
  | context => exact absurd rfl hkind

theorem output_kind (call : Call) : call.output.kind ≠ .context := by
  cases call with
  | add _ _ _ | sub _ _ _ | div _ _ _ | mod _ _ _ | inverse _ _ _ | sqrmod _ _ _ | addmod _ _ _ _
  | exptmod _ _ _ _ | mulmod _ _ _ _ | rshift _ _ _ | pointAdd _ _ _ _ | pointMul _ _ _ _
  | pointInvert _ _ => exact nofun

theorem readAt_newValue (call : Call) (m : Memory) :
    (Value.content (call.newValue c.toAdapter m)).ReadAt m call.output.address := by
  cases call with
  | add _ _ _ | sub _ _ _ | div _ _ _ | mod _ _ _ | inverse _ _ _ | sqrmod _ _ _ | addmod _ _ _ _
  | exptmod _ _ _ _ | mulmod _ _ _ _ | rshift _ _ _ | pointAdd _ _ _ _ | pointMul _ _ _ _
  | pointInvert _ _ => rfl

/-- A call that is carried out does not shift by a negative number. -/
theorem shift_of_zero {call : Call} {m : Memory} (h : (Bytes.perform c.toAdapter m call).1 = 0)
    (value : ℕ) (bits : Int32) (result : ℕ) (hcall : call = .rshift value bits result) : ¬ bits < 0 := by
  subst hcall
  intro hbits
  rw [Bytes.perform, cryptoBignumRshift, decide_eq_true hbits] at h
  exact absurd h (by decide : ¬ (-1 : Int32) = 0)

/-- A call of `ByteObjects`. -/
theorem Refines.call (h : Refines s a) {call : Call} (hknown : ∀ p ∈ call.pointers, Known c s p) :
    Refines (s.settle (Bytes.perform c.toAdapter s.memory call))
      (a.finish call.output.address (a.operation call)) := by
  have hlaw := atomic_of_settles (settles_perform c.toAdapter s.memory call)
  have hkind : ∀ v, a.operation call = some v → v.kind = call.output.kind :=
    fun v hop => (congrArg Object.kind (operation_kind hop)).symm
  refine h.settle hkind (fun v hop hx => ?_) ?_
  · rw [operation_kind hop] at hx
    exact h.perform_zero hknown hop hx
  · rcases hlaw.status with hstatus | hstatus
    · obtain ⟨hvalid, hinputs⟩ := List.forall_mem_cons.mp (hlaw.valid hstatus)
      refine Or.inr ⟨hstatus, h.output_handle (hknown _ List.mem_cons_self) (output_kind call) hvalid
        (hlaw.owned hstatus), output_kind call, hlaw.frame hstatus, _, ?_, readAt_newValue call _⟩
      rw [h.operation_eq hknown hinputs (shift_of_zero hstatus), hlaw.stored hstatus]
      rfl
    · exact Or.inl (Prod.ext hstatus (hlaw.failed hstatus))

/-- `crypto_bignum_rand`. -/
theorem Refines.rand (h : Refines s a) {result modulus : ℕ} {entropy : Entropy} (hresult : Known c s result)
    (hmodulus : Known c s modulus) :
    Refines (s.settle (c.cryptoBignumRand entropy s.memory result modulus))
      (a.finish result do return .number (← c.number (← a.number modulus) entropy)) := by
  have hnumber : ∀ v : Content c.toAdapter,
      (do return .number (← c.number (← a.number modulus) entropy)) = some v →
        ∃ m w, a.number modulus = some m ∧ c.number m entropy = some w ∧ v = .number w := by
    intro v hv
    obtain ⟨m, hm, hv⟩ := Option.bind_eq_some_iff.mp hv
    obtain ⟨w, hw, hv⟩ := Option.bind_eq_some_iff.mp hv
    exact ⟨m, w, hm, hw, (Option.some.inj hv).symm⟩
  refine h.settle (x := ⟨.bignum, result⟩) (fun v hv => ?_) (fun v hv hx => ?_) ?_
  · obtain ⟨m, w, -, -, rfl⟩ := hnumber v hv
    rfl
  · obtain ⟨m, w, hm, hw, rfl⟩ := hnumber v hv
    have halias := h.bignumAliases_numbers hx [modulus] (by simp [hm])
    obtain ⟨old, hold⟩ := h.holdsBignum hx
    have hclone := (h.number_eq hmodulus).symm.trans hm
    obtain ⟨hvalid, rfl⟩ := valid_of_bignumClone hclone
    obtain ⟨hnot, -⟩ | ⟨-, -, hrand⟩ := @RandomAdapter.cryptoBignumRand_cases c.toRandomAdapter s.memory
      result modulus entropy
    · exact absurd ⟨halias, hvalid, ⟨hold.aligned, hold.magic⟩, hold.ownership⟩ hnot
    · rw [hrand, hw]
      exact h.finishBignum_zero hx w
  · obtain ⟨-, hrand⟩ | ⟨-, hvalid, hrand⟩ := @RandomAdapter.cryptoBignumRand_cases c.toRandomAdapter s.memory
      result modulus entropy
    · exact Or.inl hrand
    · rw [hrand]
      obtain hfailed | ⟨m', hfinish, hvalue, hstored⟩ := @finishBignum_cases c.toAdapter s.memory result
        (c.number (bignumValue c.toAdapter s.memory modulus) entropy)
      · exact Or.inl hfailed
      · rw [hfinish]
        refine Or.inr ⟨rfl, h.output_handle hresult nofun hstored.valid hstored.owned, nofun, hstored.frame,
          .number (bignumValue c.toAdapter m' result), ?_, rfl⟩
        rw [h.number_of_valid hmodulus hvalid, Option.bind_eq_bind, Option.bind_some, hvalue]
        rfl

end Settled

end HisiRiscv.Crypto.Bytes
