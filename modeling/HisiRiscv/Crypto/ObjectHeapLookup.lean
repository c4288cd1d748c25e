/-
HisiRiscv.Crypto.ObjectHeapLookup — what the functions of `crypto_sae.rs` find behind a pointer.

`Refines` says that the heap holds the objects of the store, each in a block of its own. A client has
pointers to objects and to constants of contexts only, and behind each the functions find what the
store has there, whatever type they expect (`number_eq`, `point_eq`, `group_eq`).

  §1 What lies where.
  §2 Records that are written.
  §3 The relation.
-/
import HisiRiscv.Crypto.ObjectHeap

namespace HisiRiscv.Crypto.Bytes

open HisiRiscv.ByteMemory HisiRiscv.Machine

/-! ## §1 What lies where -/

section Layouts

variable (c : Adapter)

theorem ecGroup_in_layout : 4 ≤ ecGroupOffset c ∧ ecGroupOffset c + c.groupCodec.size ≤ ecPrimeOffset c :=
  ⟨le_roundUp c.groupCodec.align_pos, le_roundUp (lt_of_lt_of_le (by decide) (Nat.le_max_left 4 _))⟩

theorem Constant.in_layout (name : Constant) :
    ecPrimeOffset c ≤ name.offset c ∧ name.offset c + (bignumLayout c).size ≤ (ecLayout c).size := by
  have hsize : ecPrimeOffset c + 4 * (bignumLayout c).size ≤ (ecLayout c).size :=
    le_roundUp (lt_of_lt_of_le (by decide : 0 < 4) ((Nat.le_max_left 4 _).trans (Nat.le_max_left _ _)))
  have hindex : name.index + 1 ≤ 4 := by cases name <;> decide
  have hmul := Nat.mul_le_mul_right (bignumLayout c).size hindex
  rw [Nat.succ_mul] at hmul
  unfold Constant.offset
  omega

/-- Two constants are apart. -/
theorem Constant.apart {name other : Constant} (h : name ≠ other) :
    name.offset c + (bignumLayout c).size ≤ other.offset c ∨
      other.offset c + (bignumLayout c).size ≤ name.offset c := by
  have hindex : name.index + 1 ≤ other.index ∨ other.index + 1 ≤ name.index := by
    cases name <;> cases other <;> first | exact absurd rfl h | decide
  unfold Constant.offset
  rcases hindex with hindex | hindex
  · have hmul := Nat.mul_le_mul_right (bignumLayout c).size hindex
    rw [Nat.succ_mul] at hmul
    omega
  · have hmul := Nat.mul_le_mul_right (bignumLayout c).size hindex
    rw [Nat.succ_mul] at hmul
    omega

theorem dvd_max_of_pow {a b : ℕ} (ha : ∃ k, a = 2 ^ k) (hb : ∃ k, b = 2 ^ k) : b ∣ max a b := by
  obtain ⟨j, rfl⟩ := ha
  obtain ⟨k, rfl⟩ := hb
  rcases Nat.le_total j k with h | h
  · rw [max_eq_right (Nat.pow_le_pow_right (by decide) h)]
  · rw [max_eq_left (Nat.pow_le_pow_right (by decide) h)]
    exact Nat.pow_dvd_pow 2 h

theorem max_pow {a b : ℕ} (ha : ∃ k, a = 2 ^ k) (hb : ∃ k, b = 2 ^ k) : ∃ k, max a b = 2 ^ k := by
  rcases Nat.le_total a b with h | h
  · rwa [max_eq_right h]
  · rwa [max_eq_left h]

end Layouts

theorem dvd_roundUp (n align : ℕ) : align ∣ roundUp n align := Dvd.intro_left _ rfl

/-- The constants of an aligned context are aligned. -/
theorem aligned_constant {c : HeapAdapter} (hc : c.Correct) {p : ℕ}
    (h : aligned (ecLayout c.toAdapter) p = true) (name : Constant) :
    aligned (bignumLayout c.toAdapter) (p + name.offset c.toAdapter) = true := by
  rw [aligned, Bool.and_eq_true, bne_iff_ne, beq_iff_eq] at h ⊢
  have hfour : ∃ k, (4 : ℕ) = 2 ^ k := ⟨2, rfl⟩
  have hdvd : (bignumLayout c.toAdapter).align ∣ (ecLayout c.toAdapter).align :=
    dvd_max_of_pow (max_pow hfour hc.groupAlign) (max_pow hfour hc.bignumAlign)
  refine ⟨by omega, Nat.mod_eq_zero_of_dvd (Nat.dvd_add (hdvd.trans (Nat.dvd_of_mod_eq_zero h.2)) ?_)⟩
  exact Nat.dvd_add (dvd_roundUp _ _) (Dvd.dvd.mul_left (dvd_roundUp _ _) _)

/-- A `BignumObject` lies at `pointer`. -/
structure HoldsBignum (c : Adapter) (m : Memory) (pointer : ℕ) (ownership : UInt32) (value : c.Bignum) :
    Prop where
  aligned : aligned (bignumLayout c) pointer = true
  magic : word m pointer = bignumMagic
  ownership : word m (pointer + 4) = ownership
  value : bignumValue c m pointer = value

structure HoldsPoint (c : Adapter) (m : Memory) (pointer : ℕ) (value : c.Point) : Prop where
  aligned : aligned (pointLayout c) pointer = true
  magic : word m pointer = pointMagic
  value : pointValue c m pointer = value

/-- An `EcObject` of group 19 and its constants. -/
structure HoldsEc (c : HeapAdapter) (m : Memory) (pointer : ℕ) (group : c.Group) : Prop where
  aligned : aligned (ecLayout c.toAdapter) pointer = true
  magic : word m pointer = ecMagic
  value : groupValue c.toAdapter m pointer = group
  group19 : c.groupId group = c.group19
  constants : ∀ name : Constant,
    HoldsBignum c.toAdapter m (pointer + name.offset c.toAdapter) borrowed (c.constant group name)

section Congruence

variable {c : HeapAdapter} {m m' : Memory} {pointer : ℕ}

theorem HoldsBignum.congr {c : Adapter} {ownership : UInt32} {value : c.Bignum}
    (h : HoldsBignum c m pointer ownership value)
    (hm : ∀ a, pointer ≤ a → a < pointer + (bignumLayout c).size → m' a = m a) :
    HoldsBignum c m' pointer ownership value := by
  have hoffset := bignumValueOffset_le c
  have hlayout := bignumValue_in_layout c
  refine ⟨h.aligned, ?_, ?_, ?_⟩
  · rw [word_congr fun a hle hlt => hm a hle (by omega), h.magic]
  · rw [word_congr fun a hle hlt => hm a (by omega) (by omega), h.ownership]
  · rw [bignumValue, load_congr _ fun a hle hlt => hm a (by omega) (by omega)]
    exact h.value

theorem HoldsPoint.congr {c : Adapter} {value : c.Point} (h : HoldsPoint c m pointer value)
    (hm : ∀ a, pointer ≤ a → a < pointer + (pointLayout c).size → m' a = m a) :
    HoldsPoint c m' pointer value := by
  have hoffset := pointValueOffset_le c
  have hlayout := pointValue_in_layout c
  refine ⟨h.aligned, ?_, ?_⟩
  · rw [word_congr fun a hle hlt => hm a hle (by omega), h.magic]
  · rw [pointValue, load_congr _ fun a hle hlt => hm a (by omega) (by omega)]
    exact h.value

theorem HoldsEc.congr {group : c.Group} (h : HoldsEc c m pointer group)
    (hm : ∀ a, pointer ≤ a → a < pointer + (ecLayout c.toAdapter).size → m' a = m a) :
    HoldsEc c m' pointer group := by
  have hgroup := ecGroup_in_layout c.toAdapter
  have hlayout := fun name => Constant.in_layout c.toAdapter name
  have hprime := hlayout .prime
  refine ⟨h.aligned, ?_, ?_, h.group19, fun name => (h.constants name).congr fun a hle hlt => ?_⟩
  · rw [word_congr fun a hle hlt => hm a hle (by omega), h.magic]
  · rw [groupValue, load_congr _ fun a hle hlt => hm a (by omega) (by omega)]
    exact h.value
  · have := hlayout name
    exact hm a (by omega) (by omega)

end Congruence

/-! ## §2 Records that are written -/

section Put

variable {c : Adapter} {m : Memory} {pointer a : ℕ}

theorem putBignum_outside {ownership : UInt32} {value : c.Bignum}
    (h : a < pointer ∨ pointer + (bignumLayout c).size ≤ a) :
    putBignum c m pointer ownership value a = m a := by
  have hoffset := bignumValueOffset_le c
  have hlayout := bignumValue_in_layout c
  have hword : Codec.word.size = 4 := rfl
  rw [putBignum, save_outside _ _ (by omega), save_outside _ _ (by omega), save_outside _ _ (by omega)]

theorem holdsBignum_putBignum {ownership : UInt32} {value : c.Bignum}
    (h : aligned (bignumLayout c) pointer = true) :
    HoldsBignum c (putBignum c m pointer ownership value) pointer ownership value := by
  have hoffset := bignumValueOffset_le c
  have hword : Codec.word.size = 4 := rfl
  refine ⟨h, ?_, ?_, load_save _ _⟩
  · rw [putBignum, word_save _ _ (by omega), word_save _ _ (by omega), word_save_self]
  · rw [putBignum, word_save _ _ (by omega), word_save_self]

theorem putPoint_outside {value : c.Point} (h : a < pointer ∨ pointer + (pointLayout c).size ≤ a) :
    putPoint c m pointer value a = m a := by
  have hoffset := pointValueOffset_le c
  have hlayout := pointValue_in_layout c
  have hword : Codec.word.size = 4 := rfl
  rw [putPoint, save_outside _ _ (by omega), save_outside _ _ (by omega)]

theorem holdsPoint_putPoint {value : c.Point} (h : aligned (pointLayout c) pointer = true) :
    HoldsPoint c (putPoint c m pointer value) pointer value := by
  have hoffset := pointValueOffset_le c
  refine ⟨h, ?_, load_save _ _⟩
  rw [putPoint, word_save _ _ (by omega), word_save_self]

/-- The constants, written one after the other. -/
theorem foldl_putBignum (constant : Constant → c.Bignum)
    (haligned : ∀ name : Constant, aligned (bignumLayout c) (pointer + name.offset c) = true)
    (names : List Constant) (m : Memory) :
    let m' := names.foldl
      (fun m name => putBignum c m (pointer + name.offset c) borrowed (constant name)) m
    (∀ a, a < pointer + ecPrimeOffset c ∨ pointer + (ecLayout c).size ≤ a → m' a = m a) ∧
      ∀ name, (name ∈ names ∨ HoldsBignum c m (pointer + name.offset c) borrowed (constant name)) →
        HoldsBignum c m' (pointer + name.offset c) borrowed (constant name) := by
  induction names generalizing m with
  | nil => exact ⟨fun _ _ => rfl, fun name h => h.resolve_left List.not_mem_nil⟩
  | cons first names ih =>
    obtain ⟨houtside, hholds⟩ := ih (putBignum c m (pointer + first.offset c) borrowed (constant first))
    have hlayout := Constant.in_layout c first
    refine ⟨fun a ha => ?_, fun name hname => hholds name ?_⟩
    · exact (houtside a ha).trans (putBignum_outside (by omega))
    · by_cases heq : name = first
      · subst heq
        exact Or.inr (holdsBignum_putBignum (haligned name))
      · refine hname.imp (fun hmem => (List.mem_cons.mp hmem).resolve_left heq) fun hold => ?_
        refine hold.congr fun a hle hlt => putBignum_outside ?_
        have := Constant.apart c heq
        omega

end Put

theorem putEc_outside {c : Adapter} {m : Memory} {pointer a : ℕ} {group : c.Group}
    {constant : Constant → c.Bignum}
    (haligned : ∀ name : Constant, aligned (bignumLayout c) (pointer + name.offset c) = true)
    (h : a < pointer ∨ pointer + (ecLayout c).size ≤ a) : putEc c m pointer group constant a = m a := by
  have hgroup := ecGroup_in_layout c
  have hprime := Constant.in_layout c .prime
  have hword : Codec.word.size = 4 := rfl
  rw [putEc, (foldl_putBignum constant haligned _ _).1 a (by omega), save_outside _ _ (by omega),
    save_outside _ _ (by omega)]

theorem holdsEc_putEc {c : HeapAdapter} (hc : c.Correct) {m : Memory} {pointer : ℕ} {group : c.Group}
    (h : aligned (ecLayout c.toAdapter) pointer = true) (hgroup19 : c.groupId group = c.group19) :
    HoldsEc c (putEc c.toAdapter m pointer group (c.constant group)) pointer group := by
  have hgroup := ecGroup_in_layout c.toAdapter
  obtain ⟨houtside, hholds⟩ := foldl_putBignum (c.constant group) (aligned_constant hc h) Constant.all
    (save c.groupCodec (save Codec.word m pointer ecMagic) (pointer + ecGroupOffset c.toAdapter) group)
  refine ⟨h, ?_, ?_, hgroup19, fun name => hholds name (Or.inl (by cases name <;> decide))⟩
  · rw [putEc, word_congr fun a _ hlt => houtside a (by omega), word_save _ _ (by omega), word_save_self]
  · rw [putEc, groupValue, load_congr _ fun a _ hlt => houtside a (by omega), load_save]

/-! ## §3 The relation -/

/-- An object of the store lies in memory. -/
def Entry.Holds {c : HeapAdapter} (m : Memory) (e : Entry c.toAdapter) : Prop :=
  match e.content with
  | .number value => HoldsBignum c.toAdapter m e.address owned value
  | .point value => HoldsPoint c.toAdapter m e.address value
  | .group group => HoldsEc c m e.address group

def Entry.size {c : Adapter} (e : Entry c) : ℕ := (e.object.layout c).size

def Entry.Apart {c : Adapter} (e f : Entry c) : Prop :=
  e.address + e.size ≤ f.address ∨ f.address + f.size ≤ e.address

/-- The heap holds the objects of the store, each in a block of its own that the client has not
given back, and no other block. -/
structure Refines {c : HeapAdapter} (s : State) (a : Store c.toAdapter) : Prop where
  handles : s.handles = a.handles
  blocks : s.blocks = a.handles
  noFaults : s.faults = []
  log : s.log = a.log
  place : ∀ e ∈ a.entries, e.address + e.size < 2 ^ 32
  apart : a.entries.Pairwise Entry.Apart
  holds : ∀ e ∈ a.entries, e.Holds s.memory

section Lookup

variable {c : HeapAdapter} {s : State} {a : Store c.toAdapter} {e f : Entry c.toAdapter} {m : Memory}
  {p q : ℕ}

theorem Entry.Holds.congr {m' : Memory} (h : e.Holds m)
    (hm : ∀ a, e.address ≤ a → a < e.address + e.size → m' a = m a) : e.Holds m' := by
  obtain ⟨address, content⟩ := e
  cases content with
  | number value => exact HoldsBignum.congr h hm
  | point value => exact HoldsPoint.congr h hm
  | group group => exact HoldsEc.congr h hm

theorem Entry.Holds.address_ne_zero (h : e.Holds m) : e.address ≠ 0 := by
  obtain ⟨address, content⟩ := e
  have haligned : ∀ layout, aligned layout address = true → address ≠ 0 := by
    intro layout h
    rw [aligned, Bool.and_eq_true, bne_iff_ne] at h
    exact h.1
  cases content with
  | number value => exact haligned _ h.aligned
  | point value => exact haligned _ h.aligned
  | group group => exact haligned _ h.aligned

theorem bignumLayout_pos (c : Adapter) : 0 < (bignumLayout c).size := by
  have hoffset := bignumValueOffset_le c
  have hlayout := bignumValue_in_layout c
  omega

theorem Entry.size_pos (e : Entry c.toAdapter) : 0 < e.size := by
  obtain ⟨address, content⟩ := e
  cases content with
  | number value => exact bignumLayout_pos c.toAdapter
  | point value =>
    have hoffset := pointValueOffset_le c.toAdapter
    have hlayout := pointValue_in_layout c.toAdapter
    show 0 < (pointLayout c.toAdapter).size
    omega
  | group group =>
    have hlayout := Constant.in_layout c.toAdapter .prime
    have hpos := bignumLayout_pos c.toAdapter
    show 0 < (ecLayout c.toAdapter).size
    omega

/-- Objects that share an address are the same. -/
theorem Refines.eq_of_shared (h : Refines s a) (he : e ∈ a.entries) (hf : f ∈ a.entries) {x : ℕ}
    (hxe : e.address ≤ x ∧ x < e.address + e.size) (hxf : f.address ≤ x ∧ x < f.address + f.size) :
    e = f := by
  by_contra hne
  have hsymm : Std.Symm (Entry.Apart (c := c.toAdapter)) := ⟨fun _ _ => Or.symm⟩
  have hapart := h.apart.forall he hf hne
  unfold Entry.Apart at hapart
  omega

theorem findSome?_eq_of_unique {α β : Type} {f : α → Option β} {l : List α} {x : α} (hx : x ∈ l)
    (h : ∀ y ∈ l, y ≠ x → f y = none) : l.findSome? f = f x := by
  induction l with
  | nil => cases hx
  | cons y l ih =>
    by_cases hxy : y = x
    · subst hxy
      rw [List.findSome?_cons]
      cases hf : f y with
      | some v => rfl
      | none =>
        refine List.findSome?_eq_none_iff.mpr fun z hz => ?_
        by_cases hzy : z = y
        · rw [hzy, hf]
        · exact h z (List.mem_cons_of_mem _ hz) hzy
    · rw [List.findSome?_cons, h y List.mem_cons_self hxy]
      exact ih ((List.mem_cons.mp hx).resolve_left (Ne.symm hxy))
        fun z hz => h z (List.mem_cons_of_mem _ hz)

/-- A pointer of the client into an object. -/
def Entry.At (e : Entry c.toAdapter) (p : ℕ) : Prop :=
  p = e.address ∨ ∃ group name, e.content = .group group ∧ p = e.address + Constant.offset c.toAdapter name

theorem Entry.At.inside (h : e.At p) : e.address ≤ p ∧ p < e.address + e.size := by
  obtain rfl | ⟨group, name, hcontent, rfl⟩ := h
  · exact ⟨Nat.le_refl _, Nat.lt_add_of_pos_right e.size_pos⟩
  · have hlayout := Constant.in_layout c.toAdapter name
    have hsize : e.size = (ecLayout c.toAdapter).size := by rw [Entry.size, Entry.object, hcontent]; rfl
    have hpos := bignumLayout_pos c.toAdapter
    omega

theorem at_of_numberAt (h : Store.numberAt e p ≠ none) : e.At p := by
  unfold Store.numberAt at h
  split at h
  · split_ifs at h with heq
    · exact Or.inl heq.symm
    · exact absurd rfl h
  · exact absurd rfl h
  · rename_i group hcontent
    obtain ⟨v, hv⟩ := Option.ne_none_iff_exists'.mp h
    obtain ⟨name, -, hname⟩ := List.exists_of_findSome?_eq_some hv
    split_ifs at hname with heq
    exact Or.inr ⟨group, name, hcontent, heq.symm⟩

theorem at_of_pointAt (h : Store.pointAt e p ≠ none) : e.At p := by
  unfold Store.pointAt at h
  split at h
  · split_ifs at h with heq
    · exact Or.inl heq.symm
    · exact absurd rfl h
  · exact absurd rfl h
  · exact absurd rfl h

theorem at_of_groupAt (h : Store.groupAt e p ≠ none) : e.At p := by
  unfold Store.groupAt at h
  split at h
  · split_ifs at h with heq
    · exact Or.inl heq.symm
    · exact absurd rfl h
  · exact absurd rfl h
  · exact absurd rfl h

/-- What a lookup that looks into objects finds at a pointer into one of them. -/
theorem Refines.lookup_eq (h : Refines s a) {β : Type} {f : Entry c.toAdapter → Option β}
    (hf : ∀ e, f e ≠ none → e.At p) (he : e ∈ a.entries) (hat : e.At p) :
    a.entries.findSome? f = f e := by
  refine findSome?_eq_of_unique he fun y hy hne => ?_
  by_contra hsome
  exact hne (h.eq_of_shared hy he (hf y hsome).inside hat.inside)

theorem Refines.lookup_null (h : Refines s a) {β : Type} {f : Entry c.toAdapter → Option β}
    (hf : ∀ e, f e ≠ none → e.At 0) : a.entries.findSome? f = none := by
  refine List.findSome?_eq_none_iff.mpr fun e he => ?_
  by_contra hsome
  have hinside := (hf e hsome).inside
  have hne := (h.holds e he).address_ne_zero
  omega

/-- A pointer of the client is null or points into an object. -/
theorem Refines.pointer_cases (h : Refines s a) (hp : p ∈ pointers c.toAdapter s.handles) :
    p = 0 ∨ ∃ e ∈ a.entries, e.At p := by
  rw [h.handles] at hp
  rcases List.mem_cons.mp hp with rfl | hp
  · exact Or.inl rfl
  · obtain ⟨x, hx, hp⟩ := List.mem_flatMap.mp hp
    obtain ⟨e, he, rfl⟩ := List.mem_map.mp hx
    refine Or.inr ⟨e, he, ?_⟩
    rcases List.mem_cons.mp hp with rfl | hp
    · exact Or.inl rfl
    · split_ifs at hp with hkind
      · obtain ⟨name, -, rfl⟩ := List.mem_map.mp hp
        obtain ⟨address, content⟩ := e
        cases content with
        | number _ | point _ => cases hkind
        | group group => exact Or.inr ⟨group, name, rfl, rfl⟩
      · cases hp

theorem aligned_null (layout : Layout) : aligned layout 0 = false := rfl

theorem bignumClone_eq_some {c : Adapter} {ownership : UInt32} {value : c.Bignum}
    (h : HoldsBignum c m p ownership value) : bignumClone c m p = some value := by
  rw [bignumClone, h.aligned, h.magic, h.value]
  rfl

theorem bignumClone_eq_none {c : Adapter} (h : word m p ≠ bignumMagic) : bignumClone c m p = none := by
  rw [bignumClone, beq_eq_false_iff_ne.mpr h, Bool.and_false]
  rfl

theorem pointClone_eq_none {c : Adapter} (h : word m p ≠ pointMagic) : pointClone c m p = none := by
  rw [pointClone, beq_eq_false_iff_ne.mpr h, Bool.and_false]
  rfl

theorem ecGroup_eq_none {c : Adapter} (h : word m p ≠ ecMagic) : ecGroup c m p = none := by
  rw [ecGroup, beq_eq_false_iff_ne.mpr h, Bool.false_and]
  exact ite_self _

/-- `bignum_clone` finds what the store has. -/
theorem Refines.number_eq (h : Refines s a) (hp : p ∈ pointers c.toAdapter s.handles) :
    a.number p = bignumClone c.toAdapter s.memory p := by
  rcases h.pointer_cases hp with rfl | ⟨e, he, hat⟩
  · exact h.lookup_null fun _ => at_of_numberAt
  rw [Store.number, h.lookup_eq (fun _ => at_of_numberAt) he hat]
  have hholds := h.holds e he
  obtain ⟨address, content⟩ := e
  obtain rfl | ⟨group, name, hcontent, rfl⟩ := hat
  · cases content with
    | number value =>
      exact (if_pos rfl).trans (bignumClone_eq_some hholds).symm
    | point value =>
      refine (bignumClone_eq_none ?_).symm
      rw [hholds.magic]
      decide
    | group group =>
      refine Eq.trans ?_ (bignumClone_eq_none ?_).symm
      · refine List.findSome?_eq_none_iff.mpr fun name _ => if_neg ?_
        have hlayout := Constant.in_layout c.toAdapter name
        have hgroup := ecGroup_in_layout c.toAdapter
        exact fun heq => by dsimp only at heq; omega
      · rw [hholds.magic]
        decide
  · cases hcontent
    refine Eq.trans ?_ (bignumClone_eq_some (hholds.constants name)).symm
    refine (findSome?_eq_of_unique (x := name) (by cases name <;> decide) fun other _ hne => if_neg ?_).trans
      (if_pos rfl)
    have hapart := Constant.apart c.toAdapter hne
    have hpos := bignumLayout_pos c.toAdapter
    show address + Constant.offset c.toAdapter other ≠ address + Constant.offset c.toAdapter name
    omega

theorem Refines.point_eq (h : Refines s a) (hp : p ∈ pointers c.toAdapter s.handles) :
    a.point p = pointClone c.toAdapter s.memory p := by
  rcases h.pointer_cases hp with rfl | ⟨e, he, hat⟩
  · exact h.lookup_null fun _ => at_of_pointAt
  rw [Store.point, h.lookup_eq (fun _ => at_of_pointAt) he hat]
  have hholds := h.holds e he
  obtain ⟨address, content⟩ := e
  obtain rfl | ⟨group, name, hcontent, rfl⟩ := hat
  · cases content with
    | number value =>
      refine (pointClone_eq_none ?_).symm
      rw [hholds.magic]
      decide
    | point value =>
      refine (if_pos rfl).trans ?_
      rw [pointClone, hholds.aligned, hholds.magic, hholds.value]
      rfl
    | group group =>
      refine (pointClone_eq_none ?_).symm
      rw [hholds.magic]
      decide
  · cases hcontent
    refine (pointClone_eq_none ?_).symm
    rw [(hholds.constants name).magic]
    decide

theorem Refines.group_eq (h : Refines s a) (hp : p ∈ pointers c.toAdapter s.handles) :
    a.group p = ecGroup c.toAdapter s.memory p := by
  rcases h.pointer_cases hp with rfl | ⟨e, he, hat⟩
  · exact h.lookup_null fun _ => at_of_groupAt
  rw [Store.group, h.lookup_eq (fun _ => at_of_groupAt) he hat]
  have hholds := h.holds e he
  obtain ⟨address, content⟩ := e
  obtain rfl | ⟨group, name, hcontent, rfl⟩ := hat
  · cases content with
    | number value | point value =>
      refine (ecGroup_eq_none ?_).symm
      rw [hholds.magic]
      decide
    | group group =>
      refine (if_pos rfl).trans ?_
      rw [ecGroup, hholds.aligned, hholds.magic, hholds.value, hholds.group19]
      exact (if_pos (beq_self_eq_true _)).symm
  · cases hcontent
    refine Eq.trans (if_neg ?_) (ecGroup_eq_none ?_).symm
    · have hlayout := Constant.in_layout c.toAdapter name
      have hgroup := ecGroup_in_layout c.toAdapter
      show address ≠ address + Constant.offset c.toAdapter name
      omega
    · rw [(hholds.constants name).magic]
      decide

end Lookup

end HisiRiscv.Crypto.Bytes
