/-
HisiRiscv.Crypto.PointsTheorems — which points the three functions can compute.

Sum and inverse are complete. A multiple is computed iff it is affine, that is
iff the order of the point does not divide the scalar (`mul_stored_iff`): the
identity as operand has no coordinates to send, and as result none to receive.

  §1 Valid calls.
  §2 Sum, multiple, inverse.
  §3 A provider.
-/
import Mathlib.GroupTheory.OrderOfElement
import HisiRiscv.Crypto.BignumTheorems
import HisiRiscv.Crypto.Points

namespace HisiRiscv.Crypto

open HisiRiscv.BigEndian

namespace EcProvider

variable {c : EcProvider} {layouts : Layouts} {heap : Heap c}

/-! ## §1 Valid calls -/

/-- Two objects that share no byte. -/
def Apart (a : ℕ) (aLayout : Layout) (b : ℕ) (bLayout : Layout) : Prop :=
  rangesOverlap a aLayout.size b bLayout.size = some false

/-- A context and points as hostap hands them over: objects of their type, any two
of them identical or apart. -/
structure ValidCall (layouts : Layouts) (heap : Heap c) (context : ℕ) (points : List ℕ) :
    Prop where
  context_aligned : aligned layouts.ec context = true
  context_magic : (heap.contexts context).magic = ecMagic
  context_group : c.groupId (heap.contexts context).group = c.group19
  aligned : ∀ p ∈ points, aligned layouts.point p = true
  magic : ∀ p ∈ points, (heap.points p).magic = pointMagic
  apart : ∀ p ∈ points, Apart p layouts.point context layouts.ec
  pairwise : ∀ p ∈ points, ∀ q ∈ points, p = q ∨ Apart p layouts.point q layouts.point

/-- A scalar of at most 256 bits. -/
structure ValidScalar (layouts : Layouts) (heap : Heap c) (points : List ℕ) (scalar : ℕ) :
    Prop where
  aligned : aligned layouts.bignum scalar = true
  magic : (heap.bignums scalar).magic = bignumMagic
  apart : ∀ p ∈ points, Apart p layouts.point scalar layouts.bignum
  lt : c.toNat (heap.bignums scalar).value < 2 ^ 256

/-- The point and the scalar at an address. -/
def pointAt (heap : Heap c) (pointer : ℕ) : P256Point := c.toPoint (heap.points pointer).value

def scalarAt (heap : Heap c) (pointer : ℕ) : ℕ := c.toNat (heap.bignums pointer).value

/-- The call returns 0 and stores the point `P`. -/
def Stored (heap : Heap c) (result : ℕ) (outcome : c.PointOutcome) (P : P256Point) : Prop :=
  ∃ v, outcome = (0, Function.update heap.points result { heap.points result with value := v }) ∧
    c.toPoint v = P

section Valid

variable {context : ℕ} {points : List ℕ}

theorem ValidCall.ecGroup_eq (h : ValidCall layouts heap context points) :
    c.ecGroup layouts heap context = some (heap.contexts context).group := by
  simp [ecGroup, h.context_aligned, h.context_magic, h.context_group]

theorem ValidCall.pointClone_eq (h : ValidCall layouts heap context points) {p : ℕ}
    (hp : p ∈ points) : c.pointClone layouts heap p = some (heap.points p).value := by
  simp [pointClone, h.aligned p hp, h.magic p hp]

theorem ne_zero_of_aligned {layout : Layout} {p : ℕ} (h : Crypto.aligned layout p = true) :
    p ≠ 0 := by
  rintro rfl
  simp [Crypto.aligned] at h

theorem ValidCall.alias (h : ValidCall layouts heap context points) {p q : ℕ} (hp : p ∈ points)
    (hq : q ∈ points) : objectAliasIsValid p layouts.point.size q layouts.point.size = true := by
  obtain rfl | hapart := h.pairwise p hp q hq
  · simp [objectAliasIsValid]
  · simp [objectAliasIsValid, show rangesOverlap p _ q _ = some false from hapart]

theorem ValidCall.pointAliases_eq (h : ValidCall layouts heap context points) {result : ℕ}
    {inputs : List ℕ} (hresult : result ∈ points) (hinputs : ∀ p ∈ inputs, p ∈ points) :
    pointAliases layouts context result inputs = true := by
  have happart : rangesOverlap result _ context _ = some false := h.apart result hresult
  simp only [pointAliases, happart, ne_zero_of_aligned (h.aligned result hresult), bne_iff_ne, Ne,
    not_false_eq_true, beq_self_eq_true, Bool.and_eq_true, true_and, and_true, List.all_eq_true]
  rintro ⟨input, index⟩ hmem
  have hinput := hinputs input (List.fst_mem_of_mem_zipIdx hmem)
  refine ⟨⟨ne_zero_of_aligned (h.aligned input hinput), h.alias hresult hinput⟩, ?_⟩
  intro other hother
  exact h.alias hinput (hinputs other (List.mem_of_mem_take hother))

theorem ValidCall.finishPoint_some (h : ValidCall layouts heap context points) {result : ℕ}
    (hresult : result ∈ points) (v : c.Point) :
    c.finishPoint layouts heap result (some v) =
      (0, Function.update heap.points result { heap.points result with value := v }) := by
  simp [finishPoint, pointStore, h.aligned result hresult, h.magic result hresult]

theorem ValidCall.stored (h : ValidCall layouts heap context points) {result : ℕ}
    (hresult : result ∈ points) {v : c.Point} {P : P256Point} (hv : c.toPoint v = P) :
    Stored heap result (c.finishPoint layouts heap result (some v)) P :=
  ⟨v, h.finishPoint_some hresult v, hv⟩

theorem not_stored_error {result : ℕ} {P : P256Point} :
    ¬ Stored heap result (-1, heap.points) P := by
  rintro ⟨v, hout, -⟩
  have hstatus : (-1 : Int32) = 0 := congrArg Prod.fst hout
  revert hstatus
  decide

/-- Coordinates that come back from the engine are stored as their point. -/
theorem ValidCall.stored_fromXy (h : ValidCall layouts heap context points) (hc : c.Correct)
    {result : ℕ} (hresult : result ∈ points) (g : c.Group) {P : P256Point} {p : P256AffinePoint}
    (hP : coordinates P = some p) :
    Stored heap result (c.finishPoint layouts heap result (c.pointFromXy g p.x p.y)) P := by
  obtain ⟨v, hv, hval⟩ := hc.pointFromXy g P p.x p.y hP
  rw [hv]
  exact h.stored hresult hval

/-- Whatever the coordinates, they are not the identity's. -/
theorem ValidCall.not_stored_fromXy (h : ValidCall layouts heap context points) (hc : c.Correct)
    {result : ℕ} (hresult : result ∈ points) (g : c.Group) (x y : List UInt8) :
    ¬ Stored heap result (c.finishPoint layouts heap result (c.pointFromXy g x y)) 0 := by
  cases hv : c.pointFromXy g x y with
  | none => exact not_stored_error
  | some v =>
    rintro ⟨w, hout, hzero⟩
    rw [h.finishPoint_some hresult] at hout
    have hobject := congrFun (congrArg Prod.snd hout) result
    simp only [Function.update_self, PointObject.mk.injEq, true_and] at hobject
    have hcoordinates := hc.pointFromXy_eq g x y v hv
    rw [hobject, hzero] at hcoordinates
    cases hcoordinates

theorem coordinates_of_ne_zero {P : P256Point} (hP : P ≠ 0) : ∃ p, coordinates P = some p :=
  Option.ne_none_iff_exists'.mp (coordinates_eq_none.not.mpr hP)

theorem pointToXy_of_coordinates (hc : c.Correct) (g : c.Group) {v : c.Point} {p : P256AffinePoint}
    (hp : coordinates (c.toPoint v) = some p) : c.pointToXy g v = some (p.x, p.y) := by
  rw [hc.pointToXy, hp, Option.map_some]

/-! ## §2 Sum, multiple, inverse -/

theorem pointAdd_stored (hc : c.Correct) {a b result : ℕ}
    (h : ValidCall layouts heap context [a, b, result]) :
    Stored heap result (c.cryptoEcPointAdd layouts heap context a b result)
      (pointAt heap a + pointAt heap b) := by
  have ha : a ∈ [a, b, result] := by simp
  have hb : b ∈ [a, b, result] := by simp
  have hresult : result ∈ [a, b, result] := by simp
  have halias : pointAliases layouts context result [a, b] = true :=
    h.pointAliases_eq hresult (by simp)
  simp only [cryptoEcPointAdd, h.ecGroup_eq, halias, h.pointClone_eq ha, h.pointClone_eq hb,
    Bool.not_true, Bool.false_eq_true, if_false]
  split
  · rename_i hinf
    have hzero : pointAt heap a = 0 := (hc.pointIsInfinity _ _).mp hinf
    exact h.stored hresult (by rw [hzero, zero_add]; rfl)
  · rename_i hinfA
    split
    · rename_i hinf
      have hzero : pointAt heap b = 0 := (hc.pointIsInfinity _ _).mp hinf
      exact h.stored hresult (by rw [hzero, add_zero]; rfl)
    · rename_i hinfB
      obtain ⟨p, hp⟩ := coordinates_of_ne_zero ((hc.pointIsInfinity _ _).not.mp hinfA)
      obtain ⟨q, hq⟩ := coordinates_of_ne_zero ((hc.pointIsInfinity _ _).not.mp hinfB)
      simp only [pointToXy_of_coordinates hc _ hp, pointToXy_of_coordinates hc _ hq,
        hc.pointAdd _ _ p q hp hq, pointResult]
      cases hsum : coordinates (c.toPoint (heap.points a).value + c.toPoint (heap.points b).value)
      with
      | none =>
        have hzero : pointAt heap a + pointAt heap b = 0 := coordinates_eq_none.mp hsum
        rw [hzero]
        exact h.stored hresult (hc.identity _)
      | some r => exact h.stored_fromXy hc hresult _ hsum

theorem pointInvert_stored (hc : c.Correct) {point : ℕ}
    (h : ValidCall layouts heap context [point]) :
    Stored heap point (c.cryptoEcPointInvert layouts heap context point) (-pointAt heap point) := by
  have hpoint : point ∈ [point] := by simp
  have halias : pointAliases layouts context point [point] = true :=
    h.pointAliases_eq hpoint (by simp)
  simp only [cryptoEcPointInvert, h.ecGroup_eq, halias, h.pointClone_eq hpoint, Bool.not_true,
    Bool.false_eq_true, if_false]
  split
  · rename_i hinf
    have hzero : pointAt heap point = 0 := (hc.pointIsInfinity _ _).mp hinf
    refine ⟨(heap.points point).value, ?_, ?_⟩
    · rw [Function.update_eq_self]
    · rw [hzero, neg_zero]
      exact hzero
  · rename_i hinf
    have hne := (hc.pointIsInfinity _ _).not.mp hinf
    obtain ⟨p, hp⟩ := coordinates_of_ne_zero hne
    obtain ⟨r, hr⟩ := coordinates_of_ne_zero (neg_ne_zero.mpr hne)
    simp only [pointToXy_of_coordinates hc _ hp, hc.pointInvert _ p hp, hr]
    exact h.stored_fromXy hc hpoint _ hr

/-- A multiple is stored unless the order of the point divides the scalar; the
identity has order 1. -/
theorem pointMul_stored_iff (hc : c.Correct) {point scalar result : ℕ}
    (h : ValidCall layouts heap context [point, result])
    (hscalar : ValidScalar layouts heap [point, result] scalar) :
    Stored heap result (c.cryptoEcPointMul layouts heap context point scalar result)
        (scalarAt heap scalar • pointAt heap point) ↔
      ¬ addOrderOf (pointAt heap point) ∣ scalarAt heap scalar := by
  have hresult : result ∈ [point, result] := by simp
  have hpoint : point ∈ [point, result] := by simp
  have hapart : rangesOverlap result _ scalar _ = some false := hscalar.apart result hresult
  have hapart' : rangesOverlap point _ scalar _ = some false := hscalar.apart point hpoint
  have hclone : bignumClone layouts.bignum heap.bignums scalar =
      some (heap.bignums scalar).value := by
    simp [bignumClone, hscalar.aligned, hscalar.magic]
  have hpow : (2 : ℕ) ^ 256 = 256 ^ p256ElementBytes := by decide +kernel
  obtain ⟨bytes, hwrite⟩ :=
    Option.isSome_iff_exists.mp ((hc.writeBe _).mpr (hpow ▸ hscalar.lt))
  obtain ⟨hlen, hval⟩ := hc.writeBe_eq _ _ hwrite
  have halias : pointAliases layouts context result [point] = true :=
    h.pointAliases_eq hresult (by simp)
  simp only [cryptoEcPointMul, h.ecGroup_eq, halias, hapart, hapart', h.pointClone_eq hpoint,
    hclone, hwrite, Bool.not_true, bne_self_eq_false, Bool.or_self, Bool.false_eq_true, if_false]
  rw [addOrderOf_dvd_iff_nsmul_eq_zero]
  constructor
  · intro hstored hzero
    rw [hzero] at hstored
    revert hstored
    split
    · exact not_stored_error
    · split
      · exact not_stored_error
      · exact h.not_stored_fromXy hc hresult _ _ _
  · intro hne
    have hpne : pointAt heap point ≠ 0 := by
      rintro hzero
      exact hne (by rw [hzero, nsmul_zero])
    obtain ⟨p, hp⟩ := coordinates_of_ne_zero hpne
    obtain ⟨r, hr⟩ := coordinates_of_ne_zero hne
    have hmul : coordinates (fromBe bytes • pointAt heap point) = some r := by
      rw [hval]
      exact hr
    simp only [pointToXy_of_coordinates hc _ hp, hc.pointMul _ p bytes r hp hlen hmul]
    exact h.stored_fromXy hc hresult _ hr

end Valid

/-- Sum and inverse are always computed, a multiple iff it is affine. -/
theorem ec_point_functions_complete (c : EcProvider) (hc : c.Correct) (layouts : Layouts)
    (heap : Heap c) (context : ℕ) :
    (∀ a b result, ValidCall layouts heap context [a, b, result] →
      Stored heap result (c.cryptoEcPointAdd layouts heap context a b result)
        (pointAt heap a + pointAt heap b)) ∧
    (∀ point scalar result, ValidCall layouts heap context [point, result] →
      ValidScalar layouts heap [point, result] scalar →
      (Stored heap result (c.cryptoEcPointMul layouts heap context point scalar result)
          (scalarAt heap scalar • pointAt heap point) ↔
        ¬ addOrderOf (pointAt heap point) ∣ scalarAt heap scalar)) ∧
    ∀ point, ValidCall layouts heap context [point] →
      Stored heap point (c.cryptoEcPointInvert layouts heap context point)
        (-pointAt heap point) :=
  ⟨fun _ _ _ => pointAdd_stored hc, fun _ _ _ => pointMul_stored_iff hc,
    fun _ => pointInvert_stored hc⟩

/-! ## §3 A provider -/

section Points

/-- Points themselves; the engine reads and writes coordinates. -/
def pointProvider : EcProvider where
  toProvider := Provider.natProvider true
  Group := Unit
  groupId _ := 19
  group19 := 19
  Point := P256Point
  toPoint P := P
  identity _ := 0
  pointIsInfinity _ P := (coordinates P).isNone
  pointToXy _ P := (coordinates P).map fun p => (p.x, p.y)
  pointFromXy _ x y := decodePoint ⟨x, y⟩
  pointAddHardware a b :=
    match decodePoint a, decodePoint b with
    | some P, some Q => some (pointResult (P + Q))
    | _, _ => none
  pointMulHardware a e := (decodePoint a).bind fun P => coordinates (fromBe e • P)
  pointInvertHardware a := (decodePoint a).bind fun P => coordinates (-P)

theorem pointProvider_correct : pointProvider.Correct where
  toBignumCorrect := Provider.natProvider_bignumCorrect true
  identity _ := rfl
  pointIsInfinity _ P := by
    rw [← coordinates_eq_none]
    exact Option.isNone_iff_eq_none
  pointToXy _ P := rfl
  pointFromXy _ P x y hP := ⟨P, decodePoint_eq_some.mpr hP, rfl⟩
  pointFromXy_eq _ x y P hP := decodePoint_eq_some.mp hP
  pointAdd P Q a b hP hQ := by
    have ha := decodePoint_eq_some.mpr hP
    have hb := decodePoint_eq_some.mpr hQ
    simp only [pointProvider, ha, hb]
  pointMul P a e r hP _ hr := by
    have ha := decodePoint_eq_some.mpr hP
    simp only [pointProvider, ha]
    exact hr
  pointInvert P a hP := by
    have ha := decodePoint_eq_some.mpr hP
    simp only [pointProvider, ha]
    rfl

/-- The context is at 32, the base point at 64, the identity elsewhere. -/
def generatorHeap : Heap pointProvider where
  contexts _ := ⟨ecMagic, ()⟩
  points address := ⟨pointMagic, if address = 64 then generator else .zero⟩
  bignums _ := ⟨bignumMagic, owned, (1 : ℕ)⟩

def wordLayouts : Layouts := ⟨⟨16, 4⟩, ⟨16, 4⟩, ⟨16, 4⟩⟩

theorem generatorHeap_valid {points : List ℕ} (h : ∀ p ∈ points, p ∈ [64, 96, 128]) :
    ValidCall wordLayouts generatorHeap 32 points where
  context_aligned := by decide
  context_magic := rfl
  context_group := rfl
  aligned p hp := by
    have hall : ∀ p ∈ [64, 96, 128], Crypto.aligned wordLayouts.point p = true := by decide
    exact hall p (h p hp)
  magic _ _ := rfl
  apart p hp := by
    have hall : ∀ p ∈ [64, 96, 128], rangesOverlap p 16 32 16 = some false := by decide
    exact hall p (h p hp)
  pairwise p hp q hq := by
    have hall : ∀ p ∈ [64, 96, 128], ∀ q ∈ [64, 96, 128],
        p = q ∨ rangesOverlap p 16 q 16 = some false := by decide
    exact hall p (h p hp) q (h q hq)

theorem generatorHeap_validScalar {points : List ℕ} (h : ∀ p ∈ points, p ∈ [64, 96, 128]) :
    ValidScalar wordLayouts generatorHeap points 160 where
  aligned := by decide
  magic := rfl
  apart p hp := by
    have hall : ∀ p ∈ [64, 96, 128], rangesOverlap p 16 160 16 = some false := by decide
    exact hall p (h p hp)
  lt := Nat.one_lt_two_pow (by decide)

theorem ec_point_functions_complete_generator :
    Stored generatorHeap 128
        (pointProvider.cryptoEcPointAdd wordLayouts generatorHeap 32 64 96 128) generator ∧
      Stored generatorHeap 128
        (pointProvider.cryptoEcPointMul wordLayouts generatorHeap 32 64 160 128) generator := by
  obtain ⟨hadd, hmul, -⟩ :=
    ec_point_functions_complete pointProvider pointProvider_correct wordLayouts generatorHeap 32
  have hne : generator ≠ 0 := WeierstrassCurve.Affine.Point.some_ne_zero _
  constructor
  · have hstored := hadd 64 96 128 (generatorHeap_valid (by simp))
    exact add_zero generator ▸ hstored
  · have horder : ¬ addOrderOf generator ∣ 1 := by
      rw [addOrderOf_dvd_iff_nsmul_eq_zero, one_nsmul]
      exact hne
    have hstored := (hmul 64 160 128 (generatorHeap_valid (by simp))
      (generatorHeap_validScalar (by simp))).mpr horder
    exact one_nsmul generator ▸ hstored

/-- The identity times 1 is refused. -/
theorem not_pointMul_complete :
    ¬ ∀ c : EcProvider, c.Correct → ∀ layouts (heap : Heap c) context point scalar result,
      ValidCall layouts heap context [point, result] →
      ValidScalar layouts heap [point, result] scalar →
      Stored heap result (c.cryptoEcPointMul layouts heap context point scalar result)
        (scalarAt heap scalar • pointAt heap point) := by
  intro h
  have hcall : ValidCall wordLayouts generatorHeap 32 [96, 128] := generatorHeap_valid (by simp)
  have hscalar : ValidScalar wordLayouts generatorHeap [96, 128] 160 :=
    generatorHeap_validScalar (by simp)
  have hstored := h pointProvider pointProvider_correct _ generatorHeap 32 96 160 128 hcall hscalar
  refine (pointMul_stored_iff pointProvider_correct hcall hscalar).mp hstored ?_
  have hzero : pointAt generatorHeap 96 = 0 := rfl
  rw [hzero, addOrderOf_zero]
  exact one_dvd _

end Points

end EcProvider

end HisiRiscv.Crypto
