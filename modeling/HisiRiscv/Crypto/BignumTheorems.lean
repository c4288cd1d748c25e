/-
HisiRiscv.Crypto.BignumTheorems — the big-number functions compute modulo the
modulus, whichever path they take.

On the hardware path a power stands for the inverse (Fermat) and for the
Legendre symbol (Euler); both need that the modulus is prime and that the
exponents are `p - 2` and `p / 2`. Which path is taken depends on the
modulus and on whether the operands are reduced. The results agree with
arithmetic on both. The paths succeed on the same operands, except that an
engine that reports an error fails the call: there is no second attempt in
software.

  §1 Encodings.
  §2 Values.
  §3 The two paths.
  §4 Main results.
  §5 A provider.
-/
import HisiRiscv.Crypto.Bignum

namespace HisiRiscv.Crypto

open HisiRiscv.BigEndian HisiRiscv.PrimeField

namespace Provider

variable {c : Provider}

/-! ## §1 Encodings -/

section Encodings

theorem p256Prime_lt : p256Prime < 256 ^ p256ElementBytes := by decide +kernel

theorem p256Prime_pos : 0 < p256Prime := by decide +kernel

/-- The modulus test. -/
theorem bignumIsP256Prime_iff (h : c.Correct) (v : c.Bignum) :
    c.bignumIsP256Prime v = true ↔ c.toNat v = p256Prime := by
  unfold bignumIsP256Prime
  rw [beq_iff_eq]
  constructor
  · intro hwrite
    rw [← (h.writeBe_eq v _ hwrite).2, fromBe_p256FieldPrime]
  · intro hv
    have hfits : c.toNat v < 256 ^ p256ElementBytes := hv ▸ p256Prime_lt
    obtain ⟨bytes, hwrite⟩ := Option.isSome_iff_exists.mp ((h.writeBe v).mpr hfits)
    obtain ⟨hlen, hval⟩ := h.writeBe_eq v bytes hwrite
    have hbytes : bytes = p256FieldPrime :=
      fromBe_injective (hlen.trans rfl) (by rw [hval, hv, fromBe_p256FieldPrime])
    rw [hwrite, hbytes]

/-- The operand test: exactly the reduced numbers become field elements. -/
theorem bignumToP256Field_isSome (h : c.Correct) (v : c.Bignum) :
    (c.bignumToP256Field v).isSome ↔ c.toNat v < p256Prime := by
  unfold bignumToP256Field
  cases hwrite : c.writeBe v p256ElementBytes with
  | none =>
    have hbig := (h.writeBe v).not.mp (by simp [hwrite])
    have hlt := p256Prime_lt
    simp only [Option.bind_none, Option.isSome_none, Bool.false_eq_true, false_iff]
    omega
  | some bytes =>
    obtain ⟨hlen, hval⟩ := h.writeBe_eq v bytes hwrite
    rw [Option.bind_some, h.tryFromBeBytes bytes hlen, hval]

theorem fieldVal_of_bignum (h : c.Correct) {v : c.Bignum} {x : c.Field}
    (hx : c.bignumToP256Field v = some x) : c.fieldVal x = c.toNat v := by
  obtain ⟨bytes, hwrite, htry⟩ := Option.bind_eq_some_iff.mp hx
  rw [h.tryFromBeBytes_eq bytes x htry, (h.writeBe_eq v bytes hwrite).2]

theorem bignumToP256Exponent_eq (h : c.Correct) {v : c.Bignum} {bytes : List UInt8}
    (hv : c.bignumToP256Exponent v = some bytes) : fromBe bytes = c.toNat v :=
  (h.writeBe_eq v bytes hv).2

/-- The way back never fails. -/
theorem p256FieldToBignum_eq (h : c.Correct) (x : c.Field) :
    ∃ v, c.p256FieldToBignum x = some v ∧ c.toNat v = c.fieldVal x := by
  obtain ⟨hlen, hval⟩ := h.asBeBytes x
  obtain ⟨v, hset, hv⟩ := h.initSet _ hlen
  exact ⟨v, hset, by rw [hv, hval]⟩

/-- A hardware result that has been converted. -/
theorem toNat_of_hardware (h : c.Correct) {y : Option c.Field} {r : c.Bignum}
    (hr : y.bind c.p256FieldToBignum = some r) : ∃ x, y = some x ∧ c.toNat r = c.fieldVal x := by
  obtain ⟨x, hy, hconvert⟩ := Option.bind_eq_some_iff.mp hr
  obtain ⟨v, hv, hval⟩ := p256FieldToBignum_eq h x
  rw [hconvert] at hv
  cases hv
  exact ⟨x, hy, hval⟩

/-- The conversion of a hardware result fails only with the engine. -/
theorem isSome_of_hardware (h : c.Correct) (y : Option c.Field) :
    (y.bind c.p256FieldToBignum).isSome = y.isSome := by
  cases y with
  | none => rfl
  | some x =>
    obtain ⟨v, hv, -⟩ := p256FieldToBignum_eq h x
    simp [hv]

/-- The symbol is read off the three outputs of Euler's criterion. -/
theorem p256LegendreResult_eq (h : c.Correct) (x : c.Field) :
    c.p256LegendreResult x =
      if c.fieldVal x = 0 then some .zero
      else if c.fieldVal x = 1 then some .residue
      else if c.fieldVal x = p256Prime - 1 then some .nonResidue
      else none := by
  obtain ⟨hlen, hval⟩ := h.asBeBytes x
  have hzero : (c.asBeBytes x).all (· = 0) = true ↔ c.fieldVal x = 0 := by
    have hreplicate : fromBe (List.replicate p256ElementBytes 0) = 0 := by decide +kernel
    constructor
    · intro hall
      have hbytes : c.asBeBytes x = List.replicate p256ElementBytes 0 := by
        refine List.eq_replicate_iff.mpr ⟨hlen, fun byte hbyte => ?_⟩
        simpa using List.all_eq_true.mp hall byte hbyte
      rw [← hval, hbytes, hreplicate]
    · intro hx
      have hbytes : c.asBeBytes x = List.replicate p256ElementBytes 0 :=
        fromBe_injective (by rw [hlen, List.length_replicate]) (by rw [hval, hx, hreplicate])
      rw [hbytes]
      decide
  have hone : c.asBeBytes x = p256FieldOne ↔ c.fieldVal x = 1 := by
    constructor
    · intro hbytes
      rw [← hval, hbytes, fromBe_p256FieldOne]
    · intro hx
      exact fromBe_injective hlen (by rw [hval, hx, fromBe_p256FieldOne])
  have hminus : c.asBeBytes x = p256FieldMinusOne ↔ c.fieldVal x = p256Prime - 1 := by
    constructor
    · intro hbytes
      rw [← hval, hbytes, fromBe_p256FieldMinusOne]
    · intro hx
      exact fromBe_injective hlen (by rw [hval, hx, fromBe_p256FieldMinusOne])
  simp only [p256LegendreResult, hzero, hone, hminus]

end Encodings

/-! ## §2 Values -/

section Values

theorem inverseValue_correct (h : c.Correct) {v m r : c.Bignum} (hm : 0 < c.toNat m)
    (hcoprime : Nat.Coprime (c.toNat v) (c.toNat m)) (hr : c.inverseValue v m = some r) :
    c.toNat r < c.toNat m ∧ c.toNat r * c.toNat v % c.toNat m = 1 % c.toNat m := by
  unfold inverseValue at hr
  split at hr
  · rename_i hprime
    have hmod := (bignumIsP256Prime_iff h m).mp hprime
    split at hr
    · rename_i x hx
      split at hr
      · cases hr
      · rename_i hnonzero
        obtain ⟨y, hy, hry⟩ := toNat_of_hardware h hr
        have hval := fieldVal_of_bignum h hx
        have hlt := h.fieldVal_lt x
        have hne : c.toNat v % p256Prime ≠ 0 := by
          rw [← hval, Nat.mod_eq_of_lt hlt]
          exact fun hzero => hnonzero ((h.fieldIsZero x).mpr hzero)
        rw [hmod, hry]
        refine ⟨h.fieldVal_lt y, ?_⟩
        rw [h.fieldPow x _ y hy, hval, fromBe_p256InverseExponent, Nat.mod_mul_mod,
          pow_sub_two_mul_mod p256Prime hne]
        exact (Nat.mod_eq_of_lt prime_p256Prime.one_lt).symm
    · exact h.inverse v m r hm hcoprime hr
  · exact h.inverse v m r hm hcoprime hr

theorem sqrmodValue_correct (h : c.Correct) {v m r : c.Bignum} (hm : 0 < c.toNat m)
    (hr : c.sqrmodValue v m = some r) : c.toNat r = c.toNat v ^ 2 % c.toNat m := by
  unfold sqrmodValue at hr
  split at hr
  · rename_i hprime
    split at hr
    · rename_i x hx
      obtain ⟨y, hy, hry⟩ := toNat_of_hardware h hr
      rw [hry, h.fieldSquare x y hy, fieldVal_of_bignum h hx, (bignumIsP256Prime_iff h m).mp hprime]
    · exact h.squareMod v m r hm hr
  · exact h.squareMod v m r hm hr

theorem exptmodValue_correct (h : c.Correct) {b e m r : c.Bignum} (hm : 0 < c.toNat m)
    (hr : c.exptmodValue b e m = some r) :
    c.toNat r = c.toNat b ^ c.toNat e % c.toNat m := by
  unfold exptmodValue at hr
  split at hr
  · rename_i hprime
    split at hr
    · rename_i x bytes hx hbytes
      obtain ⟨y, hy, hry⟩ := toNat_of_hardware h hr
      rw [hry, h.fieldPow x _ y hy, fieldVal_of_bignum h hx, bignumToP256Exponent_eq h hbytes,
        (bignumIsP256Prime_iff h m).mp hprime]
    · exact h.expMod b e m r hm hr
  · exact h.expMod b e m r hm hr

theorem mulmodValue_correct (h : c.Correct) {a b m r : c.Bignum} (hm : 0 < c.toNat m)
    (hr : c.mulmodValue a b m = some r) : c.toNat r = c.toNat a * c.toNat b % c.toNat m := by
  unfold mulmodValue at hr
  split at hr
  · rename_i hprime
    split at hr
    · rename_i x x' hx hx'
      obtain ⟨y, hy, hry⟩ := toNat_of_hardware h hr
      rw [hry, h.fieldMul x x' y hy, fieldVal_of_bignum h hx, fieldVal_of_bignum h hx',
        (bignumIsP256Prime_iff h m).mp hprime]
    · exact h.mulMod a b m r hm hr
  · exact h.mulMod a b m r hm hr

/-- What the engine's power says about the symbol. -/
theorem p256LegendreResult_pow (h : c.Correct) {x y : c.Field}
    (hy : c.fieldPowHardware x p256LegendreExponent = some y) :
    ∃ s, c.p256LegendreResult y = some s ∧ s.toInt = legendreSym p256Prime (c.fieldVal x) := by
  have hval := h.fieldPow x _ y hy
  rw [fromBe_p256LegendreExponent] at hval
  rw [p256LegendreResult_eq h]
  obtain ⟨hsym, hpow⟩ | ⟨hsym, hpow⟩ | ⟨hsym, hpow⟩ := pow_half_cases p256Prime (c.fieldVal x)
  · refine ⟨.zero, ?_, hsym.symm⟩
    rw [if_pos (hval.trans hpow)]
  · refine ⟨.residue, ?_, hsym.symm⟩
    rw [hval, hpow, if_neg one_ne_zero, if_pos rfl]
  · refine ⟨.nonResidue, ?_, hsym.symm⟩
    rw [hval, hpow, if_neg (by decide +kernel), if_neg (by decide +kernel), if_pos rfl]

theorem legendreValue_correct (h : c.Correct) {v q : c.Bignum} {s : LegendreSymbol}
    (hq : Fact (c.toNat q).Prime) (hodd : c.toNat q ≠ 2) (hs : c.legendreValue v q = some s) :
    s.toInt = legendreSym (c.toNat q) (c.toNat v) := by
  unfold legendreValue at hs
  split at hs
  · rename_i hprime
    have hmod := (bignumIsP256Prime_iff h q).mp hprime
    split at hs
    · rename_i x hx
      obtain ⟨y, hy, hresult⟩ := Option.bind_eq_some_iff.mp hs
      obtain ⟨s', hs', hsym⟩ := p256LegendreResult_pow h hy
      rw [hresult] at hs'
      cases hs'
      rw [hsym, fieldVal_of_bignum h hx]
      congr 1
      exact hmod.symm
    · exact h.legendre v q s hq hodd hs
  · exact h.legendre v q s hq hodd hs

end Values

/-! ## §3 The two paths -/

/-- Modulo the P-256 prime and on reduced operands the functions succeed where the
software does, unless the engine reports an error. -/
structure PathsAgree (c : Provider) (m : c.Bignum) : Prop where
  inverse : ∀ v, c.toNat v < p256Prime → ((c.inverseValue v m).isSome ↔
    (c.inverse v m).isSome ∧
      ∀ x ∈ c.bignumToP256Field v, (c.fieldPowHardware x p256InverseExponent).isSome)
  sqrmod : ∀ v, c.toNat v < p256Prime → ((c.sqrmodValue v m).isSome ↔
    (c.squareMod v m).isSome ∧ ∀ x ∈ c.bignumToP256Field v, (c.fieldSquareHardware x).isSome)
  exptmod : ∀ b e, c.toNat b < p256Prime → ((c.exptmodValue b e m).isSome ↔
    (c.expMod b e m).isSome ∧ ∀ x ∈ c.bignumToP256Field b,
      ∀ bytes ∈ c.bignumToP256Exponent e, (c.fieldPowHardware x bytes).isSome)
  mulmod : ∀ a b, c.toNat a < p256Prime → c.toNat b < p256Prime →
    ((c.mulmodValue a b m).isSome ↔ (c.mulMod a b m).isSome ∧
      ∀ x ∈ c.bignumToP256Field a, ∀ y ∈ c.bignumToP256Field b,
        (c.fieldMulHardware x y).isSome)
  legendre : ∀ v, c.toNat v < p256Prime → ((c.legendreValue v m).isSome ↔
    (c.legendre v m).isSome ∧
      ∀ x ∈ c.bignumToP256Field v, (c.fieldPowHardware x p256LegendreExponent).isSome)

theorem pathsAgree (h : c.Correct) {m : c.Bignum} (hm : c.toNat m = p256Prime) :
    PathsAgree c m where
  inverse v hv := by
    obtain ⟨x, hx⟩ := Option.isSome_iff_exists.mp ((bignumToP256Field_isSome h v).mpr hv)
    have hval := fieldVal_of_bignum h hx
    have hsoftware : (c.inverse v m).isSome ↔ c.toNat v ≠ 0 := by
      rw [h.inverse_isSome v m hm, Nat.mod_eq_of_lt hv]
    simp only [inverseValue, (bignumIsP256Prime_iff h m).mpr hm, hx, if_true, hsoftware,
      Option.mem_some_iff, forall_eq']
    split
    · rename_i hzero
      simp [← hval, (h.fieldIsZero x).mp hzero]
    · rename_i hnonzero
      have hne : c.toNat v ≠ 0 := by
        rw [← hval]
        exact fun h0 => hnonzero ((h.fieldIsZero x).mpr h0)
      rw [isSome_of_hardware h]
      simp [hne]
  sqrmod v hv := by
    obtain ⟨x, hx⟩ := Option.isSome_iff_exists.mp ((bignumToP256Field_isSome h v).mpr hv)
    simp [sqrmodValue, (bignumIsP256Prime_iff h m).mpr hm, hx, isSome_of_hardware h,
      h.squareMod_isSome v m hm]
  exptmod b e hb := by
    obtain ⟨x, hx⟩ := Option.isSome_iff_exists.mp ((bignumToP256Field_isSome h b).mpr hb)
    cases he : c.bignumToP256Exponent e with
    | none =>
      simp [exptmodValue, (bignumIsP256Prime_iff h m).mpr hm, hx, he, h.expMod_isSome b e m hm]
    | some bytes =>
      simp [exptmodValue, (bignumIsP256Prime_iff h m).mpr hm, hx, he, isSome_of_hardware h,
        h.expMod_isSome b e m hm]
  mulmod a b ha hb := by
    obtain ⟨x, hx⟩ := Option.isSome_iff_exists.mp ((bignumToP256Field_isSome h a).mpr ha)
    obtain ⟨y, hy⟩ := Option.isSome_iff_exists.mp ((bignumToP256Field_isSome h b).mpr hb)
    simp [mulmodValue, (bignumIsP256Prime_iff h m).mpr hm, hx, hy, isSome_of_hardware h,
      h.mulMod_isSome a b m hm]
  legendre v hv := by
    obtain ⟨x, hx⟩ := Option.isSome_iff_exists.mp ((bignumToP256Field_isSome h v).mpr hv)
    have hresult : ((c.fieldPowHardware x p256LegendreExponent).bind c.p256LegendreResult).isSome =
        (c.fieldPowHardware x p256LegendreExponent).isSome := by
      cases hy : c.fieldPowHardware x p256LegendreExponent with
      | none => rfl
      | some y =>
        obtain ⟨s, hs, -⟩ := p256LegendreResult_pow h hy
        simp [hs]
    simp [legendreValue, (bignumIsP256Prime_iff h m).mpr hm, hx, hresult,
      h.legendre_isSome v m hm]

/-! ## §4 Main results -/

section Functions

variable {B : Type} {layout : Layout} {objects objects' : Objects (BignumObject B)}

/-- A call that stores its value. -/
theorem finishCall_eq_zero {result : ℕ} {value : Option B}
    (h : finishCall layout objects result value = (0, objects')) :
    ∃ r, value = some r ∧
      objects' = Function.update objects result { objects result with value := r } := by
  unfold finishCall at h
  split at h
  · rename_i stored hstored
    cases h
    obtain ⟨r, hr, hstore⟩ := Option.bind_eq_some_iff.mp hstored
    unfold bignumStore at hstore
    split at hstore
    · cases hstore
    · split at hstore
      · cases hstore
      · cases hstore
        exact ⟨r, hr, rfl⟩
  · cases h

theorem bignumClone_eq {pointer : ℕ} {value : B} (h : bignumClone layout objects pointer = some value) :
    (objects pointer).value = value := by
  obtain ⟨-, h⟩ := Option.ite_none_right_eq_some.mp h
  exact Option.some.inj h

theorem bignumBinary_eq_zero {a b result : ℕ} {operation : B → B → Option B}
    (h : bignumBinary layout objects a b result operation = (0, objects')) :
    ∃ r, operation (objects a).value (objects b).value = some r ∧
      objects' = Function.update objects result { objects result with value := r } := by
  unfold bignumBinary at h
  split at h
  · cases h
  · split at h
    · rename_i x y hx hy
      rw [bignumClone_eq hx, bignumClone_eq hy]
      exact finishCall_eq_zero h
    · cases h

theorem bignumTernary_eq_zero {a b modulus result : ℕ} {operation : B → B → B → Option B}
    (h : bignumTernary layout objects a b modulus result operation = (0, objects')) :
    ∃ r, operation (objects a).value (objects b).value (objects modulus).value = some r ∧
      objects' = Function.update objects result { objects result with value := r } := by
  unfold bignumTernary at h
  split at h
  · cases h
  · split at h
    · rename_i x y m hx hy hm
      rw [bignumClone_eq hx, bignumClone_eq hy, bignumClone_eq hm]
      exact finishCall_eq_zero h
    · cases h

end Functions

/-- The number at an address. -/
def number (c : Provider) (objects : Objects (BignumObject c.Bignum)) (pointer : ℕ) : ℕ :=
  c.toNat (objects pointer).value

/-- If the call reports success, it has stored a number with the property `P` in the
result, and changed nothing else. -/
def Stores (c : Provider) (objects : Objects (BignumObject c.Bignum)) (result : ℕ)
    (outcome : Outcome c.Bignum) (P : ℕ → Prop) : Prop :=
  outcome.1 = 0 → ∃ r,
    outcome.2 = Function.update objects result { objects result with value := r } ∧ P (c.toNat r)

/-- The five functions agree with arithmetic. -/
structure ArithmeticCorrect (c : Provider) (layout : Layout)
    (objects : Objects (BignumObject c.Bignum)) : Prop where
  inverse : ∀ value modulus result, 0 < c.number objects modulus →
    Nat.Coprime (c.number objects value) (c.number objects modulus) →
    c.Stores objects result (c.cryptoBignumInverse layout objects value modulus result) fun r =>
      r < c.number objects modulus ∧
        r * c.number objects value % c.number objects modulus = 1 % c.number objects modulus
  sqrmod : ∀ value modulus result, 0 < c.number objects modulus →
    c.Stores objects result (c.cryptoBignumSqrmod layout objects value modulus result) fun r =>
      r = c.number objects value ^ 2 % c.number objects modulus
  exptmod : ∀ base exponent modulus result, 0 < c.number objects modulus →
    c.Stores objects result (c.cryptoBignumExptmod layout objects base exponent modulus result)
      fun r => r = c.number objects base ^ c.number objects exponent % c.number objects modulus
  mulmod : ∀ a b modulus result, 0 < c.number objects modulus →
    c.Stores objects result (c.cryptoBignumMulmod layout objects a b modulus result) fun r =>
      r = c.number objects a * c.number objects b % c.number objects modulus
  legendre : ∀ value prime, (hprime : Fact (c.number objects prime).Prime) →
    c.number objects prime ≠ 2 → c.cryptoBignumLegendre layout objects value prime ≠ -2 →
    (c.cryptoBignumLegendre layout objects value prime).toInt =
      legendreSym (c.number objects prime) (c.number objects value)

theorem arithmeticCorrect (h : c.Correct) (layout : Layout)
    (objects : Objects (BignumObject c.Bignum)) : ArithmeticCorrect c layout objects where
  inverse value modulus result hpos hcoprime hstatus := by
    obtain ⟨r, hr, hobjects⟩ := bignumBinary_eq_zero (Prod.ext hstatus rfl)
    exact ⟨r, hobjects, inverseValue_correct h hpos hcoprime hr⟩
  sqrmod value modulus result hpos hstatus := by
    obtain ⟨r, hr, hobjects⟩ := bignumBinary_eq_zero (Prod.ext hstatus rfl)
    exact ⟨r, hobjects, sqrmodValue_correct h hpos hr⟩
  exptmod base exponent modulus result hpos hstatus := by
    obtain ⟨r, hr, hobjects⟩ := bignumTernary_eq_zero (Prod.ext hstatus rfl)
    exact ⟨r, hobjects, exptmodValue_correct h hpos hr⟩
  mulmod a b modulus result hpos hstatus := by
    obtain ⟨r, hr, hobjects⟩ := bignumTernary_eq_zero (Prod.ext hstatus rfl)
    exact ⟨r, hobjects, mulmodValue_correct h hpos hr⟩
  legendre value prime hprime hodd hsuccess := by
    unfold cryptoBignumLegendre at hsuccess ⊢
    split at hsuccess
    · exact absurd rfl hsuccess
    · rename_i halias
      rw [if_neg halias]
      split at hsuccess
      · rename_i v q hv hq
        have hcorrect : ∀ s, c.legendreValue v q = some s →
            s.toInt = legendreSym (c.number objects prime) (c.number objects value) := by
          intro s hs
          have hv' := bignumClone_eq hv
          have hq' := bignumClone_eq hq
          subst hv' hq'
          exact legendreValue_correct h hprime hodd hs
        cases hs : c.legendreValue v q with
        | none =>
          rw [hs] at hsuccess
          exact absurd rfl hsuccess
        | some s =>
          rw [← hcorrect s hs]
          cases s <;> rfl
      · exact absurd rfl hsuccess

/-- The functions agree with arithmetic on either path, and modulo the P-256 prime the
paths succeed together but for an error of the engine. -/
theorem bignum_functions_correct (c : Provider) (h : c.Correct) :
    (∀ layout objects, ArithmeticCorrect c layout objects) ∧
      ∀ m, c.toNat m = p256Prime → PathsAgree c m :=
  ⟨arithmeticCorrect h, fun _ => pathsAgree h⟩

/-! ## §5 A provider -/

section Numbers

theorem powMod_log2 (m b e : ℕ) : powMod m (e.log2 + 1) 1 b e = b ^ e % m := by
  rw [powMod_eq m Nat.lt_log2_self, one_mul]

theorem zmod_inv_val_lt {v m : ℕ} (hm : 0 < m) : ((v : ZMod m)⁻¹).val < m := by
  have : NeZero m := ⟨hm.ne'⟩
  exact ZMod.val_lt _

theorem zmod_inv_val_mul {v m : ℕ} (hm : 0 < m) (h : v.Coprime m) :
    ((v : ZMod m)⁻¹).val * v % m = 1 % m := by
  have : NeZero m := ⟨hm.ne'⟩
  have hmul := ZMod.coe_mul_inv_eq_one v h
  rw [← ZMod.natCast_eq_natCast_iff', Nat.cast_mul, ZMod.natCast_zmod_val, mul_comm, hmul,
    Nat.cast_one]

theorem coprime_p256Prime (v : ℕ) : v.Coprime p256Prime ↔ v % p256Prime ≠ 0 := by
  rw [Nat.coprime_comm, prime_p256Prime.coprime_iff_not_dvd, Nat.dvd_iff_mod_eq_zero]

/-- Euler's criterion. -/
def eulerSymbol (v q : ℕ) : LegendreSymbol :=
  match powMod q ((q / 2).log2 + 1) 1 v (q / 2) with
  | 0 => .zero
  | 1 => .residue
  | _ => .nonResidue

theorem eulerSymbol_toInt (v : ℕ) {q : ℕ} (hq : Fact q.Prime) (hodd : q ≠ 2) :
    (eulerSymbol v q).toInt = legendreSym q v := by
  unfold eulerSymbol
  rw [powMod_log2]
  have htwo := hq.out.two_le
  obtain ⟨hsym, hpow⟩ | ⟨hsym, hpow⟩ | ⟨hsym, hpow⟩ := pow_half_cases q v
  · rw [hsym, hpow]
    rfl
  · rw [hsym, hpow]
    rfl
  · rw [hsym, hpow]
    obtain ⟨n, rfl⟩ := Nat.exists_eq_add_of_le' (show 3 ≤ q by omega)
    rfl

/-- Numbers and residues themselves. Without an engine every call of it is an error. -/
def natProvider (engine : Bool) : Provider where
  Bignum := ℕ
  toNat v := v
  writeBe v width := if v < 256 ^ width then some (toBe width v) else none
  initSet bytes := some (fromBe bytes)
  inverse v m := if 0 < m ∧ v.Coprime m then some ((v : ZMod m)⁻¹).val else none
  squareMod v m := if 0 < m then some (v ^ 2 % m) else none
  expMod b e m := if 0 < m then some (powMod m (e.log2 + 1) 1 b e) else none
  mulMod a b m := if 0 < m then some (a * b % m) else none
  legendre v q := if 0 < q then some (eulerSymbol v q) else none
  Field := { n : ℕ // n < p256Prime }
  fieldVal x := x.val
  fieldZero := ⟨0, p256Prime_pos⟩
  fieldIsZero x := x.val == 0
  tryFromBeBytes bytes := if h : fromBe bytes < p256Prime then some ⟨fromBe bytes, h⟩ else none
  asBeBytes x := toBe p256ElementBytes x.val
  fieldPowHardware x e :=
    if engine then some ⟨_, Nat.mod_lt (powMod p256Prime (8 * e.length) 1 x.val (fromBe e)) p256Prime_pos⟩
    else none
  fieldSquareHardware x :=
    if engine then some ⟨_, Nat.mod_lt (x.val ^ 2) p256Prime_pos⟩ else none
  fieldMulHardware a b :=
    if engine then some ⟨_, Nat.mod_lt (a.val * b.val) p256Prime_pos⟩ else none

theorem natProvider_bignumCorrect (engine : Bool) : (natProvider engine).BignumCorrect where
  writeBe v := by simp [natProvider]
  writeBe_eq v bytes h := by
    obtain ⟨hv, h⟩ := Option.ite_none_right_eq_some.mp h
    rw [← Option.some.inj h]
    exact ⟨length_toBe _ _, fromBe_toBe _ hv⟩
  initSet bytes _ := ⟨fromBe bytes, rfl, rfl⟩
  inverse v m r hm hcoprime h := by
    obtain ⟨-, h⟩ := Option.ite_none_right_eq_some.mp h
    rw [← Option.some.inj h]
    exact ⟨zmod_inv_val_lt hm, zmod_inv_val_mul hm hcoprime⟩
  squareMod v m r hm h := by
    obtain ⟨-, h⟩ := Option.ite_none_right_eq_some.mp h
    exact (Option.some.inj h).symm
  expMod b e m r hm h := by
    obtain ⟨-, h⟩ := Option.ite_none_right_eq_some.mp h
    exact (Option.some.inj h).symm.trans (powMod_log2 m b e)
  mulMod a b m r hm h := by
    obtain ⟨-, h⟩ := Option.ite_none_right_eq_some.mp h
    exact (Option.some.inj h).symm
  legendre v q s hq hodd h := by
    obtain ⟨-, h⟩ := Option.ite_none_right_eq_some.mp h
    rw [← Option.some.inj h]
    exact eulerSymbol_toInt v hq hodd
  inverse_isSome v m hm := by
    obtain rfl : m = p256Prime := hm
    have hsome : ((natProvider engine).inverse v p256Prime).isSome ↔ Nat.Coprime v p256Prime := by
      simp [natProvider, p256Prime_pos]
    exact hsome.trans (coprime_p256Prime v)
  squareMod_isSome v m hm := by
    obtain rfl : m = p256Prime := hm
    simp [natProvider, p256Prime_pos]
  expMod_isSome b e m hm := by
    obtain rfl : m = p256Prime := hm
    simp [natProvider, p256Prime_pos]
  mulMod_isSome a b m hm := by
    obtain rfl : m = p256Prime := hm
    simp [natProvider, p256Prime_pos]
  legendre_isSome v q hq := by
    obtain rfl : q = p256Prime := hq
    simp [natProvider, p256Prime_pos]

theorem natProvider_engineCorrect (engine : Bool) : (natProvider engine).EngineCorrect where
  fieldVal_lt x := x.property
  fieldIsZero x := by simp [natProvider]
  tryFromBeBytes bytes _ := by simp [natProvider]
  tryFromBeBytes_eq bytes x h := by
    obtain ⟨hlt, h⟩ := Option.dite_none_right_eq_some.mp h
    rw [← Option.some.inj h]
    rfl
  asBeBytes x := ⟨length_toBe _ _, fromBe_toBe _ (x.property.trans p256Prime_lt)⟩
  fieldPow x e y h := by
    obtain ⟨-, h⟩ := Option.ite_none_right_eq_some.mp h
    cases h
    have he : fromBe e < 2 ^ (8 * e.length) := by
      rw [pow_mul]
      exact fromBe_lt e
    simp [natProvider, powMod_eq _ he]
  fieldSquare x y h := by
    obtain ⟨-, h⟩ := Option.ite_none_right_eq_some.mp h
    cases h
    rfl
  fieldMul a b y h := by
    obtain ⟨-, h⟩ := Option.ite_none_right_eq_some.mp h
    cases h
    rfl

theorem natProvider_correct (engine : Bool) : (natProvider engine).Correct :=
  { natProvider_bignumCorrect engine, natProvider_engineCorrect engine with }

/-- 2 at address 16, the prime at 32, room for the result at 48. -/
def halfObjects : Objects (BignumObject ℕ) := fun address =>
  { magic := bignumMagic, ownership := owned,
    value := if address = 16 then 2 else if address = 32 then p256Prime else 0 }

theorem bignum_functions_correct_half :
    ∃ r, ((natProvider true).cryptoBignumInverse ⟨16, 4⟩ halfObjects 16 32 48).2 =
        Function.update halfObjects 48 { halfObjects 48 with value := r } ∧
      r < p256Prime ∧ r * 2 % p256Prime = 1 % p256Prime := by
  have hcorrect :=
    (bignum_functions_correct (natProvider true) (natProvider_correct true)).1 ⟨16, 4⟩ halfObjects
  have hcoprime : Nat.Coprime 2 p256Prime := (coprime_p256Prime 2).mpr (by decide +kernel)
  exact hcorrect.inverse 16 32 48 p256Prime_pos hcoprime (by decide +kernel)

/-- Without an engine the hardware path refuses what the software computes. -/
theorem not_paths_succeed_together :
    ¬ ∀ c : Provider, c.Correct → ∀ v m, c.toNat m = p256Prime → c.toNat v < p256Prime →
      ((c.sqrmodValue v m).isSome ↔ (c.squareMod v m).isSome) := by
  intro h
  have hsame := h (natProvider false) (natProvider_correct false) (2 : ℕ) p256Prime rfl
    (by decide +kernel)
  revert hsame
  decide +kernel

end Numbers

end Provider

end HisiRiscv.Crypto
