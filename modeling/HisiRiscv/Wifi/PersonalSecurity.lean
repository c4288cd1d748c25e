/-
HisiRiscv.Wifi.PersonalSecurity — what a personal network was chosen for.

`personal_security_from_ies` reads the body of an RSN element by offsets. It accepts the bodies that
have both lists of suites in full, as long as their counts say and with any bytes behind them, and
says which of the suites that it knows are among them. Every other body, also one that ends before
the second list, is of an unknown security (`rsn_exact`).

  §1 RSN elements.
  §2 Lists of suites, and counts.
  §3 Reading what is written.
  §4 Main result.
-/
import HisiRiscv.Wifi.ElementsTheorems

namespace HisiRiscv.Wifi.PersonalSecurity

/-! ## §1 RSN elements -/

abbrev Suite : Type := Vector UInt8 4

/-- The body of an RSN element. -/
structure Rsn where
  group : Suite
  pairwise : List Suite
  akms : List Suite
  /-- Capabilities and what follows them. -/
  rest : List UInt8
  pairwiseFits : pairwise.length < 65536
  akmsFit : akms.length < 65536

def u16ToLe (n : ℕ) : List UInt8 := [UInt8.ofNat n, UInt8.ofNat (n / 256)]

def encodeSuites (suites : List Suite) : List UInt8 := suites.flatMap Vector.toList

namespace Rsn

variable (rsn : Rsn)

def encode : List UInt8 :=
  [1, 0] ++ rsn.group.toList ++ u16ToLe rsn.pairwise.length ++ encodeSuites rsn.pairwise ++
    u16ToLe rsn.akms.length ++ encodeSuites rsn.akms ++ rsn.rest

def ccmp : Bool := rsn.pairwise.contains (rsnSuite 4)

def psk : Bool := rsn.akms.contains (rsnSuite 2)

def sae : Bool := rsn.akms.contains (rsnSuite 8)

def authMode : Int32 :=
  if rsn.psk && rsn.sae then authModeWpa2Wpa3Transition
  else if rsn.psk then authModeWpa2Psk
  else if rsn.sae then authModeWpa3Sae
  else 0

/-- What should be found in it. -/
def security : Int32 × Int32 := (rsn.authMode, if rsn.ccmp then 1 else 0)

end Rsn

/-! ## §2 Lists of suites, and counts -/

theorem length_encodeSuites (l : List Suite) : (encodeSuites l).length = 4 * l.length := by
  induction l with
  | nil => rfl
  | cons s l ih =>
    rw [encodeSuites, List.flatMap_cons, List.length_append, Vector.length_toList, List.length_cons]
    unfold encodeSuites at ih
    omega

theorem suites_append (s : Suite) (bytes : List UInt8) : suites (s.toList ++ bytes) = s :: suites bytes := by
  obtain ⟨⟨l⟩, hl⟩ := s
  match l, hl with
  | [a, b, c, d], _ => rfl

theorem suites_encodeSuites (l : List Suite) : suites (encodeSuites l) = l := by
  induction l with
  | nil => rfl
  | cons s l ih =>
    rw [encodeSuites, List.flatMap_cons, suites_append]
    exact congrArg _ ih

/-- Bytes as many as suites take are suites. -/
theorem exists_suites {bytes : List UInt8} {n : ℕ} (h : bytes.length = 4 * n) :
    ∃ l : List Suite, l.length = n ∧ bytes = encodeSuites l := by
  induction n generalizing bytes with
  | zero => exact ⟨[], rfl, List.eq_nil_of_length_eq_zero h⟩
  | succ n ih =>
    match bytes, h with
    | a :: b :: c :: d :: bytes, h =>
      obtain ⟨l, hl, hbytes⟩ := @ih bytes (by simp only [List.length_cons] at h; omega)
      exact ⟨#v[a, b, c, d] :: l, congrArg (· + 1) hl, by rw [hbytes]; rfl⟩
    | [], h | [_], h | [_, _], h | [_, _, _], h =>
      simp only [List.length_cons, List.length_nil] at h
      omega

section Count

variable {front two : List UInt8}

theorem getElem!_append (front back : List UInt8) (a b : UInt8) :
    (front ++ (a :: b :: back))[front.length]! = a ∧ (front ++ (a :: b :: back))[front.length + 1]! = b := by
  constructor
  · rw [List.getElem!_eq_getElem?_getD, List.getElem?_append_right (Nat.le_refl _), Nat.sub_self]
    rfl
  · rw [List.getElem!_eq_getElem?_getD, List.getElem?_append_right (Nat.le_add_right ..),
      show front.length + 1 - front.length = 1 from Nat.add_sub_cancel_left ..]
    rfl

/-- A count is read where it is written. -/
theorem u16FromLe_append {n : ℕ} (hn : n < 65536) (back : List UInt8) :
    u16FromLe (front ++ (u16ToLe n ++ back)) front.length = n := by
  obtain ⟨hlow, hhigh⟩ := getElem!_append front back (UInt8.ofNat n) (UInt8.ofNat (n / 256))
  unfold u16ToLe
  rw [List.cons_append, List.singleton_append, u16FromLe, hlow, hhigh, UInt8.toNat_ofNat', UInt8.toNat_ofNat',
    Nat.mod_eq_of_lt (by omega : n / 256 < 256)]
  exact Nat.mod_add_div n 256

/-- Two bytes are the count they are read as. -/
theorem eq_u16ToLe (front : List UInt8) (h : two.length = 2) (back : List UInt8) :
    two = u16ToLe (u16FromLe (front ++ (two ++ back)) front.length) := by
  match two, h with
  | [a, b], _ =>
    obtain ⟨hlow, hhigh⟩ := getElem!_append front back a b
    have hdiv : (a.toNat + 256 * b.toNat) / 256 = b.toNat := by
      rw [Nat.add_mul_div_left _ _ (by decide), Nat.div_eq_of_lt a.toNat_lt, Nat.zero_add]
    have hmod : UInt8.ofNat (a.toNat + 256 * b.toNat) = a := by
      apply UInt8.toNat_inj.mp
      rw [UInt8.toNat_ofNat', Nat.add_mul_mod_self_left, Nat.mod_eq_of_lt a.toNat_lt]
    rw [List.cons_append, List.singleton_append, u16FromLe, hlow, hhigh, u16ToLe, hdiv, hmod, UInt8.ofNat_toNat]

end Count

theorem slice_append (front middle back : List UInt8) {start stop : ℕ} (hstart : front.length = start)
    (hstop : start + middle.length = stop) : ((front ++ (middle ++ back)).take stop).drop start = middle := by
  subst hstart hstop
  rw [List.drop_take, List.drop_left, Nat.add_sub_cancel_left, List.take_left]

/-- The first bytes of a body. -/
theorem exists_front (body : List UInt8) (n : ℕ) (h : n ≤ body.length) :
    ∃ front back, body = front ++ back ∧ front.length = n :=
  ⟨body.take n, body.drop n, (List.take_append_drop ..).symm, List.length_take_of_le h⟩

/-! ## §3 Reading what is written -/

namespace Rsn

variable (rsn : Rsn)

/-- The body up to the pairwise suites, up to the second count and up to the other suites. -/
def head : List UInt8 := [1, 0] ++ rsn.group.toList

def beforePairwise : List UInt8 := rsn.head ++ u16ToLe rsn.pairwise.length

def beforeCount : List UInt8 := rsn.beforePairwise ++ encodeSuites rsn.pairwise

def beforeAkms : List UInt8 := rsn.beforeCount ++ u16ToLe rsn.akms.length

theorem length_head : rsn.head.length = 6 := by
  rw [head, List.length_append, Vector.length_toList]
  rfl

theorem length_beforePairwise : rsn.beforePairwise.length = 8 := by
  rw [beforePairwise, List.length_append, length_head]
  rfl

theorem length_beforeCount : rsn.beforeCount.length = 8 + 4 * rsn.pairwise.length := by
  rw [beforeCount, List.length_append, length_beforePairwise, length_encodeSuites]

theorem length_beforeAkms : rsn.beforeAkms.length = 8 + 4 * rsn.pairwise.length + 2 := by
  rw [beforeAkms, List.length_append, length_beforeCount]
  rfl

theorem encode_eq_akms : rsn.encode = rsn.beforeAkms ++ (encodeSuites rsn.akms ++ rsn.rest) := by
  simp [encode, beforeAkms, beforeCount, beforePairwise, head]

theorem encode_eq_count :
    rsn.encode = rsn.beforeCount ++ (u16ToLe rsn.akms.length ++ (encodeSuites rsn.akms ++ rsn.rest)) := by
  rw [encode_eq_akms, beforeAkms, List.append_assoc]

theorem encode_eq_pairwise :
    rsn.encode = rsn.beforePairwise ++ (encodeSuites rsn.pairwise ++
      (u16ToLe rsn.akms.length ++ (encodeSuites rsn.akms ++ rsn.rest))) := by
  rw [encode_eq_count, beforeCount, List.append_assoc]

theorem encode_eq_head :
    rsn.encode = rsn.head ++ (u16ToLe rsn.pairwise.length ++ (encodeSuites rsn.pairwise ++
      (u16ToLe rsn.akms.length ++ (encodeSuites rsn.akms ++ rsn.rest)))) := by
  rw [encode_eq_pairwise, beforePairwise, List.append_assoc]

theorem length_encode :
    rsn.encode.length = 8 + 4 * rsn.pairwise.length + 2 + 4 * rsn.akms.length + rsn.rest.length := by
  rw [encode_eq_akms, List.length_append, length_beforeAkms, List.length_append, length_encodeSuites]
  omega

/-- An element with both lists is understood. -/
theorem security_encode : rsnSecurity rsn.encode = rsn.security := by
  have hlen := rsn.length_encode
  have hversion : u16FromLe rsn.encode 0 = 1 := rfl
  have hpairwise : u16FromLe rsn.encode 6 = rsn.pairwise.length := by
    rw [encode_eq_head, ← rsn.length_head]
    exact u16FromLe_append rsn.pairwiseFits _
  have hakms : u16FromLe rsn.encode (8 + 4 * rsn.pairwise.length) = rsn.akms.length := by
    rw [encode_eq_count, ← rsn.length_beforeCount]
    exact u16FromLe_append rsn.akmsFit _
  have hccmp : (rsn.encode.take (8 + 4 * rsn.pairwise.length)).drop 8 = encodeSuites rsn.pairwise := by
    rw [encode_eq_pairwise]
    exact slice_append _ _ _ rsn.length_beforePairwise (by rw [length_encodeSuites])
  have hsuites : (rsn.encode.take (8 + 4 * rsn.pairwise.length + 2 + 4 * rsn.akms.length)).drop
      (8 + 4 * rsn.pairwise.length + 2) = encodeSuites rsn.akms := by
    rw [encode_eq_akms]
    exact slice_append _ _ _ rsn.length_beforeAkms (by rw [length_encodeSuites])
  unfold rsnSecurity
  rw [if_neg (by omega)]
  simp only [hpairwise, hakms, hccmp, hsuites, suites_encodeSuites]
  rw [if_neg (by omega), if_neg (by omega)]
  rfl

end Rsn

/-- A body in which all parts have the length that is announced. -/
theorem exists_rsn {body : List UInt8} (hlen : 8 ≤ body.length) (hone : u16FromLe body 0 = 1)
    (hpairwise : 8 + 4 * u16FromLe body 6 + 2 ≤ body.length)
    (hakms : 8 + 4 * u16FromLe body 6 + 2 + 4 * u16FromLe body (8 + 4 * u16FromLe body 6) ≤ body.length) :
    ∃ rsn : Rsn, body = rsn.encode := by
  generalize hp : u16FromLe body 6 = p at hpairwise hakms
  generalize ha : u16FromLe body (8 + 4 * p) = a at hakms
  obtain ⟨version, afterVersion, rfl, hversion⟩ := exists_front body 2 (by omega)
  obtain rfl : version = [1, 0] := by
    have h := eq_u16ToLe [] hversion afterVersion
    rwa [List.nil_append, List.length_nil, hone] at h
  rw [List.length_append, hversion] at hlen hpairwise hakms
  obtain ⟨group, afterGroup, rfl, hgroup⟩ := exists_front afterVersion 4 (by omega)
  rw [List.length_append, hgroup] at hpairwise hakms
  obtain ⟨count, afterCount, rfl, hcount⟩ := exists_front afterGroup 2 (by omega)
  rw [List.length_append, hcount] at hpairwise hakms
  obtain ⟨bytes, afterBytes, rfl, hbytes⟩ := exists_front afterCount (4 * p) (by omega)
  rw [List.length_append, hbytes] at hpairwise hakms
  obtain ⟨count', afterCount', rfl, hcount'⟩ := exists_front afterBytes 2 (by omega)
  rw [List.length_append, hcount'] at hakms
  obtain ⟨bytes', rest, rfl, hbytes'⟩ := exists_front afterCount' (4 * a) (by omega)
  obtain ⟨pairwise, hpairwiseLen, rfl⟩ := exists_suites hbytes
  obtain ⟨akms, hakmsLen, rfl⟩ := exists_suites hbytes'
  have hcountEq : count = u16ToLe p := by
    have h := eq_u16ToLe ([1, 0] ++ group) hcount
      (encodeSuites pairwise ++ (count' ++ (encodeSuites akms ++ rest)))
    rwa [List.append_assoc, List.length_append, hgroup, show [(1 : UInt8), 0].length + 4 = 6 from rfl, hp] at h
  have hcountEq' : count' = u16ToLe a := by
    have h := eq_u16ToLe ([1, 0] ++ (group ++ (count ++ encodeSuites pairwise))) hcount'
      (encodeSuites akms ++ rest)
    have hfront : ([1, 0] ++ (group ++ (count ++ encodeSuites pairwise))).length = 8 + 4 * p := by
      simp [hgroup, hcount, hbytes]
      omega
    rw [hfront] at h
    simp only [List.append_assoc] at h ha
    rwa [ha] at h
  have hpLt : p < 65536 := hp ▸ Elements.u16FromLe_lt _ _
  have haLt : a < 65536 := ha ▸ Elements.u16FromLe_lt _ _
  refine ⟨⟨⟨⟨group⟩, hgroup⟩, pairwise, akms, rest, hpairwiseLen ▸ hpLt, hakmsLen ▸ haLt⟩, ?_⟩
  simp [Rsn.encode, hcountEq, hcountEq', hpairwiseLen, hakmsLen]

/-- A body with a known security has both lists. -/
theorem exists_rsn_of_security {body : List UInt8} (hfound : rsnSecurity body ≠ (0, 0)) :
    ∃ rsn : Rsn, body = rsn.encode := by
  unfold rsnSecurity at hfound
  by_cases hhead : body.length < 8 ∨ u16FromLe body 0 ≠ 1
  · exact absurd (if_pos hhead) hfound
  obtain ⟨hlen, hone⟩ := not_or.mp hhead
  rw [if_neg hhead] at hfound
  by_cases hpairwise : body.length < 8 + 4 * u16FromLe body 6 + 2
  · exact absurd (if_pos hpairwise) hfound
  simp only [if_neg hpairwise] at hfound
  by_cases hakms : body.length < 8 + 4 * u16FromLe body 6 + 2 + 4 * u16FromLe body (8 + 4 * u16FromLe body 6)
  · exact absurd (if_pos hakms) hfound
  exact exists_rsn (Nat.le_of_not_lt hlen) (not_not.mp hone) (Nat.le_of_not_lt hpairwise) (Nat.le_of_not_lt hakms)

/-! ## §4 Main result -/

/-- The elements that are understood are those with both lists. -/
theorem rsn_exact :
    (∀ rsn : Rsn, rsnSecurity rsn.encode = rsn.security) ∧
      ∀ body, (∀ rsn : Rsn, body ≠ rsn.encode) → rsnSecurity body = (0, 0) := by
  refine ⟨Rsn.security_encode, fun body h => ?_⟩
  by_contra hfound
  obtain ⟨rsn, hrsn⟩ := exists_rsn_of_security hfound
  exact h rsn hrsn

end HisiRiscv.Wifi.PersonalSecurity
