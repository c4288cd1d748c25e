/-
HisiRiscv.Wifi.ElementsTheorems — what the walks find, and what a split of the elements changes.

Each walk returns what it should find among the complete elements, on every byte string
(`walks`). `scan_event` walks the elements of the probe response and of the beacon as one string, so
that an element cut off at the end of the first takes bytes of the second;
`split_security_iff` says when this does no harm.

  §1 The body of an RSN element.
  §2 The walks.
  §3 Two parts.
-/
import HisiRiscv.Wifi.Elements

namespace HisiRiscv.Wifi.Elements

open HisiRiscv.Tlv

/-! ## §1 The body of an RSN element -/

section Body

variable {body : List UInt8}

theorem slice_eq_some {start stop : ℕ} (h : start ≤ stop) (hle : stop ≤ body.length) :
    slice body start stop = some ((body.take stop).drop start) :=
  if_pos ⟨h, hle⟩

theorem u16At_eq_some {index : ℕ} (h : index + 1 < body.length) :
    u16At body index = some (u16FromLe body index) := by
  unfold u16At u16FromLe
  rw [List.getElem?_eq_getElem h, List.getElem?_eq_getElem (Nat.lt_of_succ_lt h),
    getElem!_pos body (index + 1) h, getElem!_pos body index (Nat.lt_of_succ_lt h)]
  rfl

theorem u16FromLe_lt (body : List UInt8) (index : ℕ) : u16FromLe body index < 65536 := by
  unfold u16FromLe
  have := body[index]!.toNat_lt
  have := body[index + 1]!.toNat_lt
  omega

/-- A count of 16 bits does not get near to saturation. -/
theorem saturating_eq (start : ℕ) {count : ℕ} (hstart : start ≤ 300000) (hcount : count < 65536) :
    saturatingAdd start (saturatingMul count 4) = start + 4 * count := by
  unfold saturatingAdd saturatingMul
  omega

/-- Every index and range lies in the body. -/
theorem rsnBody_eq (body : List UInt8) : rsnBody body = some (rsnSecurity body) := by
  have hpairwise := saturating_eq 8 (by omega) (u16FromLe_lt body 6)
  unfold rsnBody rsnSecurity
  by_cases hlen : body.length < 8
  · rw [if_pos hlen, if_pos (.inl hlen)]
  have hversion : u16At body 0 = some (u16FromLe body 0) := u16At_eq_some (by omega)
  have hcount : u16At body 6 = some (u16FromLe body 6) := u16At_eq_some (by omega)
  by_cases hone : u16FromLe body 0 ≠ 1
  · simp [hlen, hversion, hone]
  simp only [hlen, hversion, hcount, hone, hpairwise, or_false, if_false, Option.bind_eq_bind,
    Option.bind_some, gt_iff_lt]
  by_cases hend : body.length < 8 + 4 * u16FromLe body 6 + 2
  · rw [if_pos hend, if_pos hend]
  have hsuites : slice body 8 (8 + 4 * u16FromLe body 6) = some _ :=
    slice_eq_some (Nat.le_add_right ..) (by omega)
  have hakm : u16At body (8 + 4 * u16FromLe body 6) = some (u16FromLe body (8 + 4 * u16FromLe body 6)) :=
    u16At_eq_some (by omega)
  have hakmEnd := saturating_eq (8 + 4 * u16FromLe body 6 + 2)
    (by have := u16FromLe_lt body 6; omega) (u16FromLe_lt body (8 + 4 * u16FromLe body 6))
  simp only [if_neg hend, hsuites, hakm, hakmEnd, Option.bind_some]
  split
  · rfl
  · rename_i hakms
    rw [slice_eq_some (by omega) (by omega)]
    rfl

end Body

/-! ## §2 The walks -/

section Walk

variable {α : Type} {ies : List UInt8} {wanted : UInt8} {absent : α} {found : ℕ → ℕ → Option α}
  {value : List UInt8 → α}

@[simp] theorem firstBody_nil (id : UInt8) (absent : α) (value : List UInt8 → α) :
    firstBody id absent value [] = absent := rfl

theorem firstBody_cons (id : UInt8) (absent : α) (value : List UInt8 → α) (e : Element)
    (es : List Element) :
    firstBody id absent value (e :: es) =
      if e.id = id then value e.body else firstBody id absent value es := by
  unfold firstBody
  by_cases h : e.id = id
  · rw [if_pos h, List.find?_cons_of_pos (by simpa using h)]
  · rw [if_neg h, List.find?_cons_of_neg (by simpa using h)]

/-- What is looked for is in the first list, or it is what the second has. -/
theorem firstBody_append (id : UInt8) (absent : α) (value : List UInt8 → α) (es fs : List Element) :
    firstBody id absent value (es ++ fs) = firstBody id (firstBody id absent value fs) value es := by
  induction es with
  | nil => rfl
  | cons e es ih => rw [List.cons_append, firstBody_cons, firstBody_cons, ih]

/-- The walk finds the first wanted element behind the offset. -/
theorem walk_eq
    (hfound : ∀ start stop, start ≤ stop → stop ≤ ies.length →
      found start stop = some (value ((ies.take stop).drop start)))
    {fuel offset : ℕ} (hoffset : offset ≤ ies.length) (hfuel : ies.length < fuel + offset) :
    walk ies wanted absent found fuel offset =
      some (firstBody wanted absent value (complete (ies.drop offset))) := by
  induction fuel generalizing offset with
  | zero => omega
  | succ fuel ih =>
    unfold walk
    by_cases htwo : offset + 2 ≤ ies.length
    · obtain ⟨id, len, hid, hlen, hcut, hnext⟩ := next_drop htwo
      rw [if_pos htwo, hid, hlen]
      simp only [Option.bind_eq_bind, Option.bind_some]
      by_cases hstop : ies.length < offset + 2 + len.toNat
      · rw [if_pos hstop, complete_none (hcut hstop), firstBody_nil]
      · obtain ⟨e, he, rfl, hbody⟩ := hnext (by omega)
        rw [if_neg hstop, complete_some he, firstBody_cons, ih (by omega) (by omega)]
        split
        · rw [hfound _ _ (by omega) (by omega), hbody, List.drop_take]
          congr 3
          omega
        · rfl
    · rw [if_neg htwo, complete_none (next_of_length_lt (by omega)), firstBody_nil]

theorem ssidFromIes_eq (ies : List UInt8) : ssidFromIes ies = some (ssidOf (complete ies)) := by
  refine walk_eq (fun start stop hle hstop => ?_) (Nat.zero_le _) (Nat.lt_succ_self _)
  rw [slice_eq_some (Nat.le_min.mpr ⟨hle, Nat.le_add_right ..⟩) (Nat.le_trans (Nat.min_le_left ..) hstop),
    List.drop_take, List.drop_take, List.take_take]
  congr 2
  omega

theorem personalSecurityFromIes_eq (ies : List UInt8) :
    personalSecurityFromIes ies = some (securityOf (complete ies)) := by
  refine walk_eq (fun start stop hle hstop => ?_) (Nat.zero_le _) (Nat.lt_succ_self _)
  rw [slice_eq_some hle hstop, Option.bind_eq_bind, Option.bind_some, rsnBody_eq]

end Walk

section Comeback

variable {ies : List UInt8}

/-- An element that is not a timeout interval of five bytes is passed over unread. -/
theorem comeback_other (ies : List UInt8) (e : Element) {len : UInt8} (hlen : len.toNat = e.body.length)
    (h : ¬ (e.id = wlanEidTimeoutInterval ∧ len = 5)) :
    comebackKind ies e.id len = some false ∧ comebackOf e = none := by
  refine ⟨if_neg h, ?_⟩
  unfold comebackOf
  split
  · rename_i hbody
    rw [hbody] at hlen
    exact if_neg fun hboth => h ⟨hboth.1, UInt8.toNat_inj.mp hlen⟩
  · rfl

theorem comebackLoop_eq {fuel : ℕ} (hfuel : ies.length < fuel) :
    comebackLoop fuel ies = some ((complete ies).findSome? comebackOf) := by
  induction fuel generalizing ies with
  | zero => omega
  | succ fuel ih =>
    unfold comebackLoop
    match ies with
    | [] => rw [complete_none rfl]; rfl
    | [_] => rw [complete_none rfl]; rfl
    | id :: len :: rest =>
      have htwo : 2 ≤ (id :: len :: rest).length := Nat.le_add_left ..
      rw [if_pos htwo]
      simp only [List.length_cons] at hfuel
      simp only [List.getElem?_cons_succ, List.getElem?_cons_zero, Option.bind_eq_bind,
        Option.bind_some, List.length_cons]
      by_cases hcut : rest.length < len.toNat
      · rw [if_pos (by omega), complete_none (next_cons_of_lt id hcut)]
        rfl
      have hnext := next_cons_of_le id (Nat.le_of_not_lt hcut)
      have hrest : slice (id :: len :: rest) (len.toNat + 2) (rest.length + 1 + 1) =
          some (rest.drop len.toNat) := by
        rw [slice_eq_some (by omega) (by simp)]
        simp
      rw [if_neg (by omega), complete_some hnext, List.findSome?_cons, hrest, Option.bind_some,
        ih (by rw [List.length_drop]; omega)]
      by_cases hkind : id = wlanEidTimeoutInterval ∧ len = 5
      · obtain ⟨rfl, rfl⟩ := hkind
        match rest with
        | kind :: a :: b :: c :: d :: tail =>
          have hread : comebackKind (wlanEidTimeoutInterval :: 5 :: kind :: a :: b :: c :: d :: tail)
              wlanEidTimeoutInterval 5 = some (decide (kind = wlanTimeoutAssocComeback)) := rfl
          rw [hread, Option.bind_some]
          by_cases hcomeback : kind = wlanTimeoutAssocComeback
          · simp [comebackOf, hcomeback]
          · simp [comebackOf, hcomeback]
      · have hother := comeback_other (id :: len :: rest)
          ⟨id, rest.take len.toNat, length_take_lt len rest⟩ (by simp; omega) hkind
        rw [hother.1, hother.2]
        rfl

end Comeback

theorem walks (ies : List UInt8) : Walks ies where
  ssid := ssidFromIes_eq ies
  security := personalSecurityFromIes_eq ies
  comeback := comebackLoop_eq (Nat.lt_succ_self _)

/-! ## §3 Two parts -/

/-- The walk on lists that the other modules use finds the same element. -/
theorem firstElement_eq {α : Type} (id : UInt8) (absent : α) (value : List UInt8 → α) {fuel : ℕ}
    {ies : List UInt8} (hfuel : ies.length ≤ fuel) :
    (match firstElement id fuel ies with | some body => value body | none => absent) =
      firstBody id absent value (complete ies) := by
  induction fuel generalizing ies with
  | zero =>
    obtain rfl : ies = [] := List.length_eq_zero_iff.mp (Nat.le_zero.mp hfuel)
    rw [complete_none rfl]
    rfl
  | succ fuel ih =>
    match ies with
    | [] => rw [complete_none rfl]; rfl
    | [_] => rw [complete_none rfl]; rfl
    | tag :: len :: rest =>
      simp only [List.length_cons] at hfuel
      unfold firstElement
      by_cases hcut : rest.length < len.toNat
      · rw [if_pos hcut, complete_none (next_cons_of_lt tag hcut)]
        rfl
      rw [if_neg hcut, complete_some (next_cons_of_le tag (Nat.le_of_not_lt hcut)), firstBody_cons,
        ← ih (by rw [List.length_drop]; omega)]
      by_cases hid : tag = id
      · simp [hid]
      · simp [hid]

theorem personalSecurityFromIes_list (ies : List UInt8) :
    Wifi.personalSecurityFromIes ies = securityOf (complete ies) :=
  firstElement_eq 48 (0, 0) rsnSecurity (Nat.le_refl _)

section Split

variable {probe beacon : List UInt8}

/-- What is stored for a result with elements in two parts. -/
theorem stored_eq {vendor : VendorScanResult} (helements : vendor.elements = some (probe ++ beacon))
    (hfit : probe.length + beacon.length ≤ maxIeLength) :
    ((ScanResult.ofVendor vendor).authMode, (ScanResult.ofVendor vendor).pairwise) =
      securityOf (complete (probe ++ beacon)) := by
  have htotal := vendor.readable _ helements
  rw [List.length_append] at htotal
  have hbounded : vendor.bounded = some (probe ++ beacon) := by
    have hsmall : vendor.ieLen.toNat + vendor.beaconIeLen.toNat < 2 ^ 32 := by
      unfold maxIeLength at hfit
      omega
    simp only [VendorScanResult.bounded, VendorScanResult.totalLen, if_pos hsmall, helements]
    rw [if_pos (by omega)]
  rw [ScanResult.security_ofVendor hbounded, personalSecurityFromIes_list]

theorem firstBody_of_hasRsn (h : HasRsn probe) (absent : Int32 × Int32) :
    firstBody 48 absent rsnSecurity (complete probe) = securityOf (complete probe) := by
  obtain ⟨e, he, hid⟩ := h
  unfold securityOf firstBody
  cases hfind : (complete probe).find? (·.id = 48) with
  | some e => rfl
  | none => exact absurd hid (by simpa using List.find?_eq_none.mp hfind e he)

theorem firstBody_of_not_hasRsn (h : ¬ HasRsn probe) (absent : Int32 × Int32) :
    firstBody 48 absent rsnSecurity (complete probe) = absent := by
  unfold firstBody
  rw [List.find?_eq_none.mpr fun e he => by simpa using fun hid => h ⟨e, he, hid⟩]

/-- What is left of the probe response and the beacon, walked as one. -/
theorem harmless_iff (tail beacon : List UInt8) :
    Harmless tail beacon ↔ securityOf (complete (tail ++ beacon)) = securityOf (complete beacon) := by
  unfold Harmless
  cases h : next (tail ++ beacon) with
  | none =>
    rw [complete_none h]
    exact eq_comm
  | some found =>
    obtain ⟨e, rest⟩ := found
    have hcons : securityOf (e :: complete rest) =
        if e.id = 48 then rsnSecurity e.body else securityOf (complete rest) := firstBody_cons ..
    rw [complete_some h, hcons]

/-- **What a split changes.** A walk over both parts as one finds what the two have, each for
itself, if and only if the first has an RSN element, or nothing of it is cut off, or the cut does no
harm. Where the first ends, which is what `ie_len` says, has no part in what is stored. -/
theorem split_security_iff {vendor : VendorScanResult}
    (helements : vendor.elements = some (probe ++ beacon))
    (hfit : probe.length + beacon.length ≤ maxIeLength) :
    (((ScanResult.ofVendor vendor).authMode, (ScanResult.ofVendor vendor).pairwise) =
        splitSecurity probe beacon ↔
      HasRsn probe ∨ cut probe = [] ∨ Harmless (cut probe) beacon) ∧
      (∀ ies, Walks ies) ∧ ∀ es : List Element, complete (es.flatMap Element.encode) = es := by
  refine ⟨?_, walks, ?_⟩
  · rw [stored_eq helements hfit, complete_append, harmless_iff, splitSecurity]
    change firstBody .. = _ ↔ _
    rw [firstBody_append]
    by_cases hrsn : HasRsn probe
    · rw [firstBody_of_hasRsn hrsn, firstBody_of_hasRsn hrsn]
      exact iff_of_true rfl (.inl hrsn)
    · rw [firstBody_of_not_hasRsn hrsn, firstBody_of_not_hasRsn hrsn]
      constructor
      · intro heq
        exact .inr (.inr heq)
      · rintro (h | h | h)
        · exact absurd h hrsn
        · rw [h, List.nil_append]
          rfl
        · exact h
  · intro es
    have hparse := parse_encode es next_nil
    rw [List.append_nil] at hparse
    rw [complete, hparse]

/-- A probe response with an SSID element. -/
def probeElements : List Element := [⟨0, [0x61, 0x62], by decide⟩]

/-- A beacon with an RSN element for WPA2-Personal with CCMP. -/
def rsnBeacon : List UInt8 :=
  [48, 20, 1, 0, 0x00, 0x0f, 0xac, 4, 1, 0, 0x00, 0x0f, 0xac, 4, 1, 0, 0x00, 0x0f, 0xac, 2, 0, 0]

/-- A protected network with these elements. -/
def splitAp (probe : List UInt8) (h : probe.length = 4) : VendorScanResult where
  flags := 0
  bssid := #v[2, 0, 0, 0, 0, 4]
  capabilities := 0x0010
  frequency := 2412
  beaconInterval := 100
  quality := 0
  beaconIeLen := 22
  level := -4000
  age := 0
  ieLen := 4
  elements := some (probe ++ rsnBeacon)
  readable := by
    rintro _ ⟨⟩
    rw [List.length_append, h]
    rfl

theorem split_security_iff_whole :
    splitSecurity (probeElements.flatMap Element.encode) rsnBeacon =
      ((ScanResult.ofVendor (splitAp [0, 2, 0x61, 0x62] rfl)).authMode,
        (ScanResult.ofVendor (splitAp [0, 2, 0x61, 0x62] rfl)).pairwise) := by
  have hcut : cut (probeElements.flatMap Element.encode) = [] := by
    have hparse := parse_encode probeElements next_nil
    rw [List.append_nil] at hparse
    rw [cut, hparse]
  have helements : (splitAp [0, 2, 0x61, 0x62] rfl).elements =
      some (probeElements.flatMap Element.encode ++ rsnBeacon) := rfl
  exact ((split_security_iff helements (by decide)).1.mpr (.inr (.inl hcut))).symm

/-- The SSID element says four bytes and has two: the RSN element behind it is lost. -/
theorem not_split_security :
    ¬ ∀ (vendor : VendorScanResult) (probe beacon : List UInt8),
      vendor.elements = some (probe ++ beacon) → vendor.ieLen.toNat = probe.length →
        vendor.beaconIeLen.toNat = beacon.length → probe.length + beacon.length ≤ maxIeLength →
          ((ScanResult.ofVendor vendor).authMode, (ScanResult.ofVendor vendor).pairwise) =
            splitSecurity probe beacon := by
  intro h
  have heq := h (splitAp [0, 4, 0x61, 0x62] rfl) [0, 4, 0x61, 0x62] rsnBeacon rfl rfl rfl (by decide)
  have helements : (splitAp [0, 4, 0x61, 0x62] rfl).elements = some ([0, 4, 0x61, 0x62] ++ rsnBeacon) :=
    rfl
  have hcut : next [0, 4, 0x61, 0x62] = none := by decide
  rw [stored_eq helements (by decide), splitSecurity, complete_none hcut, firstBody_nil,
    ← personalSecurityFromIes_list, ← personalSecurityFromIes_list] at heq
  exact absurd heq (by decide)

/-- A beacon of 18 bytes with an RSN element; only the last byte depends on the key management. -/
def lateBeacon (kind : UInt8) : List UInt8 :=
  [0, 0, 48, 14, 1, 0, 0x00, 0x0f, 0xac, 4, 0, 0, 1, 0, 0x00, 0x0f, 0xac, kind]

/-- An element that is cut off always does harm to some beacon. -/
theorem exists_not_harmless {tail : List UInt8} (hcut : next tail = none) (hne : tail ≠ []) :
    ∃ beacon : List UInt8, beacon.length ≤ 18 ∧ ¬ Harmless tail beacon := by
  let early := (lateBeacon 2).drop 2
  have hearly : securityOf (complete early) = (2, 0) := by
    rw [← personalSecurityFromIes_list]
    decide
  -- a tail that the beacon does not complete hides it
  have hhidden (h : next (tail ++ early) = none) : ¬ Harmless tail early := by
    rw [harmless_iff, complete_none h, hearly]
    decide
  match tail with
  | [tag] => exact ⟨early, by decide, hhidden (next_cons_of_lt tag (by decide))⟩
  | tag :: len :: part =>
    have hpart : part.length < len.toNat := by
      refine Nat.lt_of_not_le fun hle => ?_
      rw [next_cons_of_le tag hle] at hcut
      cases hcut
    by_cases hlong : 16 < len.toNat - part.length
    · refine ⟨early, by decide, hhidden (next_cons_of_lt tag ?_)⟩
      have hlen : early.length = 16 := rfl
      rw [List.append_eq, List.length_append, hlen]
      omega
    by_cases hrsn : tag = 48
    · -- the completed RSN element is the same for two beacons of different classes
      by_contra hall
      have hboth (kind : UInt8) : rsnSecurity (part ++ (lateBeacon 2).take (len.toNat - part.length)) =
          Wifi.personalSecurityFromIes (lateBeacon kind) := by
        have hharmless : Harmless (tag :: len :: part) (lateBeacon kind) := by
          by_contra hnot
          exact hall ⟨lateBeacon kind, Nat.le_refl 18, hnot⟩
        obtain ⟨e, hnext, hid, hbody⟩ := next_completed tag (lateBeacon kind)
          (Nat.le_of_lt hpart) (by rw [show (lateBeacon kind).length = 18 from rfl]; omega)
        have hsame : (lateBeacon kind).take (len.toNat - part.length) =
            (lateBeacon 2).take (len.toNat - part.length) := by
          have hfront : lateBeacon kind = (lateBeacon 2).take 17 ++ [kind] := rfl
          have hlen : ((lateBeacon 2).take 17).length = 17 := rfl
          rw [hfront, List.take_append_of_le_length (by omega), List.take_take,
            Nat.min_eq_left (by omega)]
        unfold Harmless at hharmless
        rw [hnext] at hharmless
        dsimp only at hharmless
        rw [if_pos (hid.trans hrsn), hbody, hsame, ← personalSecurityFromIes_list] at hharmless
        exact hharmless
      exact absurd ((hboth 2).symm.trans (hboth 8)) (by decide)
    · refine ⟨early, by decide, ?_⟩
      obtain ⟨e, hnext, hid, -⟩ := next_completed tag early (Nat.le_of_lt hpart)
        (by rw [show early.length = 16 from rfl]; omega)
      have hlost : ∀ m : Fin 16, Wifi.personalSecurityFromIes (early.drop (m.val + 1)) = (0, 0) := by
        decide
      have hrest := hlost ⟨len.toNat - part.length - 1, by omega⟩
      dsimp only at hrest
      rw [Nat.sub_add_cancel (by omega), personalSecurityFromIes_list] at hrest
      unfold Harmless
      rw [hnext]
      dsimp only
      rw [if_neg (by rw [hid]; exact hrsn), hrest, hearly]
      decide

end Split

end HisiRiscv.Wifi.Elements
