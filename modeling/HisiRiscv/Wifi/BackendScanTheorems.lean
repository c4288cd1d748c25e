/-
HisiRiscv.Wifi.BackendScanTheorems — what a scan of the backend hands to its caller.

A scan in which the vendor reports a list of access points returns them in order
(`scanActions_returned`), and the copy writes those with a representable SSID while there
is room (`copyLoop_eq`). `truncated` counts the others as missing too, and the events
carry a frequency only, so both facts about the outcome hold under a condition.

  §1 A scan collects what is reported.
  §2 The copy.
  §3 Truncation.
  §4 Channel and frequency.
-/
import HisiRiscv.Wifi.BackendScan

namespace HisiRiscv.Wifi.BackendScan

open HisiRiscv.Machine
open HisiRiscv.Supplicant (maxScanResults)
open ScanTransaction

/-! ## §1 A scan collects what is reported -/

/-- The waiter is polling and these results have got their slots. -/
structure Collecting (scan outputLen : ℕ) (got : List ScanResult) (s : State) : Prop where
  caller : ∃ startedAt, s.caller = .polling startedAt
  active : s.active = true
  scan_eq : s.scan = scan
  outputLen_eq : s.outputLen = outputLen
  status : s.status = .success
  writers : s.writers = []
  count : s.count = got.length
  slots : ∀ i : Fin maxScanResults, i.val < got.length → got[i.val]? = some (s.results i)

section Collect

variable {s : State} {scanNo outputLen : ℕ} {got : List ScanResult}

theorem collecting_start (h : Quiet s) (outputLen : ℕ) (timeoutMs : UInt32) (now : UInt64) :
    ∃ t, Steps step Always s [.scan outputLen timeoutMs, .ioctlReturns 0, .clock now] t ∧
      Collecting (s.scan + 1) outputLen [] t := by
  refine ⟨{ s.startScan outputLen timeoutMs with caller := .polling now }, ?_, ?_⟩
  · apply Steps.of_run
    simp [run, step, h.caller, State.startScan, h.active, State.clock]
  · constructor
    · exact ⟨now, rfl⟩
    all_goals simp [State.startScan, h.active, h.writers]

theorem collecting_report (h : Collecting scanNo outputLen got s) (hroom : got.length < maxScanResults)
    (vendor : VendorScanResult) :
    ∃ t, Steps step Always s [.scanResult scanNo vendor, .write 0] t ∧
      Collecting scanNo outputLen (got ++ [.ofVendor vendor]) t := by
  have hslot : s.active = true ∧ s.count < maxScanResults := ⟨h.active, by rw [h.count]; exact hroom⟩
  refine ⟨{ s with
    count := s.count + 1
    delivered := s.delivered ++ [.ofVendor vendor]
    reserved := s.reserved + 1
    results := Function.update s.results ⟨s.count, hslot.2⟩ (.ofVendor vendor) }, ?_, ?_⟩
  · apply Steps.of_run
    have hreserve : (s.deliver scanNo (.ofVendor vendor)).reserve scanNo (.ofVendor vendor) =
        { s with
          count := s.count + 1
          delivered := s.delivered ++ [.ofVendor vendor]
          reserved := s.reserved + 1
          writers := [⟨scanNo, ⟨s.count, hslot.2⟩, .ofVendor vendor⟩] } := by
      rw [State.deliver, if_pos h.scan_eq.symm, State.reserve, dif_pos hslot, if_pos h.scan_eq.symm]
      simp [h.writers]
    simp [run, step, h.scan_eq, hreserve, State.write, h.writers]
  · refine ⟨h.caller, h.active, h.scan_eq, h.outputLen_eq, h.status, h.writers, ?_, ?_⟩
    · simp [h.count]
    · intro i hi
      rw [List.length_append, List.length_singleton] at hi
      dsimp only
      by_cases hlast : i.val = got.length
      · have hi' : i = ⟨s.count, hslot.2⟩ := Fin.ext (hlast.trans h.count.symm)
        rw [hi', Function.update_self]
        simp [h.count]
      · have hne : i ≠ ⟨s.count, hslot.2⟩ := by
          intro heq
          rw [heq] at hlast
          exact hlast h.count
        rw [Function.update_of_ne hne, List.getElem?_append_left (by omega)]
        exact h.slots i (by omega)

theorem collecting_reports (reports : List VendorScanResult) (h : Collecting scanNo outputLen got s)
    (hroom : got.length + reports.length ≤ maxScanResults) :
    ∃ t, Steps step Always s
        (reports.flatMap fun vendor => [.scanResult scanNo vendor, .write 0]) t ∧
      Collecting scanNo outputLen (got ++ reports.map .ofVendor) t := by
  induction reports generalizing s got with
  | nil => exact ⟨s, .nil, by simpa using h⟩
  | cons vendor reports ih =>
    rw [List.length_cons] at hroom
    obtain ⟨t, hst, ht⟩ := collecting_report h (by omega) vendor
    obtain ⟨u, htu, hu⟩ := ih ht (by simp; omega)
    refine ⟨u, hst.append htu, ?_⟩
    rw [List.append_assoc] at hu
    exact hu

/-- Once all slots are taken, a report only enters the history. -/
theorem collecting_surplus (reports : List VendorScanResult) (h : Collecting scanNo outputLen got s)
    (hfull : reports ≠ [] → got.length = maxScanResults) :
    ∃ t, Steps step Always s (reports.map (.scanResult scanNo)) t ∧
      Collecting scanNo outputLen got t := by
  induction reports generalizing s with
  | nil => exact ⟨s, .nil, h⟩
  | cons vendor reports ih =>
    have hlen := hfull (List.cons_ne_nil _ _)
    have hstep : step s (.scanResult scanNo vendor) =
        some { s with delivered := s.delivered ++ [.ofVendor vendor] } := by
      have hnone : ¬ (s.active = true ∧ s.count < maxScanResults) := by
        rw [h.count, hlen]
        exact fun hboth => Nat.lt_irrefl _ hboth.2
      simp only [step, h.scan_eq, le_refl, if_true, State.deliver, State.reserve]
      rw [dif_neg hnone]
    obtain ⟨t, hst, ht⟩ := ih (s := { s with delivered := s.delivered ++ [.ofVendor vendor] })
      ⟨h.caller, h.active, h.scan_eq, h.outputLen_eq, h.status, h.writers, h.count, h.slots⟩
      fun _ => hlen
    exact ⟨t, Steps.cons trivial hstep hst, ht⟩

/-- The waiter copies the rest of the slots and returns. -/
theorem copy_rest (got : List ScanResult) {n k : ℕ} (hcaller : s.caller = .copying (k + n) (got.take k))
    (hlen : k + n ≤ got.length) (hmax : got.length ≤ maxScanResults)
    (hslots : ∀ i : Fin maxScanResults, i.val < got.length → got[i.val]? = some (s.results i)) :
    ∃ t, Steps step Always s (List.replicate (n + 1) .advance) t ∧
      t.returned = some (.ok (got.take (k + n))) := by
  induction n generalizing s k with
  | zero =>
    refine ⟨{ s with caller := .idle, returned := some (.ok (got.take k)) }, ?_, rfl⟩
    have hdone : ¬ (got.take k).length < k := by
      rw [List.length_take]
      omega
    apply Steps.of_run
    simp only [Nat.add_zero] at hcaller
    simp only [List.replicate, run, step, State.advance, hcaller, State.copy, if_neg hdone]
    rfl
  | succ n ih =>
    have hk : (got.take k).length = k := by
      rw [List.length_take]
      omega
    have hnext : got.take k ++ [s.results ⟨k, by omega⟩] = got.take (k + 1) := by
      rw [List.take_add_one, hslots ⟨k, by omega⟩ (by dsimp only; omega)]
      rfl
    have hstep : step s .advance =
        some { s with caller := .copying (k + (n + 1)) (got.take (k + 1)) } := by
      simp only [step, State.advance, hcaller, State.copy, hk]
      rw [if_pos (by omega), dif_pos (by omega), hnext]
    obtain ⟨t, hsteps, hret⟩ := ih (k := k + 1)
      (s := { s with caller := .copying (k + (n + 1)) (got.take (k + 1)) })
      (by rw [Nat.add_assoc, Nat.add_comm 1 n]) (by omega) hslots
    refine ⟨t, Steps.cons trivial hstep hsteps, ?_⟩
    rw [hret, Nat.add_assoc, Nat.add_comm 1 n]

theorem collecting_finish (h : Collecting scanNo outputLen got s) (hmax : got.length ≤ maxScanResults) :
    ∃ t, Steps step Always s
        (.scanDone scanNo 0 :: List.replicate (min got.length outputLen + 3) .advance) t ∧
      t.returned = some (.ok (got.take outputLen)) := by
  obtain ⟨startedAt, hcaller⟩ := h.caller
  let copyLen := min got.length outputLen
  let u : State :=
    { s with done := true, doneBy := some scanNo, active := false, caller := .copying copyLen [] }
  have hclose : Steps step Always s [.scanDone scanNo 0, .advance, .advance] u := by
    apply Steps.of_run
    have hraw : ScanStatus.fromRaw 0 = .success := by decide
    simp [run, step, h.scan_eq, State.scanDone, h.active, State.advance, hcaller, State.afterDone,
      hraw, h.count, h.outputLen_eq, u, copyLen, h.status]
  obtain ⟨t, hsteps, hret⟩ := copy_rest got (s := u) (n := copyLen) (k := 0)
    (by simp [u]) (by simp [copyLen]) hmax h.slots
  refine ⟨t, ?_, ?_⟩
  · have hall := hclose.append hsteps
    have hshape : [Action.scanDone scanNo 0, .advance, .advance] ++
        List.replicate (copyLen + 1) .advance =
          .scanDone scanNo 0 :: List.replicate (copyLen + 3) .advance := by
      simp [List.replicate_succ]
    rwa [hshape] at hall
  · rw [hret, Nat.zero_add]
    congr 2
    simp [copyLen, List.take_eq_take_iff, Nat.min_comm]

end Collect

/-- A scan returns what the vendor reports, in order, as far as there are slots and room. -/
theorem scanActions_returned {s : State} (h : Quiet s) (outputLen : ℕ) (timeoutMs : UInt32)
    (now : UInt64) (reports : List VendorScanResult) :
    ∃ t, Steps step Always s (scanActions (s.scan + 1) outputLen timeoutMs now reports) t ∧
      t.returned = some (.ok (wifiScan reports outputLen)) := by
  let kept := reports.take maxScanResults
  have hkept : kept.length = min maxScanResults reports.length := List.length_take
  obtain ⟨t, hst, ht⟩ := collecting_start h outputLen timeoutMs now
  obtain ⟨u, htu, hu⟩ := collecting_reports kept ht (by simp; omega)
  obtain ⟨v, huv, hv⟩ := collecting_surplus (reports.drop maxScanResults) hu (by
    intro hne
    have hmore := List.length_pos_iff.mpr hne
    rw [List.length_drop] at hmore
    rw [List.nil_append, List.length_map]
    omega)
  rw [List.nil_append] at hv
  obtain ⟨w, hvw, hret⟩ := collecting_finish hv (by rw [List.length_map]; omega)
  refine ⟨w, ?_, hret⟩
  have hall := (hst.append (htu.append huv)).append hvw
  rw [List.length_map, hkept, Nat.min_comm maxScanResults] at hall
  exact hall

theorem scanned (reports : List VendorScanResult) (outputLen : ℕ) :
    Scanned reports outputLen (wifiScan reports outputLen) where
  returns := fun _ h timeoutMs now => scanActions_returned h outputLen timeoutMs now reports
  returned := by
    intro as s output hrun hlen hdelivered hreserved hret
    have hbelongs := (inv_run hrun).returned output hret
    rw [hbelongs.results_eq, hbelongs.length_eq, hdelivered, hreserved, hlen, wifiScan,
      List.map_take, List.take_take, List.take_eq_take_iff, List.length_map]
    omega

/-! ## §2 The copy -/

section Copy

variable {S : Type} (trySsid : List UInt8 → Option S) (wpa3 : Bool)

theorem isSome_convert (scan : ScanResult) :
    (convert trySsid wpa3 scan).isSome = (trySsid scan.ssidBytes).isSome := by
  simp [convert]

theorem copyLoop_eq (room : ℕ) (scans : List ScanResult) :
    copyLoop trySsid wpa3 room scans = (scans.filterMap (convert trySsid wpa3)).take room := by
  induction scans generalizing room with
  | nil => simp [copyLoop]
  | cons scan scans ih =>
    cases h : convert trySsid wpa3 scan with
    | none => simp [copyLoop, h, ih]
    | some result =>
      cases room with
      | zero => simp [copyLoop, h]
      | succ room => simp [copyLoop, h, ih]

/-- The backend converts field by field, and keeps both names of the channel. -/
theorem convert_some {scan : ScanResult} {result : RfScanResult S}
    (h : convert trySsid wpa3 scan = some result) :
    trySsid scan.ssidBytes = some result.ssid ∧ result.channel = scan.channel ∧
      result.frequencyMhz = scan.frequencyMhz := by
  obtain ⟨ssid, hssid, rfl⟩ := Option.map_eq_some_iff.mp h
  exact ⟨hssid, rfl, rfl⟩

theorem mem_written {scans : List ScanResult} {outputLen : ℕ} {result : RfScanResult S}
    (h : result ∈ (scan trySsid wpa3 scans outputLen).2) :
    ∃ scan ∈ scans, convert trySsid wpa3 scan = some result := by
  unfold scan at h
  rw [copyLoop_eq] at h
  exact List.mem_filterMap.mp (List.mem_of_mem_take h)

/-! ## §3 Truncation -/

/-- `truncated` means what it says when no SSID is refused, or when some result has found
no room anyway. -/
theorem faithful_iff (scans : List ScanResult) (outputLen : ℕ) :
    Faithful trySsid wpa3 scans outputLen (scan trySsid wpa3 scans outputLen) ↔
      (∀ scan ∈ scans, (trySsid scan.ssidBytes).isSome) ∨
        outputLen < (scans.filterMap (convert trySsid wpa3)).length := by
  let accepted := scans.filterMap (convert trySsid wpa3)
  have hle : accepted.length ≤ scans.length := List.length_filterMap_le ..
  have hall : accepted.length = scans.length ↔ ∀ scan ∈ scans, (trySsid scan.ssidBytes).isSome := by
    simp only [accepted, List.filterMap_length_eq_length, isSome_convert]
  have hflag : (scan trySsid wpa3 scans outputLen).1.truncated = true ↔
      min outputLen accepted.length < scans.length := by
    simp [scan, copyLoop_eq, accepted]
  rw [← hall]
  constructor
  · intro h
    have htrue := h.truncated.symm.trans hflag
    change outputLen < accepted.length ↔ _ at htrue
    change _ ∨ outputLen < accepted.length
    omega
  · intro h
    refine ⟨copyLoop_eq .., rfl, hflag.trans ?_⟩
    change _ ↔ outputLen < accepted.length
    change _ ∨ outputLen < accepted.length at h
    omega

end Copy

theorem wifiScan_eq_map {reports : List VendorScanResult} (h : reports.length ≤ maxScanResults) :
    wifiScan reports maxScanResults = reports.map .ofVendor := by
  rw [wifiScan, List.take_of_length_le h, List.take_of_length_le (by rwa [List.length_map])]

/-- **What the backend makes of a scan.** Up to 32 reports all reach it, and it then writes
and counts the right results; `truncated` is right if and only if every reported SSID can be
represented or the output overflows. -/
theorem scan_faithful_iff {S : Type} (trySsid : List UInt8 → Option S) (wpa3 : Bool)
    {reports : List VendorScanResult} (hmax : reports.length ≤ maxScanResults) (outputLen : ℕ) :
    Scanned reports maxScanResults (reports.map .ofVendor) ∧
      (Faithful trySsid wpa3 (reports.map .ofVendor) outputLen
          (scan trySsid wpa3 (reports.map .ofVendor) outputLen) ↔
        (∀ vendor ∈ reports, (trySsid (ScanResult.ofVendor vendor).ssidBytes).isSome) ∨
          outputLen < (reports.filter fun vendor =>
            (trySsid (ScanResult.ofVendor vendor).ssidBytes).isSome).length) := by
  constructor
  · rw [← wifiScan_eq_map hmax]
    exact scanned reports maxScanResults
  · rw [faithful_iff, List.forall_mem_map, List.filterMap_map, List.length_filterMap_eq_countP,
      List.countP_eq_length_filter]
    simp only [Function.comp_apply, isSome_convert]

/-- Refuses the empty SSID, as the SSID of a hidden network is. -/
def tryVisible (bytes : List UInt8) : Option (List UInt8) := if bytes = [] then none else some bytes

theorem scan_faithful_iff_hidden :
    ¬ Faithful tryVisible true [.ofVendor hiddenAp] 1 (scan tryVisible true [.ofVendor hiddenAp] 1) := by
  have hmax : [hiddenAp].length ≤ maxScanResults := by decide
  have hiff := (scan_faithful_iff tryVisible true hmax 1).2
  have hhidden : (ScanResult.ofVendor hiddenAp).ssidBytes = [] :=
    ScanResult.ssidBytes_ofVendor_none rfl
  intro h
  rcases hiff.mp h with hseen | hroom
  · have hsome := hseen hiddenAp (List.mem_singleton_self _)
    rw [hhidden] at hsome
    cases hsome
  · rw [List.filter_cons, hhidden] at hroom
    exact absurd hroom (by decide)

/-- One hidden network, and room for it: nothing is lost and `truncated` is set. -/
theorem not_scan_faithful :
    ¬ ∀ (trySsid : List UInt8 → Option (List UInt8)) (reports : List VendorScanResult) (outputLen : ℕ),
      reports.length ≤ maxScanResults →
        Faithful trySsid true (reports.map .ofVendor) outputLen
          (scan trySsid true (reports.map .ofVendor) outputLen) := by
  intro h
  have hflag := (h tryVisible [hiddenAp] 1 (by decide)).truncated
  have hhidden : (ScanResult.ofVendor hiddenAp).ssidBytes = [] :=
    ScanResult.ssidBytes_ofVendor_none rfl
  simp [scan, copyLoop, convert, hhidden, tryVisible] at hflag

/-! ## §4 Channel and frequency -/

/-- `WpaWifi::scan` derives the frequency from the channel. -/
theorem ofApInfo_frequencyMhz (src : VendorWpaApInfo) :
    (ScanResult.ofApInfo src).frequencyMhz = channelToFrequency (ScanResult.ofApInfo src).channel :=
  rfl

/-- `scan_event` leaves the channel as it is in `EMPTY`. -/
theorem ofVendor_channel (vendor : VendorScanResult) : (ScanResult.ofVendor vendor).channel = 0 := by
  unfold ScanResult.ofVendor
  cases vendor.bounded <;> rfl

theorem clampToU16_ne_zero {frequency : Int32} (h : InBand frequency) : clampToU16 frequency ≠ 0 := by
  have hbounds : 0 < frequency.toInt ∧ frequency.toInt < 65536 := by
    rcases h with ⟨n, h1, h13, heq⟩ | heq <;> omega
  intro h0
  have hnat := congrArg UInt16.toNat h0
  rw [clampToU16, UInt16.toNat_ofNat'] at hnat
  change _ = 0 at hnat
  omega

/-- No event of the band gives a result that names its channel. -/
theorem ofVendor_inconsistent {vendor : VendorScanResult} (h : InBand vendor.frequency) :
    (ScanResult.ofVendor vendor).frequencyMhz ≠
      channelToFrequency (ScanResult.ofVendor vendor).channel := by
  rw [ofVendor_channel, ScanResult.ofVendor_frequencyMhz]
  exact clampToU16_ne_zero h

/-- The copy adds nothing to the question. -/
theorem consistent_iff {S : Type} (trySsid : List UInt8 → Option S) (wpa3 : Bool)
    (scans : List ScanResult) :
    Consistent trySsid wpa3 scans ↔
      ∀ scan ∈ scans, scan.frequencyMhz = channelToFrequency scan.channel := by
  refine ⟨Consistent.scanned, fun h => ⟨h, ?_⟩⟩
  intro outputLen result hresult
  obtain ⟨scan, hscan, hconvert⟩ := mem_written trySsid wpa3 hresult
  obtain ⟨-, hchannel, hfrequency⟩ := convert_some trySsid wpa3 hconvert
  rw [hchannel, hfrequency]
  exact h scan hscan

theorem wifiScan_eq_nil_iff {reports : List VendorScanResult} {outputLen : ℕ} :
    wifiScan reports outputLen = [] ↔ reports = [] ∨ outputLen = 0 := by
  simp [wifiScan, maxScanResults, or_comm]

/-- **Which scans name one channel.** In the 2.4 GHz band those of `WpaWifi` all do, those of
`Wifi` only if they return nothing. -/
theorem results_consistent_iff {S : Type} (trySsid : List UInt8 → Option S) (wpa3 : Bool)
    (source : Source) (outputLen : ℕ)
    (hband : ∀ reports, source = .wifi reports → ∀ vendor ∈ reports, InBand vendor.frequency) :
    (∀ reports, source = .wifi reports → Scanned reports outputLen (source.results outputLen)) ∧
      (Consistent trySsid wpa3 (source.results outputLen) ↔
        ∀ reports, source = .wifi reports → reports = [] ∨ outputLen = 0) := by
  rw [consistent_iff]
  cases source with
  | wpaWifi vendor count =>
    have hother (reports : List VendorScanResult) : Source.wpaWifi vendor count ≠ .wifi reports := by
      intro heq
      cases heq
    refine ⟨fun reports heq => absurd heq (hother reports),
      iff_of_true ?_ fun reports heq => absurd heq (hother reports)⟩
    intro scan hscan
    obtain ⟨src, -, rfl⟩ := List.mem_map.mp hscan
    exact ofApInfo_frequencyMhz src
  | wifi reports =>
    have hreports : (∀ reports', Source.wifi reports = .wifi reports' → reports' = [] ∨ outputLen = 0) ↔
        wifiScan reports outputLen = [] := by
      rw [wifiScan_eq_nil_iff]
      constructor
      · intro h
        exact h reports rfl
      · rintro h _ ⟨⟩
        exact h
    constructor
    · rintro _ ⟨⟩
      exact scanned reports outputLen
    · rw [hreports, List.eq_nil_iff_forall_not_mem]
      refine forall₂_congr fun scan hscan => ?_
      obtain ⟨vendor, hvendor, rfl⟩ := List.mem_map.mp (List.mem_of_mem_take hscan)
      have hin := hband reports rfl vendor (List.mem_of_mem_take hvendor)
      exact iff_of_false (ofVendor_inconsistent hin) not_false

theorem results_consistent_iff_hidden : ¬ Consistent tryVisible true (wifiScan [hiddenAp] 4) := by
  have hiff := (results_consistent_iff tryVisible true (.wifi [hiddenAp]) 4 (by
    rintro _ ⟨⟩ vendor hvendor
    obtain rfl := List.mem_singleton.mp hvendor
    exact .inl ⟨1, by decide⟩)).2
  intro h
  rcases hiff.mp h [hiddenAp] rfl with hnil | hzero
  · cases hnil
  · cases hzero

/-- One event at 2412 MHz: the result has channel 0. -/
theorem not_results_consistent :
    ¬ ∀ (source : Source) (outputLen : ℕ),
      (∀ reports, source = .wifi reports → ∀ vendor ∈ reports, InBand vendor.frequency) →
        Consistent tryVisible true (source.results outputLen) := by
  intro h
  have hscan := (h (.wifi [hiddenAp]) 4 (by
    rintro _ ⟨⟩ vendor hvendor
    obtain rfl := List.mem_singleton.mp hvendor
    exact .inl ⟨1, by decide⟩)).scanned (.ofVendor hiddenAp) (List.mem_singleton_self _)
  exact absurd hscan (by decide)

end HisiRiscv.Wifi.BackendScan
