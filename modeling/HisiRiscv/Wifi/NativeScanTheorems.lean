/-
HisiRiscv.Wifi.NativeScanTheorems — what a native scan shows is known to
hostap.

The visible list is a prefix of the vendor's results, of at most 32. The
queue of the supplicant accepts at most 32 results, but counts only those
that pass its checks, so it accepts every result among the first 32 whose
elements were readable, unless `MAX_SCAN_IE_LEN` refuses it; and a refusal
counts as a drop, which fails the next poll before anything is fed. When
the call returns, the queue is empty, so everything accepted has been fed,
in order, with scan-done last.

Two things keep the visible list from being an exact copy. Its frequencies
are clamped to 16 bits, hostap's are not. And the drop counter wraps: after
2³² refusals since the last overflow check it looks unchanged.

  §1 The property.
  §2 The two copies of an event.
  §3 The scan queue while the scan runs.
  §4 The slots of the scan.
  §5 The invariant.
  §6 Main results.
-/
import HisiRiscv.Wifi.NativeScan

namespace HisiRiscv.Wifi.NativeScan

open HisiRiscv.Machine
open HisiRiscv.Supplicant
open scoped List

variable {sys : RadioSys} {Ssid : Type}

/-! ## §1 The property -/

/-- A call begins: the scan queue is empty and no callback is underway. -/
structure Starts (s : State sys Ssid) : Prop where
  pc : s.pc = .begin
  returned : s.returned = none
  vendor : s.vendor = []
  vendorDone : s.vendorDone = false
  empty : ∀ i, (s.lane.queue.slots i).state = .free
  unguarded : s.lane.guard = none
  idle : s.poll.pc = .idle
  waiter : s.wifi.caller = .idle
  callbacks : s.wifi.writers = []

/-- The scan result was made from what the event says, the frequency up to
`frequency`. -/
structure MadeFrom (frequency : Int32 → UInt16 → Prop) (scan : ScanResult) (e : ScanEvent) :
    Prop where
  bssid : scan.bssid = e.metadata.bssid
  frequency : frequency e.metadata.frequencyMhz scan.frequencyMhz
  ssid : scan.ssidBytes = ssidFromIes (e.ies.take e.metadata.ieLen)
  security : (scan.authMode, scan.pairwise) = personalSecurityFromIes e.ies

/-- Since the call began in `s₀`, hostap has been fed some results and then
scan-done, nothing of the scan is left in the queue, and every network written
that has an SSID was made from a result fed. -/
def Known (frequency : Int32 → UInt16 → Prop) (build : Build Ssid) (s₀ s : State sys Ssid)
    (outcome : Outcome Ssid) : Prop :=
  s.lane.held = [] ∧ s.lane.queue.stored = [] ∧
    ∃ (results : List (Nat × (QueueKind.layout sys .scan).Event))
      (last : Nat × (QueueKind.layout sys .scan).Event),
      s.lane.fed = s₀.lane.fed ++ results ++ [last] ∧ last.2 = ScanEvent.done 0 ∧
        (∀ x ∈ results, ScanEvent.isDone x.2 = false) ∧
        ∀ w ∈ outcome.written, ∃ (scan : ScanResult) (ssid : Ssid),
          build.tryFromBytes scan.ssidBytes = some ssid ∧ w = network build ssid scan ∧
            (scan.ssidBytes ≠ [] → ∃ x ∈ results, MadeFrom frequency scan x.2)

/-- The visible frequency is the one fed, clamped to 16 bits. -/
def Clamped (fed : Int32) (visible : UInt16) : Prop := visible = clampToU16 fed

/-- The visible frequency is the one fed. -/
def Same (fed : Int32) (visible : UInt16) : Prop := fed.toInt = visible.toNat

/-- The scan queue takes the event. -/
def fits (sys : RadioSys) (e : ScanEvent) : Bool := (scanEventQueue sys).accepts e

/-- The queue does not take the result: `MAX_SCAN_IE_LEN` is too small for it. -/
def refused (sys : RadioSys) (vendor : VendorScanResult) : Bool :=
  (hostapEvent vendor).any fun e => !fits sys e

/-- The drops of the scan queue since its last overflow check. -/
def State.unseen (s : State sys Ssid) : Nat := (s.lane.queue.dropped - s.lane.droppedSeen).toNat

/-- The results of this scan that the queue refused. -/
def State.refusals (s : State sys Ssid) : Nat := s.vendor.countP (refused sys)

/-! ## §2 The two copies of an event -/

/-- The event the queue accepts for a vendor result. -/
def accepted (sys : RadioSys) (vendor : VendorScanResult) : Option ScanEvent :=
  (hostapEvent vendor).filter (fits sys)

/-- The events queued for the results of a scan. -/
def queued (sys : RadioSys) (vendor : List VendorScanResult) : List ScanEvent :=
  (vendor.filterMap (accepted sys)).take maxScanResults

theorem length_queued_le (vendor : List VendorScanResult) :
    (queued sys vendor).length ≤ maxScanResults := List.length_take_le ..

theorem queued_none {vendor : VendorScanResult} (h : accepted sys vendor = none)
    (vs : List VendorScanResult) : queued sys (vs ++ [vendor]) = queued sys vs := by
  unfold queued
  rw [List.filterMap_append, List.filterMap_cons_none h, List.filterMap_nil, List.append_nil]

theorem queued_some {vendor : VendorScanResult} {e : ScanEvent} (h : accepted sys vendor = some e)
    (vs : List VendorScanResult) : queued sys (vs ++ [vendor]) =
      if (queued sys vs).length < maxScanResults then queued sys vs ++ [e] else queued sys vs := by
  unfold queued
  rw [List.filterMap_append, List.filterMap_cons_some h, List.filterMap_nil, List.length_take]
  split
  · rename_i hroom
    rw [List.take_append, @List.take_of_length_le _ _ [e]]
    rw [List.length_singleton]
    omega
  · rw [List.take_append_of_le_length (by omega)]

/-- An element of the first `n` has its image among the first `n` images. -/
theorem mem_take_filterMap {α β : Type} {f : α → Option β} {l : List α} {n : Nat} {a : α} {b : β}
    (ha : a ∈ l.take n) (hf : f a = some b) : b ∈ (l.filterMap f).take n := by
  have hpre : (l.take n).filterMap f <+: (l.filterMap f).take n := by
    refine List.prefix_take_iff.mpr ⟨(List.take_prefix n l).filterMap f, ?_⟩
    exact (List.length_filterMap_le f _).trans (List.length_take_le ..)
  exact hpre.subset (List.mem_filterMap.mpr ⟨a, ha, hf⟩)

/-- Elements that the visible copy reads are passed to hostap. -/
theorem hostapElements_of_bounded {vendor : VendorScanResult} {ies : List UInt8}
    (h : vendor.bounded = some ies) : hostapElements vendor = some ies := by
  unfold VendorScanResult.bounded at h
  unfold hostapElements
  split at h
  · rename_i total bytes htotal helements
    split at h
    · rename_i hle
      cases h
      have hlen := vendor.readable ies (by rw [helements]; rfl)
      have htotal' : total = vendor.ieLen.toNat + vendor.beaconIeLen.toNat := by
        unfold VendorScanResult.totalLen at htotal
        dsimp only at htotal
        split at htotal
        · exact (Option.some.inj htotal).symm
        · cases htotal
      rw [htotal]
      dsimp only
      rw [if_pos ⟨hle, .inr (by rw [helements]; rfl)⟩]
      split
      · rename_i hzero
        have hnil : ies = [] := List.length_eq_zero_iff.mp (by omega)
        rw [hnil]
      · rw [helements]
        rfl
    · cases h
  · cases h

/-- A visible SSID comes from elements that hostap is given as well. -/
theorem hostapEvent_of_ssid {vendor : VendorScanResult}
    (h : (ScanResult.ofVendor vendor).ssidBytes ≠ []) :
    ∃ e, hostapEvent vendor = some e ∧ MadeFrom Clamped (.ofVendor vendor) e := by
  cases hbounded : vendor.bounded with
  | none => exact absurd (ScanResult.ssidBytes_ofVendor_none hbounded) h
  | some ies =>
    refine ⟨.result (scanMeta vendor) ies, ?_, ?_⟩
    · rw [hostapEvent, hostapElements_of_bounded hbounded]
      rfl
    · exact ⟨ScanResult.ofVendor_bssid vendor, ScanResult.ofVendor_frequencyMhz vendor,
        ScanResult.ssidBytes_ofVendor hbounded, ScanResult.security_ofVendor hbounded⟩

/-! ## §3 The scan queue while the scan runs -/

/-- The events of the scan that the queue has accepted. -/
def State.events (s : State sys Ssid) : List (QueueKind.layout sys .scan).Event :=
  queued sys s.vendor ++ if s.vendorDone then [ScanEvent.done 0] else []

/-- The drop count: that of the beginning, and one more for every refusal. -/
def State.drops (s s₀ : State sys Ssid) : UInt32 :=
  s₀.lane.queue.dropped + UInt32.ofNat s.refusals

/-- Between `begin_scan_cache_capture` and `finish_scan_cache_capture` the
queue holds what has been accepted, and nothing has been fed. -/
structure Capture (s₀ s : State sys Ssid) : Prop where
  idle : s.poll.pc = .idle
  ready : s.poll.portReady = true
  active : s.poll.nativeScanActive = !s.vendorDone
  acceptedResults : s.poll.acceptedResults = (queued sys s.vendor).length
  order : ∃ pending, s.lane.Fifo pending ∧ pending.map Prod.snd = s.events ∧
    ∀ x ∈ pending, s.lane.queue.nextSequence ≤ x.1 + pending.length
  guard : s.lane.guard = none
  fed : s.lane.fed = s₀.lane.fed
  seen : s.lane.droppedSeen = s₀.lane.droppedSeen
  dropped : s.lane.queue.dropped = s.drops s₀

section Capture

variable {s₀ s t : State sys Ssid}

@[simp] theorem scanResult_vendor (s : State sys Ssid) (vendor : VendorScanResult) :
    (s.scanResult vendor).vendor = s.vendor ++ [vendor] := rfl

@[simp] theorem scanResult_vendorDone (s : State sys Ssid) (vendor : VendorScanResult) :
    (s.scanResult vendor).vendorDone = s.vendorDone := rfl

theorem refusals_scanResult (s : State sys Ssid) (vendor : VendorScanResult) :
    (s.scanResult vendor).refusals = s.refusals + if refused sys vendor then 1 else 0 := by
  unfold State.refusals
  rw [scanResult_vendor, List.countP_append, List.countP_singleton]

theorem length_events_le (s : State sys Ssid) (h : s.vendorDone = false) :
    s.events.length < (QueueKind.layout sys .scan).depth := by
  unfold State.events
  rw [h, if_neg Bool.false_ne_true, List.append_nil]
  exact Nat.lt_succ_of_le (length_queued_le s.vendor)

/-- An event is accepted: there is always room for it. -/
theorem Capture.push (h : Capture s₀ s) (hdone : s.vendorDone = false)
    {e : (QueueKind.layout sys .scan).Event}
    (hacc : (QueueKind.layout sys .scan).accepts e = true)
    (hlane : t.lane = (s.lane.enqueue e).1) (hpc : t.poll.pc = s.poll.pc)
    (hready : t.poll.portReady = s.poll.portReady)
    (hactive : t.poll.nativeScanActive = !t.vendorDone)
    (haccepted : t.poll.acceptedResults = (queued sys t.vendor).length)
    (hevents : t.events = s.events ++ [e]) (hrefusals : t.refusals = s.refusals) :
    Capture s₀ t := by
  obtain ⟨pending, hfifo, hpending, hnumbers⟩ := h.order
  have hlen : pending.length < (QueueKind.layout sys .scan).depth := by
    rw [← List.length_map Prod.snd, hpending]
    exact length_events_le s hdone
  have hdepth : (QueueKind.layout sys .scan).depth = 33 := rfl
  obtain ⟨hfifo', hnext, hdropped⟩ := hfifo.enqueue hacc (hfifo.exists_free h.guard hlen) fun x hx => by
    have := hnumbers x hx
    omega
  refine ⟨hpc.trans h.idle, hready.trans h.ready, hactive, haccepted, ?_, ?_, ?_, ?_, ?_⟩
  · rw [hlane]
    refine ⟨_, hfifo', ?_, fun x hx => ?_⟩
    · rw [List.map_append, hpending, hevents]
      rfl
    · rw [hnext, List.length_append, List.length_singleton]
      rcases List.mem_append.mp hx with hx | hx
      · have := hnumbers x hx
        omega
      · rw [List.mem_singleton.mp hx]
        dsimp only
        omega
  · rw [hlane]
    exact h.guard
  · rw [hlane]
    exact h.fed
  · rw [hlane]
    exact h.seen
  · rw [hlane, hdropped, h.dropped]
    unfold State.drops
    rw [hrefusals]

theorem accepts_done : (QueueKind.layout sys .scan).accepts (ScanEvent.done 0) = true := by
  simp [QueueKind.layout, scanEventQueue, ScanEvent.done, ScanMeta.zero]

theorem Capture.scanDone (h : Capture s₀ s) (hdone : s.vendorDone = false) :
    Capture s₀ s.scanDone := by
  have hactive : s.poll.nativeScanActive = true := by rw [h.active, hdone]; rfl
  have hpoll : (s.poll.enqueueScanDone 0).1 =
      ({ s.poll with nativeScanActive := false }.enqueue .scan (ScanEvent.done 0)).1 := by
    unfold Poll.State.enqueueScanDone
    simp [h.ready, hactive]
  refine h.push hdone accepts_done ?_ ?_ ?_ ?_ ?_ ?_ rfl
  · simp only [State.lane, State.scanDone, hpoll]
    exact Poll.State.setLane_self ..
  · simp only [State.scanDone, hpoll]
    rfl
  · simp only [State.scanDone, hpoll]
    rfl
  · simp only [State.scanDone, hpoll]
    rfl
  · simp only [State.scanDone, hpoll]
    exact h.acceptedResults
  · unfold State.events
    simp only [State.scanDone, hdone, if_true, Bool.false_eq_true, if_false, List.append_nil]
    rfl

theorem events_scanResult {vendor : VendorScanResult}
    (hqueued : queued sys (s.vendor ++ [vendor]) = queued sys s.vendor) :
    (s.scanResult vendor).events = s.events := by
  unfold State.events
  rw [scanResult_vendor, hqueued, scanResult_vendorDone]

/-- A vendor result that does not reach the queue changes nothing there. -/
theorem Capture.skip (h : Capture s₀ s) {vendor : VendorScanResult}
    (hpoll : (s.scanResult vendor).poll = s.poll ∨ (s.scanResult vendor).poll =
      { s.poll with truncatedResults := s.poll.truncatedResults + 1 })
    (hqueued : queued sys (s.vendor ++ [vendor]) = queued sys s.vendor)
    (hrefused : refused sys vendor = false) : Capture s₀ (s.scanResult vendor) := by
  have hlane : (s.scanResult vendor).lane = s.lane := by
    unfold State.lane
    rcases hpoll with hpoll | hpoll <;> rw [hpoll]
  have hevents := events_scanResult hqueued
  have hrefusals : (s.scanResult vendor).refusals = s.refusals := by
    rw [refusals_scanResult, hrefused]
    rfl
  refine ⟨?_, ?_, ?_, ?_, ?_, ?_, ?_, ?_, ?_⟩
  · rcases hpoll with hpoll | hpoll <;> rw [hpoll] <;> exact h.idle
  · rcases hpoll with hpoll | hpoll <;> rw [hpoll] <;> exact h.ready
  · rcases hpoll with hpoll | hpoll <;> rw [hpoll] <;> exact h.active
  · rw [scanResult_vendor, hqueued]
    rcases hpoll with hpoll | hpoll <;> rw [hpoll] <;> exact h.acceptedResults
  · rw [hlane, hevents]
    exact h.order
  · rw [hlane]
    exact h.guard
  · rw [hlane]
    exact h.fed
  · rw [hlane]
    exact h.seen
  · rw [hlane, h.dropped]
    unfold State.drops
    rw [hrefusals]

/-- A vendor result that the queue refuses counts as a drop. -/
theorem Capture.refuse (h : Capture s₀ s) {vendor : VendorScanResult}
    {e : (QueueKind.layout sys .scan).Event}
    (hacc : (QueueKind.layout sys .scan).accepts e = false)
    (hpoll : (s.scanResult vendor).poll = (s.poll.enqueue .scan e).1)
    (hqueued : queued sys (s.vendor ++ [vendor]) = queued sys s.vendor)
    (hrefused : refused sys vendor = true) : Capture s₀ (s.scanResult vendor) := by
  have hlane : (s.scanResult vendor).lane = (s.lane.enqueue e).1 := by
    unfold State.lane
    rw [hpoll]
    exact Poll.State.setLane_self ..
  have hevents := events_scanResult hqueued
  have hq : s.lane.queue.enqueue e = (s.lane.queue.bumpDropped, false) := by
    unfold Queue.enqueue
    rw [if_neg (by simp [hacc])]
  obtain ⟨pending, hfifo, hpending, hnumbers⟩ := h.order
  refine ⟨?_, ?_, ?_, ?_, ⟨pending, ?_, ?_, ?_⟩, ?_, ?_, ?_, ?_⟩
  · rw [hpoll]
    exact h.idle
  · rw [hpoll]
    exact h.ready
  · rw [hpoll]
    exact h.active
  · rw [scanResult_vendor, hqueued, hpoll]
    exact h.acceptedResults
  · rw [hlane]
    exact hfifo.enqueue_refused hacc
  · rw [hevents]
    exact hpending
  · rw [hlane]
    simp only [Lane.enqueue, hq]
    exact hnumbers
  · rw [hlane]
    exact h.guard
  · rw [hlane]
    simp only [Lane.enqueue, hq]
    exact h.fed
  · rw [hlane]
    exact h.seen
  · rw [hlane]
    simp only [Lane.enqueue, hq, Queue.bumpDropped]
    rw [h.dropped]
    unfold State.drops
    rw [refusals_scanResult, hrefused, if_pos rfl, UInt32.ofNat_add, UInt32.add_assoc]
    rfl

/-- A vendor result is skipped, refused, or accepted. -/
theorem Capture.scanResult (h : Capture s₀ s) (hdone : s.vendorDone = false)
    (vendor : VendorScanResult) : Capture s₀ (s.scanResult vendor) := by
  have hactive : s.poll.nativeScanActive = true := by rw [h.active, hdone]; rfl
  cases helements : hostapElements vendor with
  | none =>
    have hevent : hostapEvent vendor = none := by rw [hostapEvent, helements]; rfl
    refine h.skip (.inl ?_) (queued_none ?_ s.vendor) ?_
    · simp only [State.scanResult, helements]
    · rw [accepted, hevent]
      rfl
    · rw [refused, hevent]
      rfl
  | some ies =>
    have hevent : hostapEvent vendor = some (.result (scanMeta vendor) ies) := by
      rw [hostapEvent, helements]
      rfl
    have hpoll : (s.scanResult vendor).poll =
        (s.poll.enqueueScanResult (scanMeta vendor) ies).1 := by
      simp only [State.scanResult, helements]
    unfold Poll.State.enqueueScanResult at hpoll
    rw [if_neg (by simp [h.ready, hactive])] at hpoll
    cases hacc : fits sys (.result (scanMeta vendor) ies) with
    | false =>
      rw [if_pos (by rw [← fits, hacc]; rfl)] at hpoll
      refine h.refuse hacc hpoll (queued_none ?_ s.vendor) ?_
      · rw [accepted, hevent, Option.filter_some, hacc]
        rfl
      · rw [refused, hevent, Option.any_some, hacc]
        rfl
    | true =>
      have haccepted : accepted sys vendor = some (.result (scanMeta vendor) ies) := by
        rw [accepted, hevent, Option.filter_some, hacc]
        rfl
      have hrefused : refused sys vendor = false := by
        rw [refused, hevent, Option.any_some, hacc]
        rfl
      have hqueued := queued_some haccepted s.vendor
      rw [if_neg (by rw [← fits, hacc]; exact Bool.false_ne_true)] at hpoll
      rw [← h.acceptedResults] at hqueued
      by_cases hroom : s.poll.acceptedResults < maxScanResults
      · rw [if_pos hroom] at hpoll hqueued
        refine h.push hdone hacc ?_ ?_ ?_ ?_ ?_ ?_ ?_
        · unfold State.lane
          rw [hpoll]
          exact Poll.State.setLane_self ..
        · rw [hpoll]
          rfl
        · rw [hpoll]
          rfl
        · rw [hpoll]
          exact h.active
        · rw [scanResult_vendor, hqueued, hpoll, List.length_append, ← h.acceptedResults]
          rfl
        · unfold State.events
          rw [scanResult_vendor, scanResult_vendorDone, hqueued, hdone]
          simp only [Bool.false_eq_true, if_false, List.append_nil]
          rfl
        · rw [refusals_scanResult, hrefused]
          rfl
      · rw [if_neg hroom] at hpoll hqueued
        exact h.skip (.inr hpoll) hqueued hrefused

/-- The slots of the scan do not matter. -/
theorem Capture.frame (h : Capture s₀ s) (hpoll : t.poll = s.poll) (hvendor : t.vendor = s.vendor)
    (hdone : t.vendorDone = s.vendorDone) : Capture s₀ t := by
  have hlane : t.lane = s.lane := by
    unfold State.lane
    rw [hpoll]
  have hevents : t.events = s.events := by
    unfold State.events
    rw [hvendor, hdone]
  have hdrops : t.drops s₀ = s.drops s₀ := by
    unfold State.drops State.refusals
    rw [hvendor]
  refine ⟨?_, ?_, ?_, ?_, ?_, ?_, ?_, ?_, ?_⟩
  · rw [hpoll]
    exact h.idle
  · rw [hpoll]
    exact h.ready
  · rw [hpoll, hdone]
    exact h.active
  · rw [hpoll, hvendor]
    exact h.acceptedResults
  · rw [hlane, hevents]
    exact h.order
  · rw [hlane]
    exact h.guard
  · rw [hlane]
    exact h.fed
  · rw [hlane]
    exact h.seen
  · rw [hlane, hdrops]
    exact h.dropped

/-- Callbacks of the other queues do not matter. -/
theorem Capture.same (h : Capture s₀ s) {poll : Poll.State sys} (hsame : Poll.SameScan s.poll poll) :
    Capture s₀ { s with poll } := by
  have hlane : State.lane { s with poll } = s.lane := hsame.lane
  refine ⟨hsame.pc.trans h.idle, hsame.portReady.trans h.ready, hsame.active.trans h.active,
    hsame.acceptedResults.trans h.acceptedResults, ?_, ?_, ?_, ?_, ?_⟩
  · rw [hlane]
    exact h.order
  · rw [hlane]
    exact h.guard
  · rw [hlane]
    exact h.fed
  · rw [hlane]
    exact h.seen
  · rw [hlane]
    exact h.dropped

/-- After scan-done the queue only has to be drained. -/
theorem Capture.drains (h : Capture s₀ s) : Poll.Drains s₀.lane (s.drops s₀) s.events s.poll := by
  obtain ⟨pending, hfifo, hpending, -⟩ := h.order
  refine ⟨⟨⟨[], pending, ?_, hfifo, hpending, fun hne => absurd rfl hne⟩, h.dropped, h.seen, ?_, ?_⟩, ?_⟩
  · rw [List.append_nil]
    exact h.fed
  · rw [h.idle]
    nofun
  · change s.lane.guard.isSome = _
    rw [h.guard, h.idle]
    rfl
  · rw [h.idle]
    nofun

end Capture

/-! ## §4 The slots of the scan -/

/-- The waiter and the callbacks of this scan, and no others. -/
structure Own (s : State sys Ssid) : Prop where
  inv : ScanTransaction.Inv s.wifi
  writers : s.wifi.writers = []
  delivered : s.wifi.delivered = s.vendor.map .ofVendor
  doneBy : s.wifi.doneBy ≠ none → s.vendorDone = true
  outputLen : s.wifi.outputLen = maxScanResults

section Own

variable {s t : State sys Ssid}

/-- A callback that runs to its end leaves no slot unwritten. -/
theorem callback_spec {w : ScanTransaction.State} (h : ScanTransaction.Inv w)
    (hwriters : w.writers = []) {vendor : VendorScanResult}
    (hok : ScanTransaction.Orderly w (.scanResult w.scan vendor)) :
    ScanTransaction.Inv (callback w vendor) ∧ (callback w vendor).writers = [] ∧
      (callback w vendor).delivered = w.delivered ++ [.ofVendor vendor] ∧
      (callback w vendor).doneBy = w.doneBy ∧ (callback w vendor).outputLen = w.outputLen := by
  have hreserved := ScanTransaction.inv_scanResult h hok
  unfold callback
  rw [hwriters]
  unfold ScanTransaction.State.deliver ScanTransaction.State.reserve at hreserved ⊢
  rw [if_pos rfl] at hreserved ⊢
  dsimp only at hreserved ⊢
  by_cases hslot : w.active = true ∧ w.count < maxScanResults
  · rw [dif_pos hslot] at hreserved ⊢
    rw [hwriters] at hreserved ⊢
    refine ⟨ScanTransaction.inv_write (k := 0) hreserved ?_ rfl, rfl, rfl, rfl, rfl⟩
    intro writer hwriter hscan
    cases hwriter
    exact absurd rfl hscan
  · rw [dif_neg hslot] at hreserved ⊢
    simp only [ScanTransaction.State.write, hwriters, List.length_nil, List.getElem?_nil,
      Option.map_none, Option.getD_none]
    rw [hwriters] at hreserved
    exact ⟨hreserved, trivial, trivial, trivial, trivial⟩

theorem callback_caller (w : ScanTransaction.State) (vendor : VendorScanResult) :
    (callback w vendor).caller = w.caller ∧ (callback w vendor).returned = w.returned := by
  have hreserve : ∀ scan result, ((w.deliver scan result).reserve scan result).caller = w.caller ∧
      ((w.deliver scan result).reserve scan result).returned = w.returned := by
    intro scan result
    unfold ScanTransaction.State.reserve ScanTransaction.State.deliver
    split <;> split <;> exact ⟨rfl, rfl⟩
  have hwrite : ∀ (v : ScanTransaction.State) k, ((v.write k).getD v).caller = v.caller ∧
      ((v.write k).getD v).returned = v.returned := by
    intro v k
    unfold ScanTransaction.State.write
    cases v.writers[k]? <;> exact ⟨rfl, rfl⟩
  exact ⟨(hwrite _ _).1.trans (hreserve _ _).1, (hwrite _ _).2.trans (hreserve _ _).2⟩

/-- A result callback of the scan in progress is orderly. -/
theorem Own.scanResult (h : Own s) (hdone : s.vendorDone = false) (vendor : VendorScanResult) :
    Own (s.scanResult vendor) := by
  have hnone : s.wifi.doneBy = none := by
    by_contra hne
    have := h.doneBy hne
    rw [hdone] at this
    cases this
  have hok : ScanTransaction.Orderly s.wifi (.scanResult s.wifi.scan vendor) := by
    refine fun _ _ => ⟨rfl, fun hclosing => ?_⟩
    -- the waiter has not read `done`, since scan-done has not come
    have hknown := h.inv.known
    unfold ScanTransaction.State.Known at hknown
    unfold ScanTransaction.Caller.closing at hclosing
    split at hclosing
    · rename_i hcaller
      rw [hcaller, hnone] at hknown
      cases hknown.1
    all_goals cases hclosing
  obtain ⟨hinv, hwriters, hdelivered, hdoneBy, houtput⟩ := callback_spec h.inv h.writers hok
  refine ⟨hinv, hwriters, ?_, ?_, houtput.trans h.outputLen⟩
  · rw [scanResult_vendor, List.map_append, ← h.delivered]
    exact hdelivered
  · intro hne
    exact h.doneBy (hdoneBy ▸ hne)

theorem Own.scanDone (h : Own s) : Own s.scanDone := by
  have hinv : ScanTransaction.Inv (s.wifi.scanDone s.wifi.scan 0) :=
    ScanTransaction.inv_scanDone h.inv fun _ => rfl
  have hsame : (s.wifi.scanDone s.wifi.scan 0).writers = s.wifi.writers ∧
      (s.wifi.scanDone s.wifi.scan 0).delivered = s.wifi.delivered ∧
      (s.wifi.scanDone s.wifi.scan 0).outputLen = s.wifi.outputLen := by
    unfold ScanTransaction.State.scanDone
    split <;> exact ⟨rfl, rfl, rfl⟩
  exact ⟨hinv, hsame.1.trans h.writers, hsame.2.1.trans h.delivered, fun _ => rfl,
    hsame.2.2.trans h.outputLen⟩

/-- The steps of the waiter change neither the callbacks nor the history. -/
theorem waiter_same {w w' : ScanTransaction.State} {act : ScanTransaction.Action}
    (hact : waits act = true) (hs : ScanTransaction.step w act = some w') :
    w'.writers = w.writers ∧ w'.delivered = w.delivered ∧ w'.doneBy = w.doneBy ∧
      w'.outputLen = w.outputLen := by
  cases act with
  | ioctlReturns result =>
    obtain ⟨-, hs⟩ := Option.ite_none_right_eq_some.mp hs
    cases hs
    exact ⟨rfl, rfl, rfl, rfl⟩
  | clock now =>
    simp only [ScanTransaction.step, ScanTransaction.State.clock] at hs
    split at hs
    · cases hs
      exact ⟨rfl, rfl, rfl, rfl⟩
    · split at hs <;> cases hs <;> exact ⟨rfl, rfl, rfl, rfl⟩
    all_goals cases hs
  | advance =>
    simp only [ScanTransaction.step, ScanTransaction.State.advance] at hs
    split at hs
    · cases hs
      exact ⟨rfl, rfl, rfl, rfl⟩
    · cases hs
      exact ⟨rfl, rfl, rfl, rfl⟩
    · cases hs
      exact ⟨rfl, rfl, rfl, rfl⟩
    · unfold ScanTransaction.State.copy at hs
      split at hs
      · split at hs <;> cases hs
        exact ⟨rfl, rfl, rfl, rfl⟩
      · cases hs
        exact ⟨rfl, rfl, rfl, rfl⟩
    all_goals cases hs
  | scan | scanResult | write | scanDone => cases hact

/-- A call that does not wait takes no step. -/
theorem waiter_idle {w : ScanTransaction.State} {act : ScanTransaction.Action}
    (hact : waits act = true) (hidle : w.caller = .idle) : ScanTransaction.step w act = none := by
  cases act with
  | ioctlReturns result =>
    simp only [ScanTransaction.step, hidle]
    rw [if_neg nofun]
  | clock now => simp only [ScanTransaction.step, ScanTransaction.State.clock, hidle]
  | advance => simp only [ScanTransaction.step, ScanTransaction.State.advance, hidle]
  | scan | scanResult | write | scanDone => cases hact

theorem Own.waiter (h : Own s) {act : ScanTransaction.Action} (hact : waits act = true)
    {wifi : ScanTransaction.State} (hs : ScanTransaction.step s.wifi act = some wifi) :
    Own { s with wifi } := by
  obtain ⟨hwriters, hdelivered, hdoneBy, houtput⟩ := waiter_same hact hs
  have hok : ScanTransaction.Orderly s.wifi act := by
    cases act with
    | advance =>
      simp only [ScanTransaction.Orderly]
      split
      · intro _ writer hmem
        rw [h.writers] at hmem
        cases hmem
      · trivial
    | ioctlReturns | clock => trivial
    | scan | scanResult | write | scanDone => cases hact
  exact ⟨ScanTransaction.inv_step h.inv hok hs, hwriters.trans h.writers,
    hdelivered.trans h.delivered, fun hne => h.doneBy (hdoneBy ▸ hne), houtput.trans h.outputLen⟩

/-- `Wifi::scan` starts on its own, unless another scan is active. -/
theorem own_start (hwaiter : s.wifi.active = false) (hwriters : s.wifi.writers = [])
    (hvendor : s.vendor = []) :
    Own { s with wifi := s.wifi.startScan maxScanResults s.timeoutMs, pc := .scanning } := by
  have hinv : ScanTransaction.Inv (s.wifi.startScan maxScanResults s.timeoutMs) :=
    ScanTransaction.inv_startScan hwaiter (by rw [hwriters]; nofun) _ _
  unfold ScanTransaction.State.startScan at hinv ⊢
  rw [if_neg (by simp [hwaiter])] at hinv ⊢
  exact ⟨hinv, hwriters, by rw [hvendor]; rfl, nofun, rfl⟩

/-- A scan that succeeds has seen its scan-done, and shows a prefix of its results. -/
theorem Own.scans (h : Own s) {scans : List ScanResult} (hret : s.wifi.returned = some (.ok scans)) :
    s.vendorDone = true ∧ ∃ n ≤ maxScanResults, scans = (s.vendor.map .ofVendor).take n := by
  obtain ⟨hlen, hdone, hscans⟩ := h.inv.returned scans hret
  refine ⟨h.doneBy (by rw [hdone]; nofun), scans.length, ?_, ?_⟩
  · rw [h.outputLen] at hlen
    omega
  · rw [← h.delivered]
    exact hscans

end Own

/-! ## §5 The invariant -/

/-- The call has gathered the results of a scan whose scan-done has come. -/
structure Gathered (s : State sys Ssid) : Prop where
  done : s.vendorDone = true
  scans : ∃ n ≤ maxScanResults, s.scans = (s.vendor.map ScanResult.ofVendor).take n

/-- Everything the queue has accepted has been fed, and it has dropped nothing. -/
structure Settled (s₀ s : State sys Ssid) : Prop where
  fed : ∃ fed, s.lane.fed = s₀.lane.fed ++ fed ∧ fed.map Prod.snd = s.events
  held : s.lane.held = []
  stored : s.lane.queue.stored = []
  drops : s.drops s₀ = s₀.lane.droppedSeen

/-- The vendor scan has not been requested. -/
structure Quiet (s : State sys Ssid) : Prop where
  vendor : s.vendor = []
  vendorDone : s.vendorDone = false
  writers : s.wifi.writers = []
  idle : s.wifi.caller = .idle

/-- What holds at each point of the call. -/
def Phase (build : Build Ssid) (s₀ s : State sys Ssid) : Pc → Prop
  | .begin => s.lane = s₀.lane ∧ s.poll.pc = .idle ∧ Quiet s
  | .start => Capture s₀ s ∧ Quiet s
  | .scanning =>
      Capture s₀ s ∧ (Own s ∨ s.wifi.caller = .idle ∧ ∃ e, s.wifi.returned = some (.error e))
  | .cancel _ | .discarding _ => True
  | .finish | .pending =>
      Gathered s ∧ Poll.Drains s₀.lane (s.drops s₀) s.events s.poll ∧ s.poll.pc = .idle
  | .polling =>
      Gathered s ∧ (Poll.Failed s.poll ∨ Poll.Drains s₀.lane (s.drops s₀) s.events s.poll)
  | .write => Gathered s ∧ Settled s₀ s ∧ s.poll.pc = .idle
  | .returned =>
      ∀ outcome, s.returned = some (.ok outcome) →
        Gathered s ∧ Settled s₀ s ∧ s.poll.pc = .idle ∧ outcome = s.outcome build

structure Inv (build : Build Ssid) (s₀ s : State sys Ssid) : Prop where
  early : s.pc ≠ .returned → s.returned = none
  phase : Phase build s₀ s s.pc

section Inv

variable {build : Build Ssid} {s₀ s t : State sys Ssid}

theorem Inv.of_pc {pc : Pc} (hpc : s.pc = pc) (hearly : s.pc ≠ .returned → s.returned = none)
    (hphase : Phase build s₀ s pc) : Inv build s₀ s := by
  subst hpc
  exact ⟨hearly, hphase⟩

theorem Starts.inv (h : Starts s) : Inv build s s := by
  refine ⟨fun _ => h.returned, ?_⟩
  rw [h.pc]
  exact ⟨rfl, h.idle, h.vendor, h.vendorDone, h.callbacks, h.waiter⟩

theorem inv_fail (s : State sys Ssid) (e : BackendError) : Inv build s₀ (s.fail e) :=
  ⟨fun hne => absurd rfl hne, nofun⟩

theorem Gathered.events_ne_nil (h : Gathered s) : s.events ≠ [] := by
  unfold State.events
  rw [if_pos h.done]
  exact List.append_ne_nil_of_right_ne_nil _ (List.cons_ne_nil _ _)

theorem Settled.same (h : Settled s₀ s) {poll : Poll.State sys} (hsame : Poll.SameScan s.poll poll) :
    Settled s₀ { s with poll } := by
  have hlane : State.lane { s with poll } = s.lane := hsame.lane
  refine ⟨?_, ?_, ?_, h.drops⟩
  · rw [hlane]
    exact h.fed
  · rw [hlane]
    exact h.held
  · rw [hlane]
    exact h.stored

/-- Callbacks of the other queues keep what holds. -/
theorem Phase.foreign {pc : Pc} (h : Phase build s₀ s pc) {poll : Poll.State sys}
    (hsame : Poll.SameScan s.poll poll) : Phase build s₀ { s with poll } pc := by
  cases pc with
  | begin =>
    obtain ⟨hlane, hidle, hquiet⟩ := h
    exact ⟨hsame.lane.trans hlane, hsame.pc.trans hidle, hquiet.vendor, hquiet.vendorDone,
      hquiet.writers, hquiet.idle⟩
  | start =>
    obtain ⟨hcapture, hquiet⟩ := h
    exact ⟨hcapture.same hsame, hquiet.vendor, hquiet.vendorDone, hquiet.writers,
      hquiet.idle⟩
  | scanning =>
    obtain ⟨hcapture, hwaiter⟩ := h
    refine ⟨hcapture.same hsame, hwaiter.imp_left fun hown => ?_⟩
    exact ⟨hown.inv, hown.writers, hown.delivered, hown.doneBy, hown.outputLen⟩
  | cancel | discarding => trivial
  | finish | pending =>
    obtain ⟨hgathered, hdrains, hidle⟩ := h
    exact ⟨⟨hgathered.done, hgathered.scans⟩, hdrains.same hsame, hsame.pc.trans hidle⟩
  | polling =>
    obtain ⟨hgathered, hpoll⟩ := h
    refine ⟨⟨hgathered.done, hgathered.scans⟩, hpoll.imp ?_ ?_⟩
    · exact fun hfailed => hfailed.same hsame
    · exact fun hdrains => hdrains.same hsame
  | write =>
    obtain ⟨hgathered, hsettled, hidle⟩ := h
    exact ⟨⟨hgathered.done, hgathered.scans⟩, hsettled.same hsame, hsame.pc.trans hidle⟩
  | returned =>
    intro outcome hret
    obtain ⟨hgathered, hsettled, hidle, houtcome⟩ := h outcome hret
    exact ⟨⟨hgathered.done, hgathered.scans⟩, hsettled.same hsame, hsame.pc.trans hidle, houtcome⟩

/-- The runner moves only within a poll. -/
theorem Phase.runner {pc : Pc} (h : Phase build s₀ s pc) {act : Poll.Action}
    (hact : act.runner = true) {poll : Poll.State sys} (hs : Poll.step s.poll act = some poll) :
    Phase build s₀ { s with poll } pc := by
  have hbusy : s.poll.pc ≠ .idle := by
    intro hidle
    rw [Poll.runner_idle hact hidle] at hs
    cases hs
  cases pc with
  | begin => exact absurd h.2.1 hbusy
  | start | scanning => exact absurd h.1.idle hbusy
  | cancel | discarding => trivial
  | finish | pending => exact absurd h.2.2 hbusy
  | polling =>
    obtain ⟨hgathered, hfailed | hdrains⟩ := h
    · exact absurd hfailed.1 hbusy
    · exact ⟨⟨hgathered.done, hgathered.scans⟩, Poll.drains_runner hdrains hact hs⟩
  | write => exact absurd h.2.2 hbusy
  | returned => exact fun outcome hret => absurd (h outcome hret).2.2.1 hbusy

theorem Inv.waiter (h : Inv build s₀ s) (hpc : s.pc = .scanning) {act : ScanTransaction.Action}
    (hact : waits act = true) {wifi : ScanTransaction.State}
    (hs : ScanTransaction.step s.wifi act = some wifi) : Inv build s₀ { s with wifi } := by
  have hphase := h.phase
  rw [hpc] at hphase
  refine .of_pc hpc h.early ?_
  obtain ⟨hcapture, hown | ⟨hidle, hret⟩⟩ := hphase
  · exact ⟨hcapture.frame rfl rfl rfl, .inl (hown.waiter hact hs)⟩
  · -- a call that was refused does not wait
    rw [waiter_idle hact hidle] at hs
    cases hs

theorem vendorDone_of_delivering (h : s.delivering = true) : s.vendorDone = false := by
  unfold State.delivering at h
  split at h
  · cases h
  · cases h
  all_goals exact Bool.not_eq_true' _ |>.mp h

/-- A vendor callback comes before the call has gathered its results. -/
theorem Inv.callback (h : Inv build s₀ s) (hdelivering : s.delivering = true)
    (hpc : t.pc = s.pc) (hret : t.returned = s.returned)
    (hcapture : Capture s₀ s → Capture s₀ t) (hown : Own s → Own t)
    (hidle : s.wifi.caller = .idle → t.wifi.caller = .idle)
    (herror : t.wifi.returned = s.wifi.returned) : Inv build s₀ t := by
  refine ⟨?_, ?_⟩
  · rw [hpc, hret]
    exact h.early
  · have hphase := h.phase
    rw [hpc]
    unfold State.delivering at hdelivering
    cases hcase : s.pc with
    | begin | start =>
      rw [hcase] at hdelivering
      cases hdelivering
    | scanning =>
      rw [hcase] at hphase
      obtain ⟨hc, hwaiter⟩ := hphase
      refine ⟨hcapture hc, hwaiter.imp hown fun hrefused => ?_⟩
      rw [herror]
      exact ⟨hidle hrefused.1, hrefused.2⟩
    | cancel | discarding => trivial
    | finish | pending | polling | write =>
      rw [hcase] at hphase hdelivering
      have hdone := hphase.1.done
      simp [hdone] at hdelivering
    | returned =>
      rw [hcase] at hphase hdelivering
      intro outcome hok
      have hdone := (hphase outcome (hret ▸ hok)).1.done
      simp [hdone] at hdelivering

theorem Inv.scanResult (h : Inv build s₀ s) (hdelivering : s.delivering = true)
    (hdone : s.vendorDone = false) (vendor : VendorScanResult) :
    Inv build s₀ (s.scanResult vendor) := by
  obtain ⟨hcaller, hret⟩ := callback_caller s.wifi vendor
  refine h.callback hdelivering rfl rfl ?_ ?_ ?_ hret
  · exact fun hcapture => hcapture.scanResult hdone vendor
  · exact fun hown => hown.scanResult hdone vendor
  · exact fun hidle => hcaller.trans hidle

theorem Inv.scanDone (h : Inv build s₀ s) (hdelivering : s.delivering = true)
    (hdone : s.vendorDone = false) : Inv build s₀ s.scanDone := by
  have hsame : (s.wifi.scanDone s.wifi.scan 0).caller = s.wifi.caller ∧
      (s.wifi.scanDone s.wifi.scan 0).returned = s.wifi.returned := by
    unfold ScanTransaction.State.scanDone
    split <;> exact ⟨rfl, rfl⟩
  refine h.callback hdelivering rfl rfl ?_ ?_ ?_ hsame.2
  · exact fun hcapture => hcapture.scanDone hdone
  · exact fun hown => hown.scanDone
  · exact fun hidle => hsame.1.trans hidle

/-- `begin_scan_cache_capture` on an empty queue. -/
theorem Starts.capture (h : Starts s₀) (hlane : s.lane = s₀.lane) (hidle : s.poll.pc = .idle)
    (hready : s.poll.portReady = true) (hquiet : Quiet s) :
    Capture s₀ { s with poll := s.poll.beginTransaction, pc := .start } := by
  have hevents : State.events { s with poll := s.poll.beginTransaction, pc := .start } = [] := by
    unfold State.events
    simp only [hquiet.vendor, hquiet.vendorDone]
    rfl
  have hrefusals : State.refusals { s with poll := s.poll.beginTransaction, pc := .start } = 0 := by
    unfold State.refusals
    rw [List.countP_eq_zero]
    simp only [hquiet.vendor]
    nofun
  have hlane' : State.lane { s with poll := s.poll.beginTransaction, pc := .start } = s₀.lane := hlane
  refine ⟨hidle, hready, ?_, ?_, ⟨[], ?_, ?_, nofun⟩, ?_, ?_, ?_, ?_⟩
  · rw [hquiet.vendorDone]
    rfl
  · simp only [hquiet.vendor]
    rfl
  · rw [hlane']
    exact Lane.fifo_nil h.empty h.unguarded
  · rw [hevents]
    rfl
  · rw [hlane']
    exact h.unguarded
  · rw [hlane']
  · rw [hlane']
  · unfold State.drops
    rw [hlane', hrefusals]
    exact (UInt32.add_zero _).symm

theorem Inv.advance (h : Inv build s₀ s) (hstart : Starts s₀) (hs : s.advance build = some t) :
    Inv build s₀ t := by
  have hphase := h.phase
  have hearly : s.returned = none := h.early fun hpc => by
    simp only [State.advance, hpc] at hs
    cases hs
  cases hpc : s.pc with
  | begin =>
    rw [hpc] at hphase
    obtain ⟨hlane, hidle, hquiet⟩ := hphase
    simp only [State.advance, hpc] at hs
    split at hs
    · cases hs
      exact inv_fail s _
    · split at hs
      · rename_i hok
        cases hs
        have hready : s.poll.portReady = true := (Bool.and_eq_true_iff.mp hok).1
        refine ⟨fun _ => hearly, ?_⟩
        exact ⟨hstart.capture hlane hidle hready hquiet, hquiet.vendor, hquiet.vendorDone,
          hquiet.writers, hquiet.idle⟩
      · cases hs
        exact inv_fail s _
  | start =>
    rw [hpc] at hphase
    obtain ⟨hcapture, hquiet⟩ := hphase
    simp only [State.advance, hpc] at hs
    split at hs
    · cases hs
      refine ⟨fun _ => hearly, hcapture.frame rfl rfl rfl, ?_⟩
      cases hactive : s.wifi.active with
      | false => exact .inl (own_start hactive hquiet.writers hquiet.vendor)
      | true =>
        -- another scan is underway
        refine .inr ?_
        unfold ScanTransaction.State.startScan
        rw [hactive, if_pos rfl]
        exact ⟨hquiet.idle, _, rfl⟩
    · cases hs
      exact ⟨fun _ => hearly, trivial⟩
  | scanning =>
    rw [hpc] at hphase
    obtain ⟨hcapture, hwaiter⟩ := hphase
    simp only [State.advance, hpc] at hs
    split at hs
    · split at hs
      · rename_i scans hret
        cases hs
        obtain hown | ⟨-, e, he⟩ := hwaiter
        · obtain ⟨hdone, hscans⟩ := hown.scans hret
          exact ⟨fun _ => hearly, ⟨hdone, hscans⟩, hcapture.drains,
            hcapture.idle⟩
        · rw [hret] at he
          cases he
      · cases hs
        exact ⟨fun _ => hearly, trivial⟩
      · cases hs
    · cases hs
  | cancel e =>
    simp only [State.advance, hpc] at hs
    cases hs
    exact ⟨fun _ => hearly, trivial⟩
  | discarding e =>
    simp only [State.advance, hpc] at hs
    split at hs
    · cases hs
      exact inv_fail s _
    · cases hs
  | finish =>
    rw [hpc] at hphase
    obtain ⟨hgathered, hdrains, hidle⟩ := hphase
    simp only [State.advance, hpc] at hs
    split at hs
    · cases hs
      exact inv_fail s _
    · cases hs
      exact ⟨fun _ => hearly, ⟨hgathered.done, hgathered.scans⟩, hdrains, hidle⟩
  | pending =>
    rw [hpc] at hphase
    obtain ⟨hgathered, hdrains, hidle⟩ := hphase
    simp only [State.advance, hpc] at hs
    split at hs
    · cases hs
      refine ⟨fun _ => hearly, ⟨hgathered.done, hgathered.scans⟩, .inr ?_⟩
      refine hdrains.frame rfl ?_ ?_ nofun
      · rw [hidle]
        rfl
      · rw [hidle]
        rfl
    · rename_i hempty
      cases hs
      have hfree := Queue.hasPending_eq_false (Bool.eq_false_iff.mpr hempty)
      obtain ⟨fed, hfed, hevents, hheld, hstored, hdrops⟩ :=
        hdrains.lane.all_fed hgathered.events_ne_nil hfree
      exact ⟨fun _ => hearly, ⟨hgathered.done, hgathered.scans⟩,
        ⟨⟨fed, hfed, hevents⟩, hheld, hstored, hdrops⟩, hidle⟩
  | polling =>
    rw [hpc] at hphase
    obtain ⟨hgathered, hpoll⟩ := hphase
    simp only [State.advance, hpc] at hs
    split at hs
    · rename_i hidle
      split at hs
      · rename_i r hret
        cases hs
        obtain ⟨-, e, he⟩ | hdrains := hpoll
        · rw [hret] at he
          cases he
        · exact ⟨fun _ => hearly, ⟨hgathered.done, hgathered.scans⟩, hdrains,
            hidle⟩
      · cases hs
        exact inv_fail s _
      · cases hs
    · cases hs
  | write =>
    rw [hpc] at hphase
    obtain ⟨hgathered, hsettled, hidle⟩ := hphase
    simp only [State.advance, hpc] at hs
    cases hs
    refine ⟨fun hne => absurd rfl hne, fun outcome hret => ?_⟩
    cases hret
    exact ⟨⟨hgathered.done, hgathered.scans⟩,
      ⟨hsettled.fed, hsettled.held, hsettled.stored, hsettled.drops⟩, hidle, rfl⟩
  | returned =>
    simp only [State.advance, hpc] at hs
    cases hs

theorem inv_step (hstart : Starts s₀) (h : Inv build s₀ s) {a : Action}
    (hs : step build s a = some t) : Inv build s₀ t := by
  cases a with
  | supplicant act =>
    simp only [step] at hs
    split at hs
    · rename_i hact
      obtain ⟨poll, hpoll, rfl⟩ := Option.map_eq_some_iff.mp hs
      refine ⟨h.early, ?_⟩
      rcases Bool.or_eq_true_iff.mp hact with hforeign | hrunner
      · exact h.phase.foreign (Poll.sameScan_foreign hforeign hpoll)
      · exact h.phase.runner hrunner hpoll
    · cases hs
  | waiter act =>
    simp only [step] at hs
    split at hs
    · rename_i hact
      obtain ⟨wifi, hwifi, rfl⟩ := Option.map_eq_some_iff.mp hs
      exact h.waiter hact.1 hact.2 hwifi
    · cases hs
  | advance => exact h.advance hstart hs
  | scanResult vendor =>
    obtain ⟨hdelivering, hs⟩ := Option.ite_none_right_eq_some.mp hs
    cases hs
    exact h.scanResult hdelivering (vendorDone_of_delivering hdelivering) vendor
  | scanDone =>
    obtain ⟨hdelivering, hs⟩ := Option.ite_none_right_eq_some.mp hs
    cases hs
    exact h.scanDone hdelivering (vendorDone_of_delivering hdelivering)

end Inv

/-! ## §6 Main results -/

section Main

variable {build : Build Ssid} {s₀ s : State sys Ssid}

/-- A network is written for a result in the list whose SSID parses. -/
theorem mem_writeResults {outputLen : Nat} {w : Network Ssid} (scans : List ScanResult)
    (written : List (Network Ssid)) (h : w ∈ writeResults build outputLen scans written) :
    w ∈ written ∨ ∃ scan ∈ scans, ∃ ssid, build.tryFromBytes scan.ssidBytes = some ssid ∧
      w = network build ssid scan := by
  induction scans generalizing written with
  | nil => exact .inl h
  | cons scan scans ih =>
    unfold writeResults at h
    split at h
    · obtain hw | ⟨scan', hmem, hscan⟩ := ih written h
      · exact .inl hw
      · exact .inr ⟨scan', List.mem_cons_of_mem _ hmem, hscan⟩
    · rename_i ssid hssid
      split at h
      · exact .inl h
      · obtain hw | ⟨scan', hmem, hscan⟩ := ih _ h
        · rcases List.mem_append.mp hw with hw | hw
          · exact .inl hw
          · exact .inr ⟨scan, List.mem_cons_self .., ssid, hssid, List.mem_singleton.mp hw⟩
        · exact .inr ⟨scan', List.mem_cons_of_mem _ hmem, hscan⟩

/-- A poll that has passed its overflow check shows that nothing was refused. -/
theorem Settled.refusals_eq_zero (h : Settled s₀ s) (hdrops : s₀.unseen + s.refusals < 2 ^ 32) :
    s.refusals = 0 := by
  have hnum := congrArg UInt32.toNat h.drops
  unfold State.unseen at hdrops
  unfold State.drops at hnum
  rw [UInt32.toNat_add, UInt32.toNat_ofNat'] at hnum
  rw [UInt32.toNat_sub] at hdrops
  have := s₀.lane.queue.dropped.toNat_lt
  have := s₀.lane.droppedSeen.toNat_lt
  omega

/-- With no refusal, what is visible has been queued. -/
theorem queued_of_visible (hrefusals : s.refusals = 0) {vendor : VendorScanResult}
    (hmem : vendor ∈ s.vendor.take maxScanResults)
    (hssid : (ScanResult.ofVendor vendor).ssidBytes ≠ []) :
    ∃ e ∈ queued sys s.vendor, MadeFrom Clamped (.ofVendor vendor) e := by
  obtain ⟨e, hevent, hmade⟩ := hostapEvent_of_ssid hssid
  have hnot := List.countP_eq_zero.mp hrefusals vendor (List.mem_of_mem_take hmem)
  unfold refused at hnot
  rw [hevent, Option.any_some] at hnot
  refine ⟨e, mem_take_filterMap hmem ?_, hmade⟩
  unfold accepted
  rw [hevent, Option.filter_some, if_pos (by simpa using hnot)]

theorem isDone_of_queued {vs : List VendorScanResult} {e : ScanEvent} (h : e ∈ queued sys vs) :
    e.isDone = false := by
  obtain ⟨vendor, -, haccepted⟩ := List.mem_filterMap.mp (List.mem_of_mem_take h)
  obtain ⟨hevent, -⟩ := Option.filter_eq_some_iff.mp haccepted
  obtain ⟨ies, -, rfl⟩ := Option.map_eq_some_iff.mp hevent
  rfl

/-- **Every network a native scan shows is known to hostap**, the frequency up
to clamping, unless 2³² results are refused. -/
theorem native_scan_known (build : Build Ssid) (s₀ s : State sys Ssid) (as : List Action)
    (outcome : Outcome Ssid) (hstart : Starts s₀) (h : Steps (step build) Always s₀ as s)
    (hret : s.returned = some (.ok outcome)) (hdrops : s₀.unseen + s.refusals < 2 ^ 32) :
    Known Clamped build s₀ s outcome := by
  have hinv : Inv build s₀ s := h.invariant hstart.inv fun t a u ht _ hs => inv_step hstart ht hs
  have hpc : s.pc = .returned := by
    by_contra hne
    rw [hinv.early hne] at hret
    cases hret
  have hphase := hinv.phase
  rw [hpc] at hphase
  obtain ⟨hgathered, hsettled, -, rfl⟩ := hphase outcome hret
  have hrefusals := hsettled.refusals_eq_zero hdrops
  obtain ⟨fed, hfed, hevents⟩ := hsettled.fed
  unfold State.events at hevents
  rw [if_pos hgathered.done] at hevents
  obtain ⟨results, lasts, rfl, hresults, hlasts⟩ := List.map_eq_append_iff.mp hevents
  obtain ⟨last, rfl, hlast⟩ := List.map_eq_singleton_iff.mp hlasts
  refine ⟨hsettled.held, hsettled.stored, results, last, ?_, hlast, fun x hx => ?_, fun w hw => ?_⟩
  · rw [hfed, List.append_assoc]
  · have hmem : x.2 ∈ queued sys s.vendor := hresults ▸ List.mem_map_of_mem hx
    exact isDone_of_queued hmem
  · obtain hw | ⟨scan, hscan, ssid, hssid, rfl⟩ := mem_writeResults s.scans [] hw
    · cases hw
    refine ⟨scan, ssid, hssid, rfl, fun hne => ?_⟩
    obtain ⟨n, hn, hscans⟩ := hgathered.scans
    rw [hscans, ← List.map_take] at hscan
    obtain ⟨vendor, hvendor, rfl⟩ := List.mem_map.mp hscan
    obtain ⟨e, he, hmade⟩ :=
      queued_of_visible hrefusals (List.take_subset_take_left _ hn hvendor) hne
    rw [← hresults] at he
    obtain ⟨x, hx, rfl⟩ := List.mem_map.mp he
    exact ⟨x, hx, hmade⟩

/-- An SSID is any string of at most 32 bytes. -/
def plainBuild : Build (List UInt8) where
  tryFromBytes bytes := if bytes.length ≤ 32 then some bytes else none
  wpa3 := false

/-- An open network called `A`. -/
def openNetwork (frequency : Int32) : VendorScanResult where
  flags := 0
  bssid := Vector.replicate 6 1
  capabilities := 0
  frequency
  beaconInterval := 100
  quality := 0
  beaconIeLen := 0
  level := 0
  age := 0
  ieLen := 3
  elements := some [0, 1, 65]
  readable := by simp

/-- A call on a supplicant that has last seen the drop count `droppedSeen`. -/
def beginning (sys : RadioSys) (droppedSeen : UInt32) : State sys (List UInt8) where
  poll :=
    { Poll.init sys with
      lanes k := { Lane.new (k.layout sys) with droppedSeen := if k = .scan then droppedSeen else 0 } }
  wifi := ScanTransaction.init
  pc := .begin
  hasSupplicant := true
  hasWifi := true
  scans := []
  timeoutMs := 1000
  outputLen := 4
  returned := none
  vendor := []
  vendorDone := false

theorem starts_beginning (sys : RadioSys) (droppedSeen : UInt32) :
    Starts (beginning sys droppedSeen) :=
  ⟨rfl, rfl, rfl, rfl, fun _ => rfl, rfl, rfl, rfl, rfl⟩

/-- A scan that finds one network, with a poll of so many steps. -/
def oneNetworkRun (frequency : Int32) (steps : Nat) : List Action :=
  [.advance, .advance, .scanResult (openNetwork frequency), .waiter (.ioctlReturns 0), .scanDone,
    .waiter (.clock 0), .waiter .advance, .waiter .advance, .waiter .advance, .waiter .advance,
    .advance, .advance, .advance] ++
  List.replicate steps (.supplicant (.advance 0)) ++
  [.supplicant (.hostapReturns ⟨0, 0⟩), .advance, .advance, .advance]

/-- The networks written, if the call has succeeded. -/
def State.shown (s : State sys Ssid) : Option (List (Network Ssid)) :=
  s.returned.bind fun result => result.toOption.map Outcome.written

theorem shown_eq_some {written : List (Network Ssid)} (h : s.shown = some written) :
    ∃ outcome, s.returned = some (.ok outcome) ∧ outcome.written = written := by
  obtain ⟨result, hresult, hok⟩ := Option.bind_eq_some_iff.mp h
  cases result with
  | error e => cases hok
  | ok outcome => exact ⟨outcome, hresult, Option.some.inj hok⟩

theorem native_scan_known_sample :
    ∃ (s : State ⟨2304, 1⟩ (List UInt8)) (outcome : Outcome (List UInt8)),
      s.returned = some (.ok outcome) ∧ outcome.written.map Network.ssid = [[65]] ∧
        Known Clamped plainBuild (beginning ⟨2304, 1⟩ 0) s outcome := by
  have hrun : (run (step plainBuild) (beginning ⟨2304, 1⟩ 0) (oneNetworkRun 2412 13)).map
      (fun s => (s.shown.map (List.map Network.ssid), s.refusals)) = some (some [[65]], 0) := by
    decide +kernel
  obtain ⟨s, hs, hlast⟩ := Option.map_eq_some_iff.mp hrun
  obtain ⟨hshown, hrefusals⟩ := Prod.mk.inj hlast
  obtain ⟨written, hwritten, hssids⟩ := Option.map_eq_some_iff.mp hshown
  obtain ⟨outcome, hret, rfl⟩ := shown_eq_some hwritten
  have hdrops : (beginning ⟨2304, 1⟩ 0).unseen + s.refusals < 2 ^ 32 := by
    rw [hrefusals]
    decide
  exact ⟨s, outcome, hret, hssids,
    native_scan_known plainBuild _ s _ outcome (starts_beginning _ _) (Steps.of_run hs) hret hdrops⟩

/-- What is shown as `A` has been fed, if hostap knows the networks shown. -/
theorem Known.exists_fed {frequency : Int32 → UInt16 → Prop} {s₀ s : State sys (List UInt8)}
    {outcome : Outcome (List UInt8)} (h : Known frequency plainBuild s₀ s outcome)
    (hssids : outcome.written.map Network.ssid = [[65]]) :
    ∃ x ∈ s.lane.fed, ScanEvent.isDone x.2 = false ∧
      ∃ scan, MadeFrom frequency scan x.2 := by
  obtain ⟨-, -, results, last, hfed, -, hkinds, hwritten⟩ := h
  obtain ⟨w, hw, hssid⟩ := List.map_eq_singleton_iff.mp hssids
  obtain ⟨scan, ssid, hparse, rfl, hmade⟩ := hwritten w (by rw [hw]; exact List.mem_singleton_self w)
  obtain ⟨-, hbytes⟩ := Option.ite_none_right_eq_some.mp hparse
  have hne : scan.ssidBytes ≠ [] := by
    rw [Option.some.inj hbytes]
    change (network plainBuild ssid scan).ssid ≠ []
    rw [hssid]
    exact List.cons_ne_nil _ _
  obtain ⟨x, hx, hscan⟩ := hmade hne
  refine ⟨x, ?_, hkinds x hx, scan, hscan⟩
  rw [hfed]
  exact List.mem_append_left _ (List.mem_append_right _ hx)

/-- Neither the clamping nor the bound on refusals can be left out: a frequency
of 70000 is shown as 65535; and when the drop counter has wrapped, a refused
network is shown that hostap was never given. -/
theorem native_scan_unknown :
    (¬ ∀ (sys : RadioSys) (build : Build (List UInt8)) (s₀ s : State sys (List UInt8))
        (as : List Action) (outcome : Outcome (List UInt8)),
        Starts s₀ → Steps (step build) Always s₀ as s → s.returned = some (.ok outcome) →
          s₀.unseen + s.refusals < 2 ^ 32 → Known Same build s₀ s outcome) ∧
      ¬ ∀ (sys : RadioSys) (build : Build (List UInt8)) (s₀ s : State sys (List UInt8))
        (as : List Action) (outcome : Outcome (List UInt8)),
        Starts s₀ → Steps (step build) Always s₀ as s → s.returned = some (.ok outcome) →
          Known Clamped build s₀ s outcome := by
  constructor
  · intro h
    have hrun : (run (step plainBuild) (beginning ⟨2304, 1⟩ 0) (oneNetworkRun 70000 13)).map
        (fun s => (s.shown.map (List.map Network.ssid), s.refusals,
          s.lane.fed.all fun x => ScanEvent.isDone x.2 || x.2.metadata.frequencyMhz == 70000)) =
        some (some [[65]], 0, true) := by decide +kernel
    obtain ⟨s, hs, hlast⟩ := Option.map_eq_some_iff.mp hrun
    obtain ⟨hshown, hlast⟩ := Prod.mk.inj hlast
    obtain ⟨hrefusals, hfed⟩ := Prod.mk.inj hlast
    obtain ⟨written, hwritten, hssids⟩ := Option.map_eq_some_iff.mp hshown
    obtain ⟨outcome, hret, rfl⟩ := shown_eq_some hwritten
    have hdrops : (beginning ⟨2304, 1⟩ 0).unseen + s.refusals < 2 ^ 32 := by
      rw [hrefusals]
      decide
    have hknown := h _ plainBuild _ s _ outcome (starts_beginning _ _) (Steps.of_run hs) hret hdrops
    obtain ⟨x, hx, hkind, scan, hmade⟩ := hknown.exists_fed hssids
    have hfrequency : ScanMeta.frequencyMhz x.2.metadata = 70000 := by
      simpa [hkind] using List.all_eq_true.mp hfed x hx
    have hsame := hmade.frequency
    rw [hfrequency] at hsame
    have := scan.frequencyMhz.toNat_lt
    have h70000 : (70000 : Int32).toInt = 70000 := by decide
    unfold Same at hsame
    omega
  · intro h
    have hrun : (run (step plainBuild) (beginning ⟨2, 1⟩ 1) (oneNetworkRun 2412 11)).map
        (fun s => (s.shown.map (List.map Network.ssid),
          s.lane.fed.all fun x => ScanEvent.isDone x.2)) = some (some [[65]], true) := by
      decide +kernel
    obtain ⟨s, hs, hlast⟩ := Option.map_eq_some_iff.mp hrun
    obtain ⟨hshown, hfed⟩ := Prod.mk.inj hlast
    obtain ⟨written, hwritten, hssids⟩ := Option.map_eq_some_iff.mp hshown
    obtain ⟨outcome, hret, rfl⟩ := shown_eq_some hwritten
    have hknown := h _ plainBuild _ s _ outcome (starts_beginning _ _) (Steps.of_run hs) hret
    obtain ⟨x, hx, hkind, -⟩ := hknown.exists_fed hssids
    rw [List.all_eq_true.mp hfed x hx] at hkind
    cases hkind

end Main

end HisiRiscv.Wifi.NativeScan
