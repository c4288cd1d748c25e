/-
HisiRiscv.Netif.Classifier — the packet classifiers of `netif_smoltcp.rs` against the formats.

`has_udp_ports` and `diagnostic_echo_reply_sequence` look for a UDP packet and for an ICMP
echo reply in a received frame. The formats are stated by composition: an `Ipv4Frame` is the
fields of an Ethernet II frame that carries an IPv4 packet, and its `bytes` are the fields one
after the other. Neither function looks at the fragment offset, and the first accepts a header
length below 20.

Translation notes. Here an access is checked: none is an index out of range. The functions
of the bridge, whose accesses are total, have the same results (`hasUdpPorts?_eq`,
`diagnosticEchoReplySequence?_eq`), so no access is out of range.

  §1 The functions with checked accesses.
  §2 The formats.
  §3 The fields of a frame.
  §4 Main results.
-/
import Mathlib.Algebra.Group.Nat.Defs
import HisiRiscv.Netif.Bridge

namespace HisiRiscv.Netif

/-! ## §1 The functions with checked accesses -/

/-- `frame[start..start + len]`. -/
def slice? (frame : List UInt8) (start len : ℕ) : Option (List UInt8) :=
  if start + len ≤ frame.length then some (slice frame start len) else none

/-- The first test of both functions. -/
def isIpv4? (frame : List UInt8) (protocol : UInt8) (len : ℕ) : Option Bool := do
  if frame.length < ethernetHeaderLen + ipv4MinHeaderLen + len then return false
  if (← slice? frame 12 2) ≠ [0x08, 0x00] then return false
  let version : UInt8 ← frame[14]?
  if version >>> 4 ≠ 4 then return false
  return (← frame[23]?) == protocol

def hasUdpPorts? (frame : List UInt8) (sourcePort destinationPort : UInt16) : Option Bool := do
  if !(← isIpv4? frame 17 udpHeaderLen) then return false
  let version : UInt8 ← frame[14]?
  let udp := ethernetHeaderLen + (version &&& 0x0f).toNat * 4
  if frame.length < udp + udpHeaderLen then return false
  if (← slice? frame udp 2) ≠ toBeBytes sourcePort then return false
  return (← slice? frame (udp + 2) 2) == toBeBytes destinationPort

def diagnosticEchoReplySequence? (frame : List UInt8) : Option (Option UInt16) := do
  if !(← isIpv4? frame 1 icmpEchoHeaderLen) then return none
  let version : UInt8 ← frame[14]?
  let headerLen := (version &&& 0x0f).toNat * 4
  if headerLen < ipv4MinHeaderLen then return none
  let icmp := ethernetHeaderLen + headerLen
  if frame.length < icmp + icmpEchoHeaderLen then return none
  if (← frame[icmp]?) ≠ 0 then return none
  if (← slice? frame (icmp + 4) 2) ≠ diagnosticEchoIdentifier then return none
  let high ← frame[icmp + 6]?
  let low ← frame[icmp + 7]?
  return some (high.toUInt16 <<< 8 ||| low.toUInt16)

variable {frame : List UInt8}

theorem getElem?_of_lt {i : ℕ} (h : i < frame.length) : frame[i]? = some (byteAt frame i) := by
  simp [byteAt, h]

theorem slice?_of_le {start len : ℕ} (h : start + len ≤ frame.length) :
    slice? frame start len = some (slice frame start len) := if_pos h

theorem isIpv4?_eq (frame : List UInt8) (protocol : UInt8) (len : ℕ) :
    isIpv4? frame protocol len = some (isIpv4 frame protocol len) := by
  by_cases hlen : ethernetHeaderLen + ipv4MinHeaderLen + len ≤ frame.length
  · have hmin : 34 ≤ frame.length := Nat.le_trans (Nat.le_add_right 34 len) hlen
    rw [isIpv4?, if_neg (Nat.not_lt.mpr hlen), slice?_of_le (by omega), getElem?_of_lt (i := 14) (by omega),
      getElem?_of_lt (i := 23) (by omega)]
    simp only [isIpv4, hlen]
    by_cases htype : slice frame 12 2 = [0x08, 0x00] <;>
      by_cases hversion : byteAt frame 14 >>> 4 = 4 <;> simp [htype, hversion]
  · rw [isIpv4?, if_pos (by omega)]
    simp [isIpv4, hlen]

theorem length_of_isIpv4 {protocol : UInt8} {len : ℕ} (h : isIpv4 frame protocol len = true) :
    34 + len ≤ frame.length := by
  simp only [isIpv4, Bool.and_eq_true, decide_eq_true_eq] at h
  exact h.1.1.1

theorem hasUdpPorts?_eq (frame : List UInt8) (sourcePort destinationPort : UInt16) :
    hasUdpPorts? frame sourcePort destinationPort =
      some (hasUdpPorts frame sourcePort destinationPort) := by
  rw [hasUdpPorts?, isIpv4?_eq, hasUdpPorts, ipv4HeaderLen]
  by_cases hip : isIpv4 frame 17 udpHeaderLen = true
  · have hmin := length_of_isIpv4 hip
    have hversion : frame[14]? = some (byteAt frame 14) := getElem?_of_lt (by omega)
    simp only [hip, hversion, Option.bind_eq_bind, Option.bind_some, Bool.not_true,
      Bool.false_eq_true, if_false, if_true]
    generalize (byteAt frame 14 &&& 0x0f).toNat * 4 = len
    by_cases hlen : ethernetHeaderLen + len + udpHeaderLen ≤ frame.length
    · have hsource : slice? frame (ethernetHeaderLen + len) 2 = _ :=
        slice?_of_le (Nat.le_trans (Nat.add_le_add_left (by decide) _) hlen)
      have hdestination : slice? frame (ethernetHeaderLen + len + 2) 2 = _ :=
        slice?_of_le (Nat.le_trans (Nat.add_le_add_left (show 2 + 2 ≤ udpHeaderLen by decide) _) hlen)
      by_cases hport : slice frame (ethernetHeaderLen + len) 2 = toBeBytes sourcePort <;>
        simp [hlen, Nat.not_lt.mpr hlen, hsource, hdestination, hport]
    · simp [hlen, Nat.not_le.mp hlen]
  · simp [hip]

theorem diagnosticEchoReplySequence?_eq (frame : List UInt8) :
    diagnosticEchoReplySequence? frame = some (diagnosticEchoReplySequence frame) := by
  rw [diagnosticEchoReplySequence?, isIpv4?_eq, diagnosticEchoReplySequence, ipv4HeaderLen]
  by_cases hip : isIpv4 frame 1 icmpEchoHeaderLen = true
  · have hmin := length_of_isIpv4 hip
    have hversion : frame[14]? = some (byteAt frame 14) := getElem?_of_lt (by omega)
    simp only [hip, hversion, Option.bind_eq_bind, Option.bind_some, Bool.not_true,
      Bool.false_eq_true, if_false]
    generalize (byteAt frame 14 &&& 0x0f).toNat * 4 = len
    by_cases hlen : frame.length < ethernetHeaderLen + len + icmpEchoHeaderLen
    · simp [hlen]
    · have hle := Nat.not_lt.mp hlen
      have hat : ∀ i < icmpEchoHeaderLen, frame[ethernetHeaderLen + len + i]? =
          some (byteAt frame (ethernetHeaderLen + len + i)) := by
        intro i hi
        exact getElem?_of_lt (by omega)
      have hidentifier : slice? frame (ethernetHeaderLen + len + 4) 2 = _ :=
        slice?_of_le (Nat.le_trans (Nat.add_le_add_left (show 4 + 2 ≤ icmpEchoHeaderLen by decide) _) hle)
      by_cases hshort : len < ipv4MinHeaderLen <;>
        by_cases htype : byteAt frame (ethernetHeaderLen + len) = 0 <;>
        by_cases hid : slice frame (ethernetHeaderLen + len + 4) 2 = diagnosticEchoIdentifier <;>
        simp [hlen, hshort, htype, hid, hidentifier, hat 6 (by decide), hat 7 (by decide),
          show frame[ethernetHeaderLen + len]? = _ from hat 0 (by decide)]
  · simp [hip]

/-! ## §2 The formats -/

/-- An Ethernet II frame that carries an IPv4 packet. -/
structure Ipv4Frame where
  /-- destination and source of the frame -/
  stations : List UInt8
  stations_length : stations.length = 12
  /-- the header length, in words of four bytes -/
  words : ℕ
  words_lt : words < 16
  service : UInt8
  /-- total length and identification -/
  lengthAndId : List UInt8
  lengthAndId_length : lengthAndId.length = 4
  flags : ℕ
  flags_lt : flags < 8
  fragmentOffset : ℕ
  fragmentOffset_lt : fragmentOffset < 2 ^ 13
  timeToLive : UInt8
  protocol : UInt8
  /-- header checksum, source and destination of the packet -/
  checksumAndHosts : List UInt8
  checksumAndHosts_length : checksumAndHosts.length = 10
  options : List UInt8
  options_length : 20 + options.length = words * 4
  payload : List UInt8

/-- The type field, the version and the header length, and the type of service. -/
def Ipv4Frame.start (p : Ipv4Frame) : List UInt8 :=
  [0x08, 0x00, UInt8.ofNat (0x40 + p.words), p.service]

/-- The flags and the fragment offset, the time to live and the protocol. -/
def Ipv4Frame.middle (p : Ipv4Frame) : List UInt8 :=
  [UInt8.ofNat (p.flags * 32 + p.fragmentOffset / 256), UInt8.ofNat p.fragmentOffset,
    p.timeToLive, p.protocol]

def Ipv4Frame.bytes (p : Ipv4Frame) : List UInt8 :=
  p.stations ++ (p.start ++ (p.lengthAndId ++ (p.middle ++ (p.checksumAndHosts ++
    (p.options ++ p.payload)))))

/-- A first fragment with a UDP header with the ports. -/
def IsUdp (frame : List UInt8) (sourcePort destinationPort : UInt16) : Prop :=
  ∃ p : Ipv4Frame, p.bytes = frame ∧ p.protocol = 17 ∧ p.fragmentOffset = 0 ∧
    ∃ lengthAndChecksum data, lengthAndChecksum.length = 4 ∧
      p.payload = toBeBytes sourcePort ++ (toBeBytes destinationPort ++ (lengthAndChecksum ++ data))

/-- A first fragment with an echo reply with the diagnostic identifier and the sequence. -/
def IsEchoReply (frame : List UInt8) (sequence : UInt16) : Prop :=
  ∃ p : Ipv4Frame, p.bytes = frame ∧ p.protocol = 1 ∧ p.fragmentOffset = 0 ∧
    ∃ codeAndChecksum data, codeAndChecksum.length = 3 ∧
      p.payload = 0 :: (codeAndChecksum ++ (diagnosticEchoIdentifier ++ (toBeBytes sequence ++ data)))

/-! ## §3 The fields of a frame -/

/-- The fragment offset, where a header has it. -/
def fragmentOffset (frame : List UInt8) : ℕ :=
  (byteAt frame 20).toNat % 32 * 256 + (byteAt frame 21).toNat

theorem byteAt_drop (frame : List UInt8) (k i : ℕ) : byteAt (frame.drop k) i = byteAt frame (k + i) := by
  simp [byteAt, List.getD_eq_getElem?_getD, List.getElem?_drop]

theorem byteAt_append {bytes : List UInt8} {i : ℕ} (h : i < bytes.length) (rest : List UInt8) :
    byteAt (bytes ++ rest) i = byteAt bytes i := by
  simp [byteAt, List.getElem?_append_left h]

theorem slice_append_drop (frame : List UInt8) (start len : ℕ) :
    slice frame start len ++ frame.drop (start + len) = frame.drop start := by
  rw [slice, ← List.drop_drop, List.take_append_drop]

theorem length_slice {start len : ℕ} (h : start + len ≤ frame.length) :
    (slice frame start len).length = len := by
  rw [slice, List.length_take, List.length_drop]
  omega

theorem slice_succ {start len : ℕ} (h : start < frame.length) :
    slice frame start (len + 1) = byteAt frame start :: slice frame (start + 1) len := by
  rw [slice, slice, List.drop_eq_getElem_cons h, List.take_succ_cons]
  simp [byteAt, h]

theorem slice_zero (frame : List UInt8) (start : ℕ) : slice frame start 0 = [] := List.take_zero

theorem slice_two {start : ℕ} (h : start + 2 ≤ frame.length) :
    slice frame start 2 = [byteAt frame start, byteAt frame (start + 1)] := by
  rw [slice_succ (by omega), slice_succ (by omega), slice_zero]

theorem slice_four {start : ℕ} (h : start + 4 ≤ frame.length) : slice frame start 4 =
    [byteAt frame start, byteAt frame (start + 1), byteAt frame (start + 2),
      byteAt frame (start + 3)] := by
  rw [slice_succ (by omega), slice_succ (by omega), slice_two (by omega)]

theorem toNat_shiftRight_four (b : UInt8) : (b >>> 4).toNat = b.toNat / 16 := by
  rw [UInt8.toNat_shiftRight]
  exact Nat.shiftRight_eq_div_pow _ 4

theorem toNat_and_0f (b : UInt8) : (b &&& 0x0f).toNat = b.toNat % 16 := by
  rw [UInt8.toNat_and]
  exact Nat.and_two_pow_sub_one_eq_mod _ 4

variable (p : Ipv4Frame)

theorem Ipv4Frame.drop_stations : p.bytes.drop 12 = p.start ++ (p.lengthAndId ++ (p.middle ++
    (p.checksumAndHosts ++ (p.options ++ p.payload)))) := List.drop_left' p.stations_length

theorem Ipv4Frame.drop_lengthAndId : p.bytes.drop 20 = p.middle ++
    (p.checksumAndHosts ++ (p.options ++ p.payload)) := by
  rw [show 20 = 12 + (4 + 4) from rfl, ← List.drop_drop, p.drop_stations, ← List.drop_drop,
    List.drop_left' (show p.start.length = 4 from rfl), List.drop_left' p.lengthAndId_length]

theorem Ipv4Frame.drop_header : p.bytes.drop (14 + p.words * 4) = p.payload := by
  rw [show 14 + p.words * 4 = 20 + (4 + (10 + p.options.length)) by
      have hlen := p.options_length
      omega, ← List.drop_drop, p.drop_lengthAndId, ← List.drop_drop,
    List.drop_left' (show p.middle.length = 4 from rfl), ← List.drop_drop, List.drop_left' p.checksumAndHosts_length, List.drop_left' rfl]

theorem Ipv4Frame.length_bytes : p.bytes.length = 14 + p.words * 4 + p.payload.length := by
  simp only [bytes, start, middle, List.length_append, List.length_cons, List.length_nil,
    p.stations_length, p.lengthAndId_length, p.checksumAndHosts_length, ← p.options_length]
  omega

theorem Ipv4Frame.byteAt_start {i : ℕ} (h : i < 4) : byteAt p.bytes (12 + i) = byteAt p.start i := by
  rw [← byteAt_drop, p.drop_stations, byteAt_append h]

theorem Ipv4Frame.byteAt_middle {i : ℕ} (h : i < 4) :
    byteAt p.bytes (20 + i) = byteAt p.middle i := by
  rw [← byteAt_drop, p.drop_lengthAndId, byteAt_append h]

theorem Ipv4Frame.toNat_version : (UInt8.ofNat (0x40 + p.words)).toNat = 0x40 + p.words := by
  have hlt := p.words_lt
  exact UInt8.toNat_ofNat_of_lt' (show 0x40 + p.words < 256 by omega)

theorem Ipv4Frame.headerLen_bytes : ipv4HeaderLen p.bytes = p.words * 4 := by
  have hlt := p.words_lt
  rw [ipv4HeaderLen, p.byteAt_start (i := 2) (by decide), toNat_and_0f]
  show (UInt8.ofNat (0x40 + p.words)).toNat % 16 * 4 = p.words * 4
  rw [p.toNat_version]
  omega

theorem Ipv4Frame.fragmentOffset_bytes : Netif.fragmentOffset p.bytes = p.fragmentOffset := by
  have hflags := p.flags_lt
  have hoffset := p.fragmentOffset_lt
  rw [Netif.fragmentOffset, p.byteAt_middle (i := 0) (by decide),
    p.byteAt_middle (i := 1) (by decide)]
  show (UInt8.ofNat (p.flags * 32 + p.fragmentOffset / 256)).toNat % 32 * 256 +
    (UInt8.ofNat p.fragmentOffset).toNat = p.fragmentOffset
  rw [UInt8.toNat_ofNat', UInt8.toNat_ofNat']
  omega

theorem Ipv4Frame.isIpv4_bytes {len : ℕ} (h : len ≤ p.payload.length) :
    isIpv4 p.bytes p.protocol len = true := by
  have hlen : 34 + len ≤ p.bytes.length := by
    have hoptions := p.options_length
    rw [p.length_bytes]
    omega
  have htype : slice p.bytes 12 2 = [0x08, 0x00] := by
    rw [slice, p.drop_stations]
    rfl
  have hversion : byteAt p.bytes 14 >>> 4 = 4 := by
    rw [← UInt8.toNat_inj, toNat_shiftRight_four, p.byteAt_start (i := 2) (by decide)]
    show (UInt8.ofNat (0x40 + p.words)).toNat / 16 = 4
    have hlt := p.words_lt
    rw [p.toNat_version]
    omega
  have hprotocol : byteAt p.bytes 23 = p.protocol := p.byteAt_middle (i := 3) (by decide)
  have hlen' : ethernetHeaderLen + ipv4MinHeaderLen + len ≤ p.bytes.length := hlen
  simp [isIpv4, htype, hversion, hprotocol, hlen']

/-- A frame with room for its header is the bytes of its fields. -/
theorem exists_ipv4Frame {protocol : UInt8} {len : ℕ} (hip : isIpv4 frame protocol len = true)
    (hmin : ipv4MinHeaderLen ≤ ipv4HeaderLen frame)
    (hlen : ethernetHeaderLen + ipv4HeaderLen frame ≤ frame.length) :
    ∃ p : Ipv4Frame, p.bytes = frame ∧ p.protocol = protocol := by
  have hframe : 34 ≤ frame.length := Nat.le_of_add_right_le (length_of_isIpv4 hip)
  simp only [isIpv4, Bool.and_eq_true, decide_eq_true_eq, beq_iff_eq] at hip
  obtain ⟨⟨⟨-, htype⟩, hversion⟩, hprotocol⟩ := hip
  have hlen' : 14 + ipv4HeaderLen frame ≤ frame.length := hlen
  have hmin' : 20 ≤ ipv4HeaderLen frame := hmin
  have hwords : ipv4HeaderLen frame = (byteAt frame 14).toNat % 16 * 4 := by
    rw [ipv4HeaderLen, toNat_and_0f]
  have hfirst := (byteAt frame 20).toNat_lt
  have hsecond := (byteAt frame 21).toNat_lt
  refine ⟨⟨slice frame 0 12, length_slice (by omega), (byteAt frame 14).toNat % 16,
    Nat.mod_lt _ (by decide), byteAt frame 15, slice frame 16 4, length_slice (by omega),
    (byteAt frame 20).toNat / 32, ?_, fragmentOffset frame, ?_, byteAt frame 22, byteAt frame 23,
    slice frame 24 10, length_slice (by omega), slice frame 34 (ipv4HeaderLen frame - 20), ?_,
    frame.drop (14 + ipv4HeaderLen frame)⟩, ?_, hprotocol⟩
  · omega
  · rw [fragmentOffset]
    omega
  · rw [length_slice (by omega), ← hwords]
    omega
  · have hstart : slice frame 12 4 = [0x08, 0x00, UInt8.ofNat (0x40 + (byteAt frame 14).toNat % 16),
        byteAt frame 15] := by
      rw [slice_two (by omega), List.cons.injEq, List.cons.injEq] at htype
      obtain ⟨hfirst, hsecond, -⟩ := htype
      have hbyte : byteAt frame 14 = UInt8.ofNat (0x40 + (byteAt frame 14).toNat % 16) := by
        rw [← UInt8.toNat_inj, toNat_shiftRight_four] at hversion
        have hhigh : (byteAt frame 14).toNat / 16 = 4 := hversion
        refine UInt8.toNat_inj.mp ?_
        rw [UInt8.toNat_ofNat']
        omega
      rw [slice_four (by omega), hfirst, hsecond, ← hbyte]
    have hmiddle : slice frame 20 4 = [UInt8.ofNat ((byteAt frame 20).toNat / 32 * 32 +
        fragmentOffset frame / 256), UInt8.ofNat (fragmentOffset frame), byteAt frame 22,
        byteAt frame 23] := by
      have hflags : byteAt frame 20 =
          UInt8.ofNat ((byteAt frame 20).toNat / 32 * 32 + fragmentOffset frame / 256) := by
        refine UInt8.toNat_inj.mp ?_
        rw [UInt8.toNat_ofNat', fragmentOffset]
        omega
      have hoffset : byteAt frame 21 = UInt8.ofNat (fragmentOffset frame) := by
        refine UInt8.toNat_inj.mp ?_
        rw [UInt8.toNat_ofNat', fragmentOffset]
        omega
      rw [slice_four (by omega), ← hflags, ← hoffset]
    have hend : 14 + ipv4HeaderLen frame = 34 + (ipv4HeaderLen frame - 20) := by omega
    simp only [Ipv4Frame.bytes, Ipv4Frame.start, Ipv4Frame.middle, ← hstart, ← hmiddle]
    rw [hend, slice_append_drop, slice_append_drop _ 24 10, slice_append_drop _ 20 4,
      slice_append_drop _ 16 4, slice_append_drop _ 12 4]
    exact slice_append_drop frame 0 12

theorem slice_drop (frame : List UInt8) (k start len : ℕ) :
    slice (frame.drop k) start len = slice frame (k + start) len := by
  rw [slice, slice, List.drop_drop]

/-- A first fragment of the protocol, told by the frame. -/
theorem exists_firstFragment_iff {protocol : UInt8} {len : ℕ} {holds : List UInt8 → Prop}
    (hlong : ∀ payload, holds payload → len ≤ payload.length) :
    (∃ p : Ipv4Frame, p.bytes = frame ∧ p.protocol = protocol ∧ p.fragmentOffset = 0 ∧
        holds p.payload) ↔
      isIpv4 frame protocol len = true ∧ ipv4MinHeaderLen ≤ ipv4HeaderLen frame ∧
        ethernetHeaderLen + ipv4HeaderLen frame + len ≤ frame.length ∧
        Netif.fragmentOffset frame = 0 ∧ holds (frame.drop (ethernetHeaderLen + ipv4HeaderLen frame)) := by
  constructor
  · rintro ⟨p, rfl, rfl, hoffset, hholds⟩
    have hoptions := p.options_length
    have hlen := hlong _ hholds
    refine ⟨p.isIpv4_bytes hlen, ?_, ?_, ?_, ?_⟩
    · rw [p.headerLen_bytes, ← hoptions]
      exact Nat.le_add_right 20 _
    · rw [p.headerLen_bytes, p.length_bytes]
      exact Nat.add_le_add_left hlen _
    · rw [p.fragmentOffset_bytes, hoffset]
    · rwa [p.headerLen_bytes, show ethernetHeaderLen = 14 from rfl, p.drop_header]
  · rintro ⟨hip, hmin, hlen, hoffset, hholds⟩
    obtain ⟨p, rfl, hprotocol⟩ := exists_ipv4Frame hip hmin (Nat.le_of_add_right_le hlen)
    refine ⟨p, rfl, hprotocol, by rw [← p.fragmentOffset_bytes, hoffset], ?_⟩
    rwa [p.headerLen_bytes, show ethernetHeaderLen = 14 from rfl, p.drop_header] at hholds

theorem length_toBeBytes (n : UInt16) : (toBeBytes n).length = 2 := rfl

theorem udpPayload_iff {payload : List UInt8} {sourcePort destinationPort : UInt16} :
    (∃ lengthAndChecksum data, lengthAndChecksum.length = 4 ∧ payload =
        toBeBytes sourcePort ++ (toBeBytes destinationPort ++ (lengthAndChecksum ++ data))) ↔
      udpHeaderLen ≤ payload.length ∧ slice payload 0 2 = toBeBytes sourcePort ∧
        slice payload 2 2 = toBeBytes destinationPort := by
  constructor
  · rintro ⟨lengthAndChecksum, data, hlen, rfl⟩
    refine ⟨?_, rfl, rfl⟩
    simp only [List.length_append, length_toBeBytes, hlen, udpHeaderLen]
    omega
  · rintro ⟨hlen, hsource, hdestination⟩
    refine ⟨slice payload 4 4, payload.drop 8, length_slice hlen, ?_⟩
    rw [← hsource, ← hdestination, slice_append_drop payload 4 4, slice_append_drop payload 2 2]
    exact (slice_append_drop payload 0 2).symm

theorem echoPayload_iff {payload : List UInt8} {sequence : UInt16} :
    (∃ codeAndChecksum data, codeAndChecksum.length = 3 ∧ payload =
        0 :: (codeAndChecksum ++ (diagnosticEchoIdentifier ++ (toBeBytes sequence ++ data)))) ↔
      icmpEchoHeaderLen ≤ payload.length ∧ byteAt payload 0 = 0 ∧
        slice payload 4 2 = diagnosticEchoIdentifier ∧ slice payload 6 2 = toBeBytes sequence := by
  constructor
  · rintro ⟨codeAndChecksum, data, hlen, rfl⟩
    have hdrop : List.drop 4 (0 :: (codeAndChecksum ++ (diagnosticEchoIdentifier ++
        (toBeBytes sequence ++ data)))) = diagnosticEchoIdentifier ++ (toBeBytes sequence ++ data) :=
      List.drop_left' hlen
    refine ⟨?_, rfl, ?_, ?_⟩
    · simp only [List.length_cons, List.length_append, length_toBeBytes, hlen, icmpEchoHeaderLen,
        diagnosticEchoIdentifier]
      omega
    · rw [← Nat.add_zero 4, ← slice_drop, hdrop]
      rfl
    · rw [show 6 = 4 + 2 from rfl, ← slice_drop, hdrop]
      rfl
  · rintro ⟨hlen, htype, hidentifier, hsequence⟩
    have hlen' : 8 ≤ payload.length := hlen
    refine ⟨slice payload 1 3, payload.drop 8, length_slice (by omega), ?_⟩
    rw [← hidentifier, ← hsequence, slice_append_drop payload 6 2, slice_append_drop payload 4 2,
      slice_append_drop payload 1 3, ← htype]
    have hcons := slice_append_drop payload 0 1
    rwa [slice_succ (by omega), slice_zero, List.drop_zero, eq_comm] at hcons

theorem toNat_joined (a b : UInt8) :
    (a.toUInt16 <<< 8 ||| b.toUInt16).toNat = a.toNat * 256 + b.toNat := by
  have ha := a.toNat_lt
  have hshift : (a.toUInt16 <<< 8).toNat = a.toNat <<< 8 := by
    rw [UInt16.toNat_shiftLeft, UInt8.toNat_toUInt16]
    refine Nat.mod_eq_of_lt ?_
    rw [show (8 : UInt16).toNat % 16 = 8 from rfl, Nat.shiftLeft_eq]
    omega
  rw [UInt16.toNat_or, hshift, UInt8.toNat_toUInt16,
    ← Nat.shiftLeft_add_eq_or_of_lt (b := b.toNat) (i := 8) b.toNat_lt, Nat.shiftLeft_eq]

/-- Two bytes and the number they stand for. -/
theorem toBeBytes_eq_iff (a b : UInt8) (n : UInt16) :
    [a, b] = toBeBytes n ↔ a.toUInt16 <<< 8 ||| b.toUInt16 = n := by
  have ha := a.toNat_lt
  have hb := b.toNat_lt
  have hn := n.toNat_lt
  have hhigh : (n >>> 8).toUInt8.toNat = n.toNat / 256 := by
    rw [UInt16.toNat_toUInt8, UInt16.toNat_shiftRight, show (8 : UInt16).toNat % 16 = 8 from rfl,
      Nat.shiftRight_eq_div_pow]
    omega
  have hlow : n.toUInt8.toNat = n.toNat % 256 := UInt16.toNat_toUInt8 n
  rw [toBeBytes, List.cons.injEq, List.cons.injEq, ← UInt8.toNat_inj, ← UInt8.toNat_inj,
    ← UInt16.toNat_inj, toNat_joined, hhigh, hlow]
  constructor
  · rintro ⟨hfirst, hsecond, -⟩
    omega
  · intro h
    exact ⟨by omega, by omega, rfl⟩

/-! ## §4 Main results -/

theorem hasUdpPorts_iff {sourcePort destinationPort : UInt16} :
    hasUdpPorts frame sourcePort destinationPort = true ↔ isIpv4 frame 17 udpHeaderLen = true ∧
      ethernetHeaderLen + ipv4HeaderLen frame + udpHeaderLen ≤ frame.length ∧
      slice frame (ethernetHeaderLen + ipv4HeaderLen frame) 2 = toBeBytes sourcePort ∧
      slice frame (ethernetHeaderLen + ipv4HeaderLen frame + 2) 2 = toBeBytes destinationPort := by
  unfold hasUdpPorts
  split
  · rename_i hip
    simp [hip, and_assoc]
  · rename_i hip
    simp [hip]

theorem diagnosticEchoReplySequence_eq_some_iff {sequence : UInt16} :
    diagnosticEchoReplySequence frame = some sequence ↔ isIpv4 frame 1 icmpEchoHeaderLen = true ∧
      ipv4MinHeaderLen ≤ ipv4HeaderLen frame ∧
      ethernetHeaderLen + ipv4HeaderLen frame + icmpEchoHeaderLen ≤ frame.length ∧
      byteAt frame (ethernetHeaderLen + ipv4HeaderLen frame) = 0 ∧
      slice frame (ethernetHeaderLen + ipv4HeaderLen frame + 4) 2 = diagnosticEchoIdentifier ∧
      slice frame (ethernetHeaderLen + ipv4HeaderLen frame + 6) 2 = toBeBytes sequence := by
  have hat : ∀ start, start + 8 ≤ frame.length → slice frame (start + 6) 2 =
      [byteAt frame (start + 6), byteAt frame (start + 7)] := fun start h => slice_two (by omega)
  unfold diagnosticEchoReplySequence
  split
  · rename_i hip
    rw [Bool.not_eq_true'] at hip
    simp [hip]
  · rename_i hip
    rw [Bool.not_eq_true', Bool.not_eq_false] at hip
    split
    · rename_i hshort
      simp [Nat.not_le.mpr hshort]
    · rename_i hmin
      dsimp only
      split
      · rename_i hother
        simp only [reduceCtorEq, false_iff]
        rintro ⟨-, -, hlen, htype, hidentifier, -⟩
        obtain h | h | h := hother
        · exact Nat.not_lt.mpr hlen h
        · exact h htype
        · exact h hidentifier
      · rename_i hsame
        simp only [not_or, Nat.not_lt, ne_eq, not_not] at hsame hmin
        obtain ⟨hlen, htype, hidentifier⟩ := hsame
        rw [Option.some_inj, ← toBeBytes_eq_iff, ← hat _ hlen]
        simp [hip, hmin, hlen, htype, hidentifier]

/-- The formats against the tests of the code. -/
theorem isUdp_iff {sourcePort destinationPort : UInt16} :
    IsUdp frame sourcePort destinationPort ↔ hasUdpPorts frame sourcePort destinationPort = true ∧
      ipv4MinHeaderLen ≤ ipv4HeaderLen frame ∧ fragmentOffset frame = 0 := by
  refine (exists_firstFragment_iff fun payload h => (udpPayload_iff.mp h).1).trans ?_
  rw [udpPayload_iff, hasUdpPorts_iff, slice_drop, slice_drop, Nat.add_zero, List.length_drop]
  constructor
  · rintro ⟨hip, hmin, hlen, hoffset, -, hsource, hdestination⟩
    exact ⟨⟨hip, hlen, hsource, hdestination⟩, hmin, hoffset⟩
  · rintro ⟨⟨hip, hlen, hsource, hdestination⟩, hmin, hoffset⟩
    exact ⟨hip, hmin, hlen, hoffset, Nat.le_sub_of_add_le' hlen, hsource, hdestination⟩

theorem isEchoReply_iff {sequence : UInt16} :
    IsEchoReply frame sequence ↔
      diagnosticEchoReplySequence frame = some sequence ∧ fragmentOffset frame = 0 := by
  refine (exists_firstFragment_iff fun payload h => (echoPayload_iff.mp h).1).trans ?_
  rw [echoPayload_iff, diagnosticEchoReplySequence_eq_some_iff, slice_drop, slice_drop, byteAt_drop,
    Nat.add_zero, List.length_drop]
  constructor
  · rintro ⟨hip, hmin, hlen, hoffset, -, htype, hidentifier, hsequence⟩
    exact ⟨⟨hip, hmin, hlen, htype, hidentifier, hsequence⟩, hoffset⟩
  · rintro ⟨⟨hip, hmin, hlen, htype, hidentifier, hsequence⟩, hoffset⟩
    exact ⟨hip, hmin, hlen, hoffset, Nat.le_sub_of_add_le' hlen, htype, hidentifier, hsequence⟩

/-- Both functions return on the frame, and tell the formats. -/
structure ClassifiersAgree (frame : List UInt8) : Prop where
  udp : ∀ sourcePort destinationPort, ∃ found,
    hasUdpPorts? frame sourcePort destinationPort = some found ∧
      (found = true ↔ IsUdp frame sourcePort destinationPort)
  echo : ∃ found, diagnosticEchoReplySequence? frame = some found ∧
    ∀ sequence, found = some sequence ↔ IsEchoReply frame sequence

/-- UDP by its protocol field, with room for the UDP header, of an undersized header or a
later fragment. -/
def UdpIrregular (frame : List UInt8) : Prop :=
  isIpv4 frame 17 udpHeaderLen = true ∧
    ethernetHeaderLen + ipv4HeaderLen frame + udpHeaderLen ≤ frame.length ∧
    (ipv4HeaderLen frame < ipv4MinHeaderLen ∨ fragmentOffset frame ≠ 0)

/-- A later fragment whose bytes are those of an echo reply with the diagnostic identifier. -/
def EchoIrregular (frame : List UInt8) : Prop :=
  isIpv4 frame 1 icmpEchoHeaderLen = true ∧ ipv4MinHeaderLen ≤ ipv4HeaderLen frame ∧
    ethernetHeaderLen + ipv4HeaderLen frame + icmpEchoHeaderLen ≤ frame.length ∧
    byteAt frame (ethernetHeaderLen + ipv4HeaderLen frame) = 0 ∧
    slice frame (ethernetHeaderLen + ipv4HeaderLen frame + 4) 2 = diagnosticEchoIdentifier ∧
    fragmentOffset frame ≠ 0

theorem exists_slice_two {start : ℕ} (h : start + 2 ≤ frame.length) :
    ∃ n, slice frame start 2 = toBeBytes n := by
  rw [slice_two h]
  exact ⟨_, (toBeBytes_eq_iff _ _ _).mpr rfl⟩

/-- The classifiers agree with the formats on every frame that is not irregular. -/
theorem classifiersAgree_iff (frame : List UInt8) :
    ClassifiersAgree frame ↔ ¬ UdpIrregular frame ∧ ¬ EchoIrregular frame := by
  constructor
  · intro h
    refine ⟨?_, ?_⟩
    · rintro ⟨hip, hlen, hirregular⟩
      have hlen' : 14 + ipv4HeaderLen frame + 8 ≤ frame.length := hlen
      obtain ⟨sourcePort, hsource⟩ :=
        exists_slice_two (show 14 + ipv4HeaderLen frame + 2 ≤ frame.length by omega)
      obtain ⟨destinationPort, hdestination⟩ :=
        exists_slice_two (show 14 + ipv4HeaderLen frame + 2 + 2 ≤ frame.length by omega)
      have hfound := hasUdpPorts_iff.mpr ⟨hip, hlen, hsource, hdestination⟩
      obtain ⟨found, heq, hagree⟩ := h.udp sourcePort destinationPort
      rw [hasUdpPorts?_eq, hfound, Option.some_inj] at heq
      obtain ⟨-, hmin, hoffset⟩ := isUdp_iff.mp (hagree.mp heq.symm)
      obtain hshort | hlater := hirregular
      · exact Nat.not_lt.mpr hmin hshort
      · exact hlater hoffset
    · rintro ⟨hip, hmin, hlen, htype, hidentifier, hlater⟩
      have hlen' : 14 + ipv4HeaderLen frame + 8 ≤ frame.length := hlen
      obtain ⟨sequence, hsequence⟩ :=
        exists_slice_two (show 14 + ipv4HeaderLen frame + 6 + 2 ≤ frame.length by omega)
      have hfound := diagnosticEchoReplySequence_eq_some_iff.mpr
        ⟨hip, hmin, hlen, htype, hidentifier, hsequence⟩
      obtain ⟨found, heq, hagree⟩ := h.echo
      rw [diagnosticEchoReplySequence?_eq, hfound, Option.some_inj] at heq
      exact hlater (isEchoReply_iff.mp ((hagree sequence).mp heq.symm)).2
  · rintro ⟨hudp, hecho⟩
    refine ⟨?_, ?_⟩
    · intro sourcePort destinationPort
      refine ⟨_, hasUdpPorts?_eq _ _ _, isUdp_iff.trans (and_iff_left_of_imp ?_) |>.symm⟩
      intro hfound
      obtain ⟨hip, hlen, -⟩ := hasUdpPorts_iff.mp hfound
      refine ⟨Nat.not_lt.mp fun hshort => hudp ⟨hip, hlen, .inl hshort⟩, ?_⟩
      exact not_not.mp fun hlater => hudp ⟨hip, hlen, .inr hlater⟩
    · refine ⟨_, diagnosticEchoReplySequence?_eq _, ?_⟩
      intro sequence
      refine (isEchoReply_iff.trans (and_iff_left_of_imp ?_)).symm
      intro hfound
      obtain ⟨hip, hmin, hlen, htype, hidentifier, -⟩ :=
        diagnosticEchoReplySequence_eq_some_iff.mp hfound
      exact not_not.mp fun hlater => hecho ⟨hip, hmin, hlen, htype, hidentifier, hlater⟩

/-- A UDP datagram of 42 bytes, with the first byte of the header and the fragment field given. -/
def sampleFrame (version flags offset : UInt8) : List UInt8 :=
  List.replicate 12 0 ++ [0x08, 0x00, version] ++ List.replicate 5 0 ++ [flags, offset, 64, 17] ++
    List.replicate 10 0 ++ toBeBytes 67 ++ toBeBytes 68 ++ List.replicate 4 0

/-- The second fragment of a datagram, with the bytes of a DHCP header where the ports would be. -/
theorem not_classifiersAgree : ¬ ∀ frame, ClassifiersAgree frame := by
  intro h
  obtain ⟨found, heq, hagree⟩ := (h (sampleFrame 0x45 0x00 0x01)).udp 67 68
  rw [show hasUdpPorts? (sampleFrame 0x45 0x00 0x01) 67 68 = some true by decide,
    Option.some_inj] at heq
  obtain ⟨p, hbytes, -, hoffset, -⟩ := hagree.mp heq.symm
  have hfield := p.fragmentOffset_bytes
  rw [hbytes, hoffset] at hfield
  exact absurd hfield (by decide)

end HisiRiscv.Netif
