/-
HisiRiscv.Netif.Bridge — the frame queues of `netif_smoltcp.rs`.

The static `Bridge`: a ring of four receive buffers with diagnostics, and
the last frame sent. Each function here is one critical section.

Translation notes. An array is the list of its elements, and a destination
slice is the list of the bytes it holds before the copy. A sink is the
address of a function.

  §1 Frames.
  §2 The bridge.
-/
import Mathlib.Data.List.Basic

namespace HisiRiscv.Netif

/-! ## §1 Frames -/

def mtu : Nat := 1536
def rxDepth : Nat := 4
def framePrefix : Nat := 64
def diagnosticEchoIdentifier : List UInt8 := [0x57, 0x53]

def ethernetHeaderLen : Nat := 14
def ipv4MinHeaderLen : Nat := 20
def udpHeaderLen : Nat := 8
def icmpEchoHeaderLen : Nat := 8

/-- `buf[..src.len()].copy_from_slice(src)`. -/
def copyFromSlice (buf src : List UInt8) : List UInt8 := src ++ buf.drop src.length

def saturatingSucc (n : UInt32) : UInt32 := if n = 0xffffffff then n else n + 1

/-- `frame[start..start + len]`. -/
def slice (frame : List UInt8) (start len : Nat) : List UInt8 := (frame.drop start).take len

def byteAt (frame : List UInt8) (i : Nat) : UInt8 := frame.getD i 0

def toBeBytes (n : UInt16) : List UInt8 := [(n >>> 8).toUInt8, n.toUInt8]

/-- An IPv4 packet of the protocol, long enough for an option-free header and `len` bytes. -/
def isIpv4 (frame : List UInt8) (protocol : UInt8) (len : Nat) : Bool :=
  decide (ethernetHeaderLen + ipv4MinHeaderLen + len ≤ frame.length) &&
    slice frame 12 2 == [0x08, 0x00] && byteAt frame 14 >>> 4 == 4 && byteAt frame 23 == protocol

def ipv4HeaderLen (frame : List UInt8) : Nat := (byteAt frame 14 &&& 0x0f).toNat * 4

def hasUdpPorts (frame : List UInt8) (sourcePort destinationPort : UInt16) : Bool :=
  if isIpv4 frame 17 udpHeaderLen then
    let udp := ethernetHeaderLen + ipv4HeaderLen frame
    decide (udp + udpHeaderLen ≤ frame.length) && slice frame udp 2 == toBeBytes sourcePort &&
      slice frame (udp + 2) 2 == toBeBytes destinationPort
  else false

def diagnosticEchoReplySequence (frame : List UInt8) : Option UInt16 :=
  if !isIpv4 frame 1 icmpEchoHeaderLen then none
  else if ipv4HeaderLen frame < ipv4MinHeaderLen then none
  else
    let icmp := ethernetHeaderLen + ipv4HeaderLen frame
    if frame.length < icmp + icmpEchoHeaderLen ∨ byteAt frame icmp ≠ 0 ∨
        slice frame (icmp + 4) 2 ≠ diagnosticEchoIdentifier then none
    else some ((byteAt frame (icmp + 6)).toUInt16 <<< 8 ||| (byteAt frame (icmp + 7)).toUInt16)

/-! ## §2 The bridge -/

structure Bridge where
  rx : List (List UInt8)
  rxLen : List Nat
  rxHead : Nat
  rxCount : Nat
  rxDropped : UInt32
  rxHighWatermark : Nat
  rxIcmpEchoReplies : UInt32
  rxIcmpSequenceMask : UInt32
  rxDhcpServerPackets : UInt32
  lastRxPrefix : List UInt8
  lastRxLen : Nat
  txBuf : List UInt8
  txLen : Nat
  txCount : UInt32
  txDhcpClientPackets : UInt32
  txSink : Option Nat

structure RxQueueDiagnostics where
  depth : Nat
  pending : Nat
  highWatermark : Nat
  dropped : UInt32
  icmpEchoReplies : UInt32
  icmpSequenceMask : UInt32
  deriving DecidableEq

namespace Bridge

/-- The initial contents of the static. -/
def new : Bridge where
  rx := List.replicate rxDepth (List.replicate mtu 0)
  rxLen := List.replicate rxDepth 0
  rxHead := 0
  rxCount := 0
  rxDropped := 0
  rxHighWatermark := 0
  rxIcmpEchoReplies := 0
  rxIcmpSequenceMask := 0
  rxDhcpServerPackets := 0
  lastRxPrefix := List.replicate framePrefix 0
  lastRxLen := 0
  txBuf := List.replicate mtu 0
  txLen := 0
  txCount := 0
  txDhcpClientPackets := 0
  txSink := none

/-- The diagnostics of `rx_push`, which come before the check for room. -/
def observe (b : Bridge) (frame : List UInt8) : Bridge :=
  let sequence := diagnosticEchoReplySequence frame
  { b with
    lastRxPrefix := copyFromSlice b.lastRxPrefix (frame.take framePrefix)
    lastRxLen := frame.length
    rxIcmpEchoReplies :=
      if sequence.isSome then saturatingSucc b.rxIcmpEchoReplies else b.rxIcmpEchoReplies
    rxIcmpSequenceMask :=
      match sequence with
      | none => b.rxIcmpSequenceMask
      | some n =>
          if n < 32 then b.rxIcmpSequenceMask ||| (1 <<< n.toUInt32) else b.rxIcmpSequenceMask
    rxDhcpServerPackets :=
      if hasUdpPorts frame 67 68 then saturatingSucc b.rxDhcpServerPackets
      else b.rxDhcpServerPackets }

/-- Storing a frame behind the last one. -/
def enqueue (b : Bridge) (frame : List UInt8) : Bridge :=
  let slot := (b.rxHead + b.rxCount) % rxDepth
  { b with
    rx := b.rx.modify slot (copyFromSlice · frame)
    rxLen := b.rxLen.set slot frame.length
    rxCount := b.rxCount + 1
    rxHighWatermark := max b.rxHighWatermark (b.rxCount + 1) }

def rxPush (b : Bridge) (frame : List UInt8) : Bridge :=
  if mtu < frame.length then b
  else
    let b := b.observe frame
    if rxDepth ≤ b.rxCount then { b with rxDropped := saturatingSucc b.rxDropped }
    else b.enqueue frame

/-- The number of bytes copied, and the destination after the copy. -/
def rxPop (b : Bridge) (into : List UInt8) : Option (Nat × List UInt8 × Bridge) :=
  if b.rxCount = 0 then none
  else
    let slot := b.rxHead
    let n := b.rxLen.getD slot 0
    let copied := min n into.length
    some (copied, copyFromSlice into ((b.rx.getD slot []).take copied),
      { b with rxHead := (b.rxHead + 1) % rxDepth, rxCount := b.rxCount - 1 })

def rxQueueDiagnostics (b : Bridge) : RxQueueDiagnostics :=
  ⟨rxDepth, b.rxCount, b.rxHighWatermark, b.rxDropped, b.rxIcmpEchoReplies, b.rxIcmpSequenceMask⟩

def resetRxQueueDiagnostics (b : Bridge) : Bridge :=
  { b with
    rxDropped := 0
    rxHighWatermark := b.rxCount
    rxIcmpEchoReplies := 0
    rxIcmpSequenceMask := 0 }

/-- The critical section of `tx_emit`. -/
def txEmit (b : Bridge) (frame : List UInt8) : Bridge :=
  let n := min frame.length mtu
  { b with
    txBuf := copyFromSlice b.txBuf (frame.take n)
    txLen := n
    txCount := b.txCount + 1
    txDhcpClientPackets :=
      if hasUdpPorts frame 68 67 then saturatingSucc b.txDhcpClientPackets
      else b.txDhcpClientPackets }

def setTxSink (b : Bridge) (sink : Nat) : Bridge := { b with txSink := some sink }

end Bridge

end HisiRiscv.Netif
