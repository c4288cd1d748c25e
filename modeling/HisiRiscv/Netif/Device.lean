/-
HisiRiscv.Netif.Device — the smoltcp device of `netif_smoltcp.rs`.

Any number of `rx_push`, `take_received`, `Ws63Device::receive` and
`transmit` calls, and of the tokens these return, run against each other.
One step is one critical section, the begin or the end of an access to a
scratch buffer outside of one, or a call of the sink. A token is consumed
or dropped; when `consume` returns, the token is dropped as well, and both
clear the claim.

Translation notes. The closures given to `consume` are not part of the
code: the one of a `TxBuf` fills its part of the scratch buffer any number
of times, the one of an `RxFrame` only reads. Which task holds a token
does not matter.

History variables: the frames of at most `mtu` bytes given to `rx_push`,
those of them that found room, and those that did not; what the calls of
`rx_pop` have returned; and, since the last reset of the diagnostics, how
many frames found no room and the lengths that the queue has had.

  §1 Calls and tokens.
  §2 The machine.
-/
import HisiRiscv.Lib.Machine
import HisiRiscv.Netif.Bridge

namespace HisiRiscv.Netif

open HisiRiscv.Machine

/-! ## §1 Calls and tokens -/

/-- A call of `Ws63Device::receive`. -/
inductive Receive where
  /-- Before the claim of the receive buffer. -/
  | entered
  /-- Before the claim of the transmit buffer. -/
  | claimed
  /-- The transmit buffer is taken; before the release of the receive buffer. -/
  | rollingBack
  /-- Before `rx_pop`. -/
  | popping
  /-- The queue is empty; before the release of both. -/
  | emptied
  | returned
  deriving DecidableEq

inductive RxFrame where
  | live (len : Nat)
  /-- In the closure. -/
  | reading (len : Nat)
  /-- `consume` has cleared the claim; before the drop. -/
  | cleared
  | dropped
  deriving DecidableEq

inductive TxBuf where
  | live
  /-- In the closure. -/
  | writing (len : Nat)
  /-- Before the critical section of `tx_emit`. -/
  | emitting (len : Nat)
  /-- Before the call of the sink. -/
  | sinking (len sink : Nat)
  /-- Before `consume` clears the claim. -/
  | clearing
  /-- `consume` has cleared the claim; before the drop. -/
  | cleared
  | dropped
  deriving DecidableEq

/-- The call has the receive buffer claimed. -/
def Receive.holdsRx : Receive → Bool
  | claimed | rollingBack | popping | emptied => true
  | entered | returned => false

/-- The call has the transmit buffer claimed. -/
def Receive.holdsTx : Receive → Bool
  | popping | emptied => true
  | entered | claimed | rollingBack | returned => false

/-- The token has not been released. -/
def RxFrame.isLive : RxFrame → Bool
  | live _ | reading _ => true
  | cleared | dropped => false

def TxBuf.isLive : TxBuf → Bool
  | live | writing _ | emitting _ | sinking _ _ | clearing => true
  | cleared | dropped => false

/-- What a call of `rx_pop` has returned: the length of the destination, and the
bytes copied. -/
structure Popped where
  room : Nat
  copied : List UInt8
  deriving DecidableEq

/-! ## §2 The machine -/

structure State where
  bridge : Bridge
  rxScratch : List UInt8
  txScratch : List UInt8
  rxClaimed : Bool
  txClaimed : Bool
  receives : List Receive
  rxTokens : List RxFrame
  txTokens : List TxBuf
  /-- The frames given to a sink. -/
  sent : List (Nat × List UInt8)
  pushed : List (List UInt8)
  accepted : List (List UInt8)
  rejected : List (List UInt8)
  returned : List Popped
  rejectedNow : Nat
  counts : List Nat

def init : State where
  bridge := .new
  rxScratch := List.replicate mtu 0
  txScratch := List.replicate mtu 0
  rxClaimed := false
  txClaimed := false
  receives := []
  rxTokens := []
  txTokens := []
  sent := []
  pushed := []
  accepted := []
  rejected := []
  returned := []
  rejectedNow := 0
  counts := [0]

inductive Action where
  /-- `rx_push`. -/
  | push (frame : List UInt8)
  /-- `take_received`, with the destination. -/
  | takeReceived (out : List UInt8)
  | reset
  | setTxSink (sink : Nat)
  /-- A new call of `receive`. -/
  | receive
  | transmit
  /-- A step of `receive` call number `k`. -/
  | call (k : Nat)
  /-- `consume` on `RxFrame` number `k`. -/
  | rxConsume (k : Nat)
  /-- The next step of a `consume` on it, or of the drop after that. -/
  | rx (k : Nat)
  /-- It is dropped without being consumed. -/
  | rxDrop (k : Nat)
  /-- `consume` on `TxBuf` number `k`. -/
  | txConsume (k : Nat) (len : Nat)
  /-- The closure fills the buffer. -/
  | txFill (k : Nat) (data : List UInt8)
  | tx (k : Nat)
  | txDrop (k : Nat)
  deriving DecidableEq

namespace State

/-- `rx_pop` has removed a frame. -/
def popped (s : State) (bridge : Bridge) (room : Nat) (copied : List UInt8) : State :=
  { s with
    bridge
    returned := s.returned ++ [⟨room, copied⟩]
    counts := s.counts ++ [bridge.rxCount] }

/-- `rx_push`. -/
def push (s : State) (frame : List UInt8) : State :=
  let bridge := s.bridge.rxPush frame
  if mtu < frame.length then { s with bridge }
  else if rxDepth ≤ s.bridge.rxCount then
    { s with
      bridge
      pushed := s.pushed ++ [frame]
      rejected := s.rejected ++ [frame]
      rejectedNow := s.rejectedNow + 1
      counts := s.counts ++ [bridge.rxCount] }
  else
    { s with
      bridge
      pushed := s.pushed ++ [frame]
      accepted := s.accepted ++ [frame]
      counts := s.counts ++ [bridge.rxCount] }

def takeReceived (s : State) (out : List UInt8) : State :=
  match s.bridge.rxPop out with
  | none => s
  | some (copied, out', bridge) => s.popped bridge out.length (out'.take copied)

def receiveGoto (s : State) (k : Nat) (r : Receive) : State :=
  { s with receives := s.receives.set k r }

def rxGoto (s : State) (k : Nat) (token : RxFrame) : State :=
  { s with rxTokens := s.rxTokens.set k token }

def txGoto (s : State) (k : Nat) (token : TxBuf) : State :=
  { s with txTokens := s.txTokens.set k token }

def stepReceive (s : State) (k : Nat) : Receive → Option State
  | .entered =>
      if s.rxClaimed then some (s.receiveGoto k .returned)
      else some ({ s with rxClaimed := true }.receiveGoto k .claimed)
  | .claimed =>
      if s.txClaimed then some (s.receiveGoto k .rollingBack)
      else some ({ s with txClaimed := true }.receiveGoto k .popping)
  | .rollingBack => some ({ s with rxClaimed := false }.receiveGoto k .returned)
  | .popping =>
      match s.bridge.rxPop s.rxScratch with
      | none => some (s.receiveGoto k .emptied)
      | some (len, rxScratch, bridge) =>
          some ({ s.popped bridge s.rxScratch.length (rxScratch.take len) with
            rxScratch
            rxTokens := s.rxTokens ++ [RxFrame.live len]
            txTokens := s.txTokens ++ [TxBuf.live] }.receiveGoto k .returned)
  | .emptied => some ({ s with rxClaimed := false, txClaimed := false }.receiveGoto k .returned)
  | .returned => none

def stepRx (s : State) (k : Nat) : RxFrame → Option State
  | .reading _ => some ({ s with rxClaimed := false }.rxGoto k .cleared)
  | .cleared => some ({ s with rxClaimed := false }.rxGoto k .dropped)
  | .live _ | .dropped => none

def stepRxConsume (s : State) (k : Nat) : RxFrame → Option State
  | .live len => some (s.rxGoto k (.reading len))
  | .reading _ | .cleared | .dropped => none

def stepRxDrop (s : State) (k : Nat) : RxFrame → Option State
  | .live _ => some ({ s with rxClaimed := false }.rxGoto k .dropped)
  | .reading _ | .cleared | .dropped => none

def stepTx (s : State) (k : Nat) : TxBuf → Option State
  | .writing len => some (s.txGoto k (.emitting len))
  | .emitting len =>
      let bridge := s.bridge.txEmit (s.txScratch.take len)
      some ({ s with bridge }.txGoto k
        (match bridge.txSink with
          | none => .clearing
          | some sink => .sinking len sink))
  | .sinking len sink =>
      some ({ s with sent := s.sent ++ [(sink, s.txScratch.take len)] }.txGoto k .clearing)
  | .clearing => some ({ s with txClaimed := false }.txGoto k .cleared)
  | .cleared => some ({ s with txClaimed := false }.txGoto k .dropped)
  | .live | .dropped => none

def stepTxConsume (s : State) (k len : Nat) : TxBuf → Option State
  | .live => some (s.txGoto k (.writing (min len mtu)))
  | .writing _ | .emitting _ | .sinking _ _ | .clearing | .cleared | .dropped => none

def stepTxFill (s : State) (data : List UInt8) : TxBuf → Option State
  | .writing len =>
      if data.length = len then some { s with txScratch := copyFromSlice s.txScratch data }
      else none
  | .live | .emitting _ | .sinking _ _ | .clearing | .cleared | .dropped => none

def stepTxDrop (s : State) (k : Nat) : TxBuf → Option State
  | .live => some ({ s with txClaimed := false }.txGoto k .dropped)
  | .writing _ | .emitting _ | .sinking _ _ | .clearing | .cleared | .dropped => none

end State

def step (s : State) : Action → Option State
  | .push frame => some (s.push frame)
  | .takeReceived out => some (s.takeReceived out)
  | .reset =>
      some { s with
        bridge := s.bridge.resetRxQueueDiagnostics
        rejectedNow := 0
        counts := [s.bridge.rxCount] }
  | .setTxSink sink => some { s with bridge := s.bridge.setTxSink sink }
  | .receive => some { s with receives := s.receives ++ [.entered] }
  | .transmit =>
      if s.txClaimed then some s
      else some { s with txClaimed := true, txTokens := s.txTokens ++ [.live] }
  | .call k => s.receives[k]?.bind (s.stepReceive k)
  | .rxConsume k => s.rxTokens[k]?.bind (s.stepRxConsume k)
  | .rx k => s.rxTokens[k]?.bind (s.stepRx k)
  | .rxDrop k => s.rxTokens[k]?.bind (s.stepRxDrop k)
  | .txConsume k len => s.txTokens[k]?.bind (s.stepTxConsume k len)
  | .txFill k data => s.txTokens[k]?.bind (s.stepTxFill data)
  | .tx k => s.txTokens[k]?.bind (s.stepTx k)
  | .txDrop k => s.txTokens[k]?.bind (s.stepTxDrop k)

end HisiRiscv.Netif
