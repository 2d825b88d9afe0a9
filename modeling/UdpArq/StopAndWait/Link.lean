import UdpArq.Lib.AlternatingBit
import UdpArq.StopAndWait.Transport
import UdpArq.Transport.Frame

/-!
# A Stop-and-Wait sender and its receiver

One endpoint calls `sendto` for the other, one call after another, and the other
endpoint keeps calling `recvfrom`.  The packets that `channel.sendto` has taken
stay in two logs, and the network may deliver a copy of any of them, intact or
with one bit flipped, while somebody reads.

A `recvfrom` call sends its ACK before it returns the payload; other steps may
come between.  The link refines the alternating-bit protocol in every run in
which no payload is lost with its ACK and no call follows one that raised.
-/

namespace UdpArq

open StopAndWaitTransport

/-- The packet comes from `addr`. -/
def ChannelRecv.isFrom (addr : Address) : ChannelRecv → Bool
  | .packet _ a => decide (a = addr)
  | _ => false

/-- The two endpoints, the `sendto` call and the return of `recvfrom` that are
under way, and the histories: the payloads given to `sendto`, the calls that
have returned, the exceptions raised by the others, and the payloads returned
by `recvfrom`.  A DATA packet is logged with the number of its payload, an ACK
packet with the number of payloads accepted until then; `dataRead` and
`ackRead` are the positions of the latest deliveries. -/
structure StopAndWaitLink where
  tx : StopAndWaitTransport := {}
  rx : StopAndWaitTransport := {}
  call : Option Call := none
  returning : Option Bytes := none
  handed : List Bytes := []
  completed : ℕ := 0
  failures : List Err := []
  returned : List Bytes := []
  data : List (ℕ × Bytes) := []
  acks : List (ℕ × Bytes) := []
  dataRead : ℕ := 0
  ackRead : ℕ := 0

/-- The steps: those of `sendto`, those of `recvfrom`, and the deliveries of the
network to the one or the other.  Both endpoints may also hear from others. -/
inductive StopAndWaitEvent
  | sendto (payload : Bytes)
  | transmit (sentAt : ℚ) (sendResult : Option String)
  | await (input : AwaitInput)
  | toTx (i : ℕ) (flip : Option ℕ) (now ackedAt : ℚ)
  | recvfrom (remaining : Option ℚ) (arrival : ChannelRecv)
      (sendResult : Option String)
  | toRx (i : ℕ) (flip : Option ℕ) (remaining : Option ℚ)
      (sendResult : Option String)
  | recvfromReturns

namespace StopAndWaitLink

variable (cfg : Config) (txAddr rxAddr : Address)

/-- The payloads that the receiver has accepted: those returned, and the one
that is about to be. -/
def accepted (n : StopAndWaitLink) : List Bytes :=
  n.returned ++ n.returning.toList

/-- The call that is about to transmit. -/
def sendingCall (n : StopAndWaitLink) : Option Call :=
  match n.call with
  | none => none
  | some call =>
      match call.phase with
      | .sending => some call
      | .waiting _ _ => none

/-- The call that waits for its ACK, with `sent_at` and `deadline`. -/
def waitingCall (n : StopAndWaitLink) : Option (Call × ℚ × ℚ) :=
  match n.call with
  | none => none
  | some call =>
      match call.phase with
      | .sending => none
      | .waiting sentAt deadline => some (call, sentAt, deadline)

/-- The link after a step of `sendto`. -/
def sends (n : StopAndWaitLink) (result : StopAndWaitTransport × Progress Call) :
    StopAndWaitLink :=
  match result.2 with
  | .running call => { n with tx := result.1, call := some call }
  | .returned =>
      { n with tx := result.1, call := none, completed := n.completed + 1 }
  | .raised e =>
      { n with tx := result.1, call := none, failures := n.failures ++ [e] }

/-- The link after an iteration of `recvfrom` on a packet of the sender. -/
def receives (n : StopAndWaitLink) (result : StopAndWaitTransport × Received) :
    StopAndWaitLink :=
  match result.2 with
  | .ignored => { n with rx := result.1 }
  | .acknowledged ack =>
      { n with
        rx := result.1
        acks := n.acks ++ [(n.accepted.length, ack)] }
  | .returning ack payload =>
      { n with
        rx := result.1
        returning := some payload
        acks := n.acks ++ [(n.accepted.length + 1, ack)] }
  | .raised _ => { n with rx := result.1 }

def step (n : StopAndWaitLink) : StopAndWaitEvent → StopAndWaitLink
  | .sendto payload =>
      match n.call with
      | some _ => n
      | none =>
          { n with handed := n.handed ++ [payload] }.sends
            (n.tx.sendto cfg payload rxAddr)
  | .transmit sentAt sendResult =>
      match n.sendingCall with
      | none => n
      | some call =>
          { n with
            data :=
              if sendResult = none then
                n.data ++ [(n.handed.length - 1, call.packet)]
              else n.data }.sends
            (n.tx, StopAndWaitTransport.transmit cfg call sentAt sendResult)
  | .await input =>
      match n.waitingCall with
      | none => n
      | some (call, sentAt, deadline) =>
          if input.arrival.isFrom rxAddr then n
          else n.sends (awaitAck cfg n.tx call sentAt deadline input)
  | .toTx i flip now ackedAt =>
      match n.waitingCall, n.acks[i]? with
      | some (call, sentAt, deadline), some (_, raw) =>
          { n with ackRead := i }.sends
            (awaitAck cfg n.tx call sentAt deadline
              ⟨now, .packet (corrupt raw flip) rxAddr, ackedAt⟩)
      | _, _ => n
  | .recvfrom remaining arrival sendResult =>
      if n.returning.isSome ∨ arrival.isFrom txAddr then n
      else { n with rx := (n.rx.recvfrom remaining arrival sendResult).1 }
  | .toRx i flip remaining sendResult =>
      match n.returning, n.data[i]? with
      | none, some (_, raw) =>
          { n with dataRead := i }.receives
            (n.rx.recvfrom remaining (.packet (corrupt raw flip) txAddr)
              sendResult)
      | _, _ => n
  | .recvfromReturns =>
      { n with returning := none, returned := n.accepted }

/-- Two fresh endpoints. -/
def init : StopAndWaitLink := {}

end StopAndWaitLink

end UdpArq
