import UdpArq.Lib.Dict
import UdpArq.Checksum
import UdpArq.Rto
import Mathlib.Data.Finset.Basic
import Mathlib.Data.List.Sort

/-!
# State and operations shared by the windowed transports

`GoBackNTransport` and `SelectiveRepeatTransport` hold the same dictionaries
for the sending half and share `sendto`, `flush`, `recvfrom`, `close` and most
of the bookkeeping of the background thread word for word.  `Core` is that
common state; the two transports extend it.

Readings of `time.monotonic()` and the outcomes of `channel.sendto` are inputs
of the operations.  An exception that leaves the background thread is recorded
in `crashed`: the state keeps whatever was assigned before the raise, and the
thread takes no further step.

The `event` and `error` slots of the item dictionaries are mutable and shared,
so they live in one store, `status`, addressed by peer and sequence number.
Four fields are histories that no operation reads: `handed` (accepted `sendto`
calls), `channel` (what `channel.sendto` has taken, newest first), `failures`
(calls of `_fail_peer`) and the consumed part of a queue.
-/

namespace UdpArq

abbrev Address := String × ℕ

/-- The exceptions that the transports raise or store. -/
inductive Err
  | payloadTooLarge (size mss : ℕ)
  | transportClosed
  | noAck (addr : Address) (maxRetries : ℕ)
  | noAckForSeq (seq : ℕ) (addr : Address) (maxRetries : ℕ)
  | flushTimedOut
  | noDatagram
  | channel (what : String)
  | packet (e : PacketError)
  | rtoBounds
  | keyError (addr : Address)
  deriving DecidableEq

/-- The default `window_size` is positive. -/
theorem windowSize_default_pos : 0 < 4 := by decide

/-- The constructor arguments of a transport, with the module constant
`MAX_RETRIES`. -/
structure Config where
  mss : ℕ := 1024
  timeout : ℚ := 1 / 2
  windowSize : ℕ := 4
  adaptive : Bool := false
  maxRetries : ℕ := 1000
  windowPos : 0 < windowSize := by first | exact windowSize_default_pos | decide

/-- The immutable part of an item dictionary. -/
structure Item where
  addr : Address
  seq : ℕ
  data : Bytes
  deriving DecidableEq

/-- The mutable part of an item dictionary: `event.is_set()` and `error`. -/
structure Status where
  event : Bool := false
  error : Option Err := none
  deriving DecidableEq

/-- A `queue.Queue` with its history: all values put so far, and how many of
them have been taken. -/
structure Queue (α : Type) where
  puts : List α := []
  taken : ℕ := 0

namespace Queue

variable {α : Type}

def put (q : Queue α) (x : α) : Queue α := { q with puts := q.puts ++ [x] }

def get? (q : Queue α) : Option (α × Queue α) :=
  q.puts[q.taken]?.map fun x => (x, { q with taken := q.taken + 1 })

@[simp] theorem put_puts (q : Queue α) (x : α) :
    (q.put x).puts = q.puts ++ [x] := rfl

end Queue

structure Core where
  base : Dict Address ℕ := ∅
  nextSeq : Dict Address ℕ := ∅
  outstanding : Dict Address (Dict ℕ Bytes) := ∅
  sentItems : Dict Address (Dict ℕ Item) := ∅
  pending : Dict Address (Dict ℕ Item) := ∅
  retries : Dict Address ℕ := ∅
  peerErrors : Dict Address Err := ∅
  rto : Dict Address RTOEstimator := ∅
  sendTime : Dict Address (Dict ℕ ℚ) := ∅
  retransmitted : Dict Address (Finset ℕ) := ∅
  expected : Dict Address ℕ := ∅
  incomingData : Queue (Bytes × Address) := {}
  stopEvent : Bool := false
  outbound : List Item := []
  status : Address → ℕ → Status := fun _ _ => {}
  crashed : Option Err := none
  channel : List (Bytes × Address) := []
  handed : List (Bytes × Address) := []
  failures : List (Address × Err) := []

namespace Core

/-! ## Packets -/

/-- The DATA packet built by `_pump_windows`. -/
def dataPacket (seq : ℕ) (data : Bytes) : Except PacketError Bytes :=
  encodeWithChecksum
    { seq, ack := 0, flags := FLAG_DATA, payloadLen := data.length } data

/-- The ACK packet built by `_handle_incoming`. -/
def ackPacket (ackFor : ℕ) : Except PacketError Bytes :=
  encodeWithChecksum
    { seq := 0, ack := ackFor, flags := FLAG_ACK, payloadLen := 0 } []

/-! ## Helpers for the dictionaries of dictionaries -/

/-- `self._d.get(addr, {})`. -/
def sub {ν : Type} (d : Dict Address (Dict ℕ ν)) (addr : Address) : Dict ℕ ν :=
  d.getD addr ∅

/-- `self._d.setdefault(addr, {})[seq] = x`. -/
def subSet {ν : Type} (d : Dict Address (Dict ℕ ν)) (addr : Address)
    (seq : ℕ) (x : ν) : Dict Address (Dict ℕ ν) :=
  d.set addr ((sub d addr).set seq x)

def setStatus (c : Core) (addr : Address) (f : ℕ → Status → Status) : Core :=
  { c with status := fun a q =>
      if a = addr then f q (c.status a q) else c.status a q }

/-- The background thread dies of an exception. -/
def crash (c : Core) (e : Err) : Core := { c with crashed := some e }

/-- `channel.sendto(packet, addr)` returning normally. -/
def transmit (c : Core) (packet : Bytes) (addr : Address) : Core :=
  { c with channel := (packet, addr) :: c.channel }

/-! ## Application calls -/

/-- The part of `sendto` under the lock. -/
def accept (c : Core) (data : Bytes) (addr : Address) : Core :=
  let seq := c.nextSeq.getD addr 0
  { c with
    peerErrors := c.peerErrors.erase addr
    nextSeq := c.nextSeq.set addr (seq + 1)
    outbound := c.outbound ++ [⟨addr, seq, data⟩]
    handed := c.handed ++ [(data, addr)] }

/-- `sendto`. -/
def sendto (cfg : Config) (c : Core) (data : Bytes) (addr : Address) :
    Except Err Core :=
  if data.length > cfg.mss then
    .error (.payloadTooLarge data.length cfg.mss)
  else if c.stopEvent then .error .transportClosed
  else .ok (c.accept data addr)

def addressLe (a b : Address) : Bool := a.1 < b.1 || (a.1 = b.1 && a.2 ≤ b.2)

/-- The peers that one snapshot of `flush` looks at. -/
def flushAddrs (c : Core) : Option Address → List Address
  | some a => [a]
  | none =>
      ((c.pending.keys ++ c.sentItems.keys ++
        c.peerErrors.keys).dedup).insertionSort fun a b => addressLe a b = true

/-- How one iteration of `flush` ends. -/
inductive FlushOutcome
  | raised (e : Err)
  | returned
  | waiting (items : List Item)
  deriving DecidableEq

/-- The items that one snapshot of `flush` collects. -/
def flushItems (c : Core) (addr : Option Address) : List Item :=
  (c.flushAddrs addr).flatMap (fun a =>
    (sub c.pending a).values ++ (sub c.sentItems a).values) ++
  (if addr = none then c.outbound else [])

/-- The errors that one snapshot of `flush` collects. -/
def flushErrors (c : Core) (addr : Option Address) : List Err :=
  (c.flushAddrs addr).filterMap (fun a => c.peerErrors.get? a) ++
    (c.flushItems addr).filterMap fun item => (c.status item.addr item.seq).error

/-- One iteration of `flush`; `remaining` is `deadline - time.monotonic()`. -/
def flush (c : Core) (addr : Option Address) (remaining : ℚ) : FlushOutcome :=
  match c.flushErrors addr with
  | e :: _ => .raised e
  | [] =>
      match c.flushItems addr with
      | [] => .returned
      | items => if remaining ≤ 0 then .raised .flushTimedOut else .waiting items

/-- `recvfrom`. -/
def recvfrom (c : Core) : Except Err ((Bytes × Address) × Core) :=
  match c.incomingData.get? with
  | none => .error .noDatagram
  | some (x, q) => .ok (x, { c with incomingData := q })

/-- The item of `(addr, seq)` is marked failed. -/
def markError (e : Err) (st : Status) : Status :=
  { st with error := some e, event := true }

/-- `close`, up to the call of `channel.close()`. -/
def close (c : Core) : Core :=
  if c.stopEvent then c
  else
    { c with
      stopEvent := true
      outbound := []
      status := fun a q =>
        if q ∈ (sub c.sentItems a).keys ∨ q ∈ (sub c.pending a).keys ∨
            (∃ item ∈ c.outbound, item.addr = a ∧ item.seq = q) then
          markError .transportClosed (c.status a q)
        else c.status a q }

/-! ## Steps of the background thread -/

/-- The part of `_drain_outbound` that both transports share, for an item
taken from the queue. -/
def register (c : Core) (item : Item) (rest : List Item) : Core :=
  { c with
    outbound := rest
    pending := subSet c.pending item.addr item.seq item
    base := c.base.setdefault item.addr item.seq
    outstanding := c.outstanding.setdefault item.addr ∅
    sentItems := c.sentItems.setdefault item.addr ∅
    retries := c.retries.setdefault item.addr 0 }

/-- The estimator that `_drain_outbound` creates for every item. -/
def newEstimator (cfg : Config) : Option RTOEstimator :=
  RTOEstimator.new cfg.timeout (min (1 / 10) cfg.timeout) 5 (1 / 20)

/-- The test with which `_pump_windows` picks the next item of a peer. -/
def nextToSend (cfg : Config) (c : Core) (addr : Address) :
    Option (ℕ × Item) :=
  match (sub c.pending addr).keys.min? with
  | none => none
  | some seq =>
      if seq ≥ c.base.getD addr 0 + cfg.windowSize then none
      else ((sub c.pending addr).get? seq).map fun item => (seq, item)

/-- `pending.pop(seq)`. -/
def popPending (c : Core) (addr : Address) (seq : ℕ) : Core :=
  { c with pending := c.pending.modify addr fun d => d.erase seq }

/-- The packet enters the window. -/
def launch (c : Core) (addr : Address) (seq : ℕ) (item : Item) (packet : Bytes)
    (now : ℚ) : Core :=
  { c with
    outstanding := subSet c.outstanding addr seq packet
    sentItems := subSet c.sentItems addr seq item
    sendTime := subSet c.sendTime addr seq now }

/-- The exception handler of the send in `_pump_windows`. -/
def discard (c : Core) (addr : Address) (seq : ℕ) (e : Err) : Core :=
  { c with
    outstanding := c.outstanding.modify addr fun d => d.erase seq
    sentItems := c.sentItems.modify addr fun d => d.erase seq }.setStatus addr
      fun q st => if q = seq then markError e st else st

/-- Acknowledge the packets `seqs`: pop them and set their events. -/
def complete (c : Core) (addr : Address) (seqs : List ℕ) : Core :=
  { c with
    outstanding := c.outstanding.modify addr fun d => d.eraseAll seqs
    sentItems := c.sentItems.modify addr fun d => d.eraseAll seqs }.setStatus
      addr fun q st =>
        if q ∈ seqs ∧ q ∈ (sub c.sentItems addr).keys then
          { st with event := true }
        else st

/-- The part of `_fail_peer` that both transports share. -/
def failPeer (c : Core) (addr : Address) (e : Err) : Core :=
  { c with
    sentItems := c.sentItems.modify addr fun _ => ∅
    pending := c.pending.modify addr fun _ => ∅
    outstanding := c.outstanding.modify addr fun _ => ∅
    peerErrors := c.peerErrors.setdefault addr e
    failures := (addr, e) :: c.failures }.setStatus addr fun q st =>
      if q ∈ (sub c.sentItems addr).keys ∨ q ∈ (sub c.pending addr).keys then
        markError e st
      else st

/-- `_rto_value`; `none` is a `KeyError`. -/
def rtoValue (cfg : Config) (c : Core) (addr : Address) : Option ℚ :=
  if cfg.adaptive then (c.rto.get? addr).map RTOEstimator.rto
  else some cfg.timeout

/-- The adaptive part of `_handle_ack`: sample the round-trip time of `seq`
unless it was retransmitted, then forget the acknowledged packets. -/
def sampleRtt (c : Core) (addr : Address) (seq : ℕ) (acknowledged : List ℕ)
    (now : ℚ) : Core :=
  let sendTimes := sub c.sendTime addr
  let retransmitted := c.retransmitted.getD addr ∅
  let forget (c : Core) : Core :=
    { c with
      sendTime := c.sendTime.set addr (sendTimes.eraseAll acknowledged)
      retransmitted := c.retransmitted.set addr
        (retransmitted.filter fun q => q ∉ acknowledged) }
  match sendTimes.get? seq with
  | none => forget c
  | some sentAt =>
      if seq ∈ retransmitted then forget c
      else
        match c.rto.get? addr with
        | none => c.crash (.keyError addr)
        | some r =>
            forget { c with
              rto := c.rto.set addr (r.sample (max (1 / 10000) (now - sentAt))) }

/-- The end of `_handle_incoming`: send the ACK and hand over the payloads,
which an exception of the send loses. -/
def acknowledge (c : Core) (addr : Address) (ackFor : ℕ)
    (payloads : List Bytes) (sendResult : Option String) : Core :=
  match ackPacket ackFor with
  | .error e => c.crash (.packet e)
  | .ok packet =>
      match sendResult with
      | some _ => c
      | none =>
          { c.transmit packet addr with
            incomingData := payloads.foldl
              (fun q payload => q.put (payload, addr)) c.incomingData }

end Core

/-! ## Events -/

/-- Clock readings and send outcome of one packet in `_pump_windows`. -/
structure PumpInput where
  sentAt : ℚ
  timerAt : ℚ
  sendResult : Option String

/-- Clock readings and send outcomes of one `_handle_timeouts` sweep.  The
first reading decides what is due; Go-Back-N then reads the clock once for each
peer and Selective Repeat once for each packet. -/
structure SweepInput where
  now : ℚ
  restartAt : Address → ℚ
  rearmAt : Address → ℕ → ℚ
  sendResult : Address → ℕ → Option String

/-- Clock readings and outcome of the ACK send in `_handle_incoming`. -/
structure IncomingInput where
  ackedAt : ℚ
  restartAt : ℚ
  sendResult : Option String

/-- The atomic steps of a transport: the calls of the application, and the
steps of the background thread.  The latter are not tied to the order of
`_sender_loop`, and may still follow `close`. -/
inductive Event
  | sendto (data : Bytes) (addr : Address)
  | recvfrom
  | close
  | drain
  | pump (addr : Address) (input : PumpInput)
  | timeouts (input : SweepInput)
  | incoming (raw : Bytes) (addr : Address) (input : IncomingInput)

/-- A call of the application. -/
def Event.isCall : Event → Bool
  | .sendto _ _ => true
  | .recvfrom => true
  | .close => true
  | _ => false

end UdpArq
