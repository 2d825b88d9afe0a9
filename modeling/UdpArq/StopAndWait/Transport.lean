import UdpArq.Transport.Core

/-!
# The Stop-and-Wait transport

`stop_and_wait.py`.  `sendto` blocks, so a call of it is a sequence of steps:
the checks at its start, the transmission of each attempt, and the iterations
of the loop that waits for the acknowledgement.  `Call` holds the local
variables between two steps.  `recvfrom` is given by one iteration of its loop.
-/

namespace UdpArq

/-- What `channel.recvfrom` does: it returns a packet with the address that it
came from, raises `TimeoutError`, or raises something else. -/
inductive ChannelRecv
  | packet (raw : Bytes) (addr : Address)
  | timedOut
  | raised (what : String)

/-- `StopAndWaitTransport`. -/
structure StopAndWaitTransport where
  rto : Dict Address RTOEstimator := ∅
  sendBit : Dict Address ℕ := ∅
  recvBit : Dict Address ℕ := ∅

namespace StopAndWaitTransport

variable (cfg : Config)

/-! ## Sending -/

/-- Where an attempt stands: before its transmission, or in the loop that waits
until `deadline`. -/
inductive Phase
  | sending
  | waiting (sentAt deadline : ℚ)

/-- The local variables of a `sendto` call; `rto` is the estimator that the
transport stores for `addr`. -/
structure Call where
  addr : Address
  seq : ℕ
  packet : Bytes
  rto : RTOEstimator
  attempt : ℕ := 0
  phase : Phase := .sending

/-- How far a `sendto` call has come, whose local variables are `κ`. -/
inductive Progress (κ : Type)
  | running (call : κ)
  | returned
  | raised (e : Err)

/-- The head of the loop over the attempts. -/
def beginAttempt (call : Call) (attempt : ℕ) : Progress Call :=
  if attempt < cfg.maxRetries then
    .running { call with attempt, phase := .sending }
  else .raised (.noAckForSeq call.seq call.addr cfg.maxRetries)

/-- `sendto` up to the loop over the attempts. -/
def sendto (t : StopAndWaitTransport) (data : Bytes) (addr : Address) :
    StopAndWaitTransport × Progress Call :=
  if data.length > cfg.mss then
    (t, .raised (.payloadTooLarge data.length cfg.mss))
  else
    match Core.newEstimator cfg with
    | none => (t, .raised .rtoBounds)
    | some estimator =>
        let rto := (t.rto.get? addr).getD estimator
        let t := { t with rto := t.rto.setdefault addr estimator }
        let seq := t.sendBit.getD addr 0
        match Core.dataPacket seq data with
        | .error e => (t, .raised (.packet e))
        | .ok packet => (t, beginAttempt cfg { addr, seq, packet, rto } 0)

/-- The transmission of an attempt. -/
def transmit (call : Call) (sentAt : ℚ) (sendResult : Option String) :
    Progress Call :=
  match sendResult with
  | some what => .raised (.channel what)
  | none =>
      let attemptTimeout := if cfg.adaptive then call.rto.rto else cfg.timeout
      .running { call with phase := .waiting sentAt (sentAt + attemptTimeout) }

/-- The end of an attempt that timed out. -/
def attemptTimedOut (t : StopAndWaitTransport) (call : Call) :
    StopAndWaitTransport × Progress Call :=
  if cfg.adaptive then
    let rto := call.rto.onTimeout
    ({ t with rto := t.rto.set call.addr rto },
      beginAttempt cfg { call with rto } (call.attempt + 1))
  else (t, beginAttempt cfg call (call.attempt + 1))

/-- The awaited acknowledgement: turn the bit, and sample the round-trip time
of a first attempt. -/
def acknowledged (t : StopAndWaitTransport) (call : Call) (sentAt now : ℚ) :
    StopAndWaitTransport :=
  let t := { t with sendBit := t.sendBit.set call.addr (call.seq ^^^ 1) }
  if cfg.adaptive ∧ call.attempt = 0 then
    { t with
      rto := t.rto.set call.addr
        (call.rto.sample (max (1 / 10000) (now - sentAt))) }
  else t

/-- A packet that arrives while `sendto` waits. -/
def handlePacket (t : StopAndWaitTransport) (call : Call) (sentAt : ℚ)
    (raw : Bytes) (fromAddr : Address) (now : ℚ) :
    StopAndWaitTransport × Progress Call :=
  if fromAddr ≠ call.addr then (t, .running call)
  else if verify raw = false then (t, .running call)
  else
    match decode raw with
    | .error _ => (t, .running call)
    | .ok (header, _) =>
        if header.flags &&& FLAG_ACK = 0 then (t, .running call)
        else if header.ack = call.seq ^^^ 1 then
          (acknowledged cfg t call sentAt now, .returned)
        else (t, .running call)

/-- Clock readings and outcome of `channel.recvfrom` in one iteration of the
loop that waits for the acknowledgement. -/
structure AwaitInput where
  now : ℚ
  arrival : ChannelRecv
  ackedAt : ℚ

/-- One iteration of the loop that waits for the acknowledgement. -/
def awaitAck (t : StopAndWaitTransport) (call : Call) (sentAt deadline : ℚ)
    (input : AwaitInput) : StopAndWaitTransport × Progress Call :=
  if deadline - input.now ≤ 0 then attemptTimedOut cfg t call
  else
    match input.arrival with
    | .timedOut => attemptTimedOut cfg t call
    | .raised what => (t, .raised (.channel what))
    | .packet raw fromAddr =>
        handlePacket cfg t call sentAt raw fromAddr input.ackedAt

/-! ## Receiving -/

/-- How an iteration of the loop of `recvfrom` ends: nothing happens, a
duplicate is acknowledged again, or a payload is about to be returned after its
acknowledgement was sent. -/
inductive Received
  | ignored
  | acknowledged (ack : Bytes)
  | returning (ack payload : Bytes)
  | raised (e : Err)

/-- The reply to a datagram. -/
def acceptData (t : StopAndWaitTransport) (addr : Address) (seq : ℕ)
    (payload : Bytes) (sendResult : Option String) :
    StopAndWaitTransport × Received :=
  let expected := t.recvBit.getD addr 0
  let newData := decide (seq = expected)
  let t :=
    if newData then { t with recvBit := t.recvBit.set addr (expected ^^^ 1) }
    else t
  let ackFor := if newData then expected ^^^ 1 else expected
  match Core.ackPacket ackFor with
  | .error e => (t, .raised (.packet e))
  | .ok ack =>
      match sendResult with
      | some what => (t, .raised (.channel what))
      | none =>
          (t, if newData then .returning ack payload else .acknowledged ack)

/-- A packet that arrives while `recvfrom` waits. -/
def recvPacket (t : StopAndWaitTransport) (raw : Bytes) (addr : Address)
    (sendResult : Option String) : StopAndWaitTransport × Received :=
  if verify raw = false then (t, .ignored)
  else
    match decode raw with
    | .error _ => (t, .ignored)
    | .ok (header, payload) =>
        if header.flags &&& FLAG_DATA = 0 then (t, .ignored)
        else acceptData t addr header.seq payload sendResult

/-- One iteration of the loop of `recvfrom`; `remaining` is the time left, and
`none` without a timeout. -/
def recvfrom (t : StopAndWaitTransport) (remaining : Option ℚ)
    (arrival : ChannelRecv) (sendResult : Option String) :
    StopAndWaitTransport × Received :=
  if ∃ r ∈ remaining, r ≤ 0 then (t, .raised .noDatagram)
  else
    match arrival with
    | .timedOut => (t, .raised .noDatagram)
    | .raised what => (t, .raised (.channel what))
    | .packet raw addr => recvPacket t raw addr sendResult

end StopAndWaitTransport

end UdpArq
