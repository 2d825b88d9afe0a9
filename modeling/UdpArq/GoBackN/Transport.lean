import UdpArq.Transport.Handlers

/-!
# The Go-Back-N transport

`go_back_n.py`: the state of a `GoBackNTransport` and one definition for each
of its methods.
-/

namespace UdpArq

/-- `GoBackNTransport`. -/
structure GoBackNTransport extends Core where
  timerDeadline : Dict Address (Option ℚ) := ∅

namespace GoBackNTransport

open UdpArq.Core

variable (cfg : Config)

/-- One iteration of `_drain_outbound`. -/
def drainItem (s : GoBackNTransport) : GoBackNTransport :=
  match s.outbound with
  | [] => s
  | item :: rest =>
      let s : GoBackNTransport :=
        { toCore := s.register item rest
          timerDeadline := s.timerDeadline.setdefault item.addr none }
      match newEstimator cfg with
      | none => { s with toCore := s.crash .rtoBounds }
      | some r =>
          { s with
            rto := s.rto.setdefault item.addr r
            sendTime := s.sendTime.setdefault item.addr ∅
            retransmitted := s.retransmitted.setdefault item.addr ∅ }

/-- `_drain_outbound`. -/
def drainOutbound (s : GoBackNTransport) : GoBackNTransport :=
  s.outbound.foldl
    (fun s _ => if s.crashed.isSome then s else drainItem cfg s) s

/-- Start the peer's timer when the packet entering the window is `base`. -/
def armTimer (s : GoBackNTransport) (addr : Address) (seq : ℕ) (now : ℚ) :
    GoBackNTransport :=
  if s.base.get? addr = some seq ∧ s.timerDeadline.getD addr none = none then
    match s.rtoValue cfg addr with
    | none => { s with toCore := s.crash (.keyError addr) }
    | some rto =>
        { s with timerDeadline := s.timerDeadline.set addr (some (now + rto)) }
  else s

/-- The channel I/O of `_pump_windows` with its exception handler. -/
def sendPacket (s : GoBackNTransport) (addr : Address) (seq : ℕ)
    (packet : Bytes) (sendResult : Option String) : GoBackNTransport :=
  match sendResult with
  | none => { s with toCore := s.transmit packet addr }
  | some what =>
      let s := { s with toCore := s.discard addr seq (.channel what) }
      if (sub s.outstanding addr).keys = [] then
        { s with timerDeadline := s.timerDeadline.set addr none }
      else s

/-- One packet of `_pump_windows`. -/
def pumpPacket (s : GoBackNTransport) (addr : Address) (input : PumpInput) :
    GoBackNTransport :=
  match s.nextToSend cfg addr with
  | none => s
  | some (seq, item) =>
      let s := { s with toCore := s.popPending addr seq }
      match dataPacket seq item.data with
      | .error e => { s with toCore := s.crash (.packet e) }
      | .ok packet =>
          let s := { s with toCore := s.launch addr seq item packet input.sentAt }
          let s := armTimer cfg s addr seq input.timerAt
          if s.crashed.isSome then s
          else sendPacket s addr seq packet input.sendResult

/-- The inner loop of `_pump_windows`. -/
def pumpPeer (input : Address → ℕ → PumpInput) (addr : Address) :
    ℕ → GoBackNTransport → GoBackNTransport
  | 0, s => s
  | n + 1, s =>
      if s.crashed.isSome then s
      else
        match s.nextToSend cfg addr with
        | none => s
        | some (seq, _) =>
            pumpPeer input addr n (pumpPacket cfg s addr (input addr seq))

/-- `_pump_windows`. -/
def pumpWindows (input : Address → ℕ → PumpInput) (s : GoBackNTransport) :
    GoBackNTransport :=
  s.pending.keys.foldl
    (fun s addr => pumpPeer cfg input addr (sub s.pending addr).keys.length s) s

/-- The timer handling at the end of `_handle_ack`. -/
def restartAfterAck (s : GoBackNTransport) (addr : Address) (ack nextSeq : ℕ)
    (now : ℚ) : GoBackNTransport :=
  if ack < nextSeq then
    match s.rtoValue cfg addr with
    | none => { s with toCore := s.crash (.keyError addr) }
    | some rto =>
        { s with timerDeadline := s.timerDeadline.set addr (some (now + rto)) }
  else { s with timerDeadline := s.timerDeadline.set addr none }

/-- `_handle_ack`. -/
def handleAck (s : GoBackNTransport) (raw : Bytes) (addr : Address)
    (input : IncomingInput) : GoBackNTransport :=
  match decode raw with
  | .error _ => s
  | .ok (header, _) =>
      if header.flags &&& FLAG_ACK = 0 then s
      else
        match s.base.get? addr with
        | none => s
        | some base =>
            let nextSeq := s.nextSeq.getD addr base
            let ack := header.ack
            if ack ≤ base then s
            else if ack > nextSeq then s
            else
              let acknowledged :=
                (sub s.outstanding addr).keys.filter fun q => q < ack
              let s := { s with
                toCore := { s.complete addr acknowledged with
                  base := s.base.set addr ack
                  retries := s.retries.set addr 0 } }
              let s :=
                if cfg.adaptive then
                  { s with toCore :=
                      s.sampleRtt addr base acknowledged input.ackedAt }
                else s
              if s.crashed.isSome then s
              else restartAfterAck cfg s addr ack nextSeq input.restartAt

/-- `_handle_incoming`. -/
def handleIncoming (s : GoBackNTransport) (raw : Bytes) (addr : Address)
    (input : IncomingInput) : GoBackNTransport :=
  if verify raw = false then s
  else
    match decode raw with
    | .error _ => s
    | .ok (header, payload) =>
        if header.flags &&& FLAG_ACK ≠ 0 then handleAck cfg s raw addr input
        else if header.flags &&& FLAG_DATA = 0 then s
        else
          let expected := s.expected.getD addr 0
          if header.seq = expected then
            let s := { s with expected := s.expected.set addr (expected + 1) }
            { s with toCore :=
                s.acknowledge addr (expected + 1) [payload] input.sendResult }
          else
            { s with toCore :=
                s.acknowledge addr expected [] input.sendResult }

/-- `_fail_peer`. -/
def failPeer (s : GoBackNTransport) (addr : Address) (e : Err) :
    GoBackNTransport :=
  { toCore := s.toCore.failPeer addr e
    timerDeadline := s.timerDeadline.set addr none }

/-- The retransmission loop of `_handle_timeouts`. -/
def retransmit (input : SweepInput) (addr : Address)
    (outstanding : Dict ℕ Bytes) :
    List ℕ → GoBackNTransport → GoBackNTransport
  | [], s => s
  | seq :: rest, s =>
      let s : GoBackNTransport :=
        if cfg.adaptive then
          { s with
            retransmitted := s.retransmitted.set addr
              (insert seq (s.retransmitted.getD addr ∅)) }
        else s
      match input.sendResult addr seq with
      | some what => failPeer s addr (.channel what)
      | none =>
          retransmit input addr outstanding rest
            { s with toCore :=
                s.transmit (outstanding.getD seq []) addr }

/-- The restart of the timer, with backoff in adaptive mode. -/
def restartTimer (s : GoBackNTransport) (addr : Address) (now : ℚ) :
    GoBackNTransport :=
  if (sub s.outstanding addr).keys = [] then s
  else
    let s : GoBackNTransport :=
      if cfg.adaptive then
        match s.rto.get? addr with
        | none => { s with toCore := s.crash (.keyError addr) }
        | some r => { s with rto := s.rto.set addr r.onTimeout }
      else s
    match s.rtoValue cfg addr with
    | none => { s with toCore := s.crash (.keyError addr) }
    | some rto =>
        { s with timerDeadline := s.timerDeadline.set addr (some (now + rto)) }

/-- `_handle_timeouts` for one peer. -/
def timeoutPeer (input : SweepInput) (s : GoBackNTransport)
    (addr : Address) : GoBackNTransport :=
  match s.timerDeadline.getD addr none with
  | none => s
  | some deadline =>
      if input.now < deadline then s
      else
        let outstanding := sub s.outstanding addr
        if outstanding.keys = [] then
          { s with timerDeadline := s.timerDeadline.set addr none }
        else
          let retries := s.retries.getD addr 0 + 1
          let s := { s with retries := s.retries.set addr retries }
          if retries > cfg.maxRetries then
            failPeer s addr (.noAck addr cfg.maxRetries)
          else
            let seqs := outstanding.keys.insertionSort fun a b => a ≤ b
            restartTimer cfg
              (retransmit cfg input addr outstanding seqs s) addr
              (input.restartAt addr)

/-- `_handle_timeouts`. -/
def handleTimeouts (s : GoBackNTransport) (input : SweepInput) :
    GoBackNTransport :=
  s.timerDeadline.keys.foldl
    (fun s addr =>
      if s.crashed.isSome then s else timeoutPeer cfg input s addr) s

/-- One atomic step. -/
def step (s : GoBackNTransport) : Event → GoBackNTransport
  | .sendto data addr =>
      match s.toCore.sendto cfg data addr with
      | .ok c => { s with toCore := c }
      | .error _ => s
  | .recvfrom =>
      match s.toCore.recvfrom with
      | .ok (_, c) => { s with toCore := c }
      | .error _ => s
  | .close => { s with toCore := s.toCore.close }
  | .drain => if s.crashed.isSome then s else drainItem cfg s
  | .pump addr input =>
      if s.crashed.isSome then s else pumpPacket cfg s addr input
  | .timeouts input => if s.crashed.isSome then s else handleTimeouts cfg s input
  | .incoming raw addr input =>
      if s.crashed.isSome then s else handleIncoming cfg s raw addr input

/-- A fresh transport. -/
def init : GoBackNTransport := {}

/-- The methods behind the events. -/
def handlers : Handlers toCore where
  withCore s c := { s with toCore := c }
  armTimer := armTimer cfg
  stopTimer s addr _ := { s with timerDeadline := s.timerDeadline.set addr none }
  drain := drainItem cfg
  pump := pumpPacket cfg
  timeouts := handleTimeouts cfg
  incoming := handleIncoming cfg
  core_withCore _ _ := rfl
  withCore_core _ := rfl
  withCore_withCore _ _ _ := rfl

theorem step_eq (s : GoBackNTransport) (e : Event) :
    step cfg s e = (handlers cfg).step cfg s e := by
  cases e <;> rfl

end GoBackNTransport

end UdpArq
