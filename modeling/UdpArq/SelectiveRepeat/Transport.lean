import UdpArq.TimerHeap
import UdpArq.Transport.Handlers

/-!
# The Selective Repeat transport

`selective_repeat.py`: the state of a `SelectiveRepeatTransport` and one
definition for each of its methods.
-/

namespace UdpArq

/-- `SelectiveRepeatTransport`. -/
structure SelectiveRepeatTransport extends Core where
  timerHeap : TimerHeap (Address × ℕ) := {}
  retransmissions : ℕ := 0
  buffer : Dict Address (Dict ℕ Bytes) := ∅

namespace SelectiveRepeatTransport

open UdpArq.Core

variable (cfg : Config)

/-- One iteration of `_drain_outbound`. -/
def drainItem (s : SelectiveRepeatTransport) : SelectiveRepeatTransport :=
  match s.outbound with
  | [] => s
  | item :: rest =>
      let s : SelectiveRepeatTransport :=
        { s with
          toCore := s.register item rest
          buffer := s.buffer.setdefault item.addr ∅ }
      let s : SelectiveRepeatTransport :=
        { s with
          retransmitted := s.retransmitted.setdefault item.addr ∅ }
      match newEstimator cfg with
      | none => { s with toCore := s.crash .rtoBounds }
      | some r =>
          { s with
            rto := s.rto.setdefault item.addr r
            sendTime := s.sendTime.setdefault item.addr ∅ }

/-- `_drain_outbound`. -/
def drainOutbound (s : SelectiveRepeatTransport) : SelectiveRepeatTransport :=
  s.outbound.foldl
    (fun s _ => if s.crashed.isSome then s else drainItem cfg s) s

/-- Schedule the timer of one packet at `now` plus the timeout. -/
def armTimer (s : SelectiveRepeatTransport) (addr : Address) (seq : ℕ)
    (now : ℚ) : SelectiveRepeatTransport :=
  match s.rtoValue cfg addr with
  | none => { s with toCore := s.crash (.keyError addr) }
  | some rto =>
      { s with timerHeap := s.timerHeap.schedule (addr, seq) (now + rto) }

/-- The channel I/O of `_pump_windows` with its exception handler. -/
def sendPacket (s : SelectiveRepeatTransport) (addr : Address) (seq : ℕ)
    (packet : Bytes) (sendResult : Option String) : SelectiveRepeatTransport :=
  match sendResult with
  | none => { s with toCore := s.transmit packet addr }
  | some what =>
      let s := { s with toCore := s.discard addr seq (.channel what) }
      if (sub s.outstanding addr).keys = [] then
        { s with timerHeap := s.timerHeap.cancel (addr, seq) }
      else s

/-- One packet of `_pump_windows`. -/
def pumpPacket (s : SelectiveRepeatTransport) (addr : Address)
    (input : PumpInput) : SelectiveRepeatTransport :=
  match s.nextToSend cfg addr with
  | none => s
  | some (seq, item) =>
      let s := { s with toCore := s.popPending addr seq }
      match dataPacket seq item.data with
      | .error e => { s with toCore := s.crash (.packet e) }
      | .ok packet =>
          let s := { s with toCore := s.launch addr seq item packet input.sentAt }
          let s := armTimer cfg s addr seq input.timerAt
          if s.crashed.isSome then s
          else sendPacket s addr seq packet input.sendResult

/-- The inner loop of `_pump_windows`. -/
def pumpPeer (input : Address → ℕ → PumpInput) (addr : Address) :
    ℕ → SelectiveRepeatTransport → SelectiveRepeatTransport
  | 0, s => s
  | n + 1, s =>
      if s.crashed.isSome then s
      else
        match s.nextToSend cfg addr with
        | none => s
        | some (seq, _) =>
            pumpPeer input addr n (pumpPacket cfg s addr (input addr seq))

/-- `_pump_windows`. -/
def pumpWindows (input : Address → ℕ → PumpInput)
    (s : SelectiveRepeatTransport) : SelectiveRepeatTransport :=
  s.pending.keys.foldl
    (fun s addr => pumpPeer cfg input addr (sub s.pending addr).keys.length s) s

/-- `while base < next_seq and base not in outstanding: base += 1`, with a
bound on the number of iterations. -/
def advanceBase (outstanding : Dict ℕ Bytes) (nextSeq : ℕ) : ℕ → ℕ → ℕ
  | 0, base => base
  | n + 1, base =>
      if base < nextSeq ∧ base ∉ outstanding.keys then
        advanceBase outstanding nextSeq n (base + 1)
      else base

/-- `_handle_ack`; for `ack = 0` the acknowledged number is `-1`, which is
never outstanding. -/
def handleAck (s : SelectiveRepeatTransport) (raw : Bytes) (addr : Address)
    (input : IncomingInput) : SelectiveRepeatTransport :=
  match decode raw with
  | .error _ => s
  | .ok (header, _) =>
      if header.flags &&& FLAG_ACK = 0 then s
      else
        match s.base.get? addr with
        | none => s
        | some base =>
            let nextSeq := s.nextSeq.getD addr base
            if header.ack > nextSeq then s
            else
              match header.ack with
              | 0 => s
              | acked + 1 =>
                  if acked ∈ (sub s.outstanding addr).keys then
                    let s := { s with
                      toCore := s.complete addr [acked]
                      timerHeap := s.timerHeap.cancel (addr, acked) }
                    let s :=
                      if cfg.adaptive then
                        { s with toCore :=
                            s.sampleRtt addr acked [acked] input.ackedAt }
                      else s
                    if s.crashed.isSome then s
                    else
                      { s with
                        base := s.base.set addr
                          (advanceBase (sub s.outstanding addr) nextSeq
                            (nextSeq - base) base)
                        retries := s.retries.set addr 0 }
                  else s

/-- `while expected in buffer`, with a bound on the number of iterations: the
payloads taken out, the buffer that is left and the new `expected`. -/
def drainBuffer : ℕ → Dict ℕ Bytes → ℕ → List Bytes × Dict ℕ Bytes × ℕ
  | 0, buffer, expected => ([], buffer, expected)
  | n + 1, buffer, expected =>
      match buffer.get? expected with
      | none => ([], buffer, expected)
      | some payload =>
          let left := drainBuffer n (buffer.erase expected) (expected + 1)
          (payload :: left.1, left.2)

/-- The DATA branch of `_handle_incoming`. -/
def handleData (s : SelectiveRepeatTransport) (seq : ℕ) (payload : Bytes)
    (addr : Address) (input : IncomingInput) : SelectiveRepeatTransport :=
  let expected := s.expected.getD addr 0
  let buffer := sub s.buffer addr
  let inWindow := expected ≤ seq ∧ seq < expected + cfg.windowSize
  let buffer := if inWindow then buffer.set seq payload else buffer
  let ackFor := if inWindow ∨ seq < expected then seq + 1 else expected
  let left := drainBuffer buffer.keys.length buffer expected
  let s := { s with
    expected := s.expected.set addr left.2.2
    buffer := s.buffer.set addr left.2.1 }
  { s with toCore := s.acknowledge addr ackFor left.1 input.sendResult }

/-- `_handle_incoming`. -/
def handleIncoming (s : SelectiveRepeatTransport) (raw : Bytes)
    (addr : Address) (input : IncomingInput) : SelectiveRepeatTransport :=
  if verify raw = false then s
  else
    match decode raw with
    | .error _ => s
    | .ok (header, payload) =>
        if header.flags &&& FLAG_ACK ≠ 0 then handleAck cfg s raw addr input
        else if header.flags &&& FLAG_DATA = 0 then s
        else handleData cfg s header.seq payload addr input

/-- `_fail_peer`. -/
def failPeer (s : SelectiveRepeatTransport) (addr : Address) (e : Err) :
    SelectiveRepeatTransport :=
  { s with
    toCore := { s.toCore.failPeer addr e with
      sendTime := s.sendTime.modify addr fun _ => ∅
      retransmitted := s.retransmitted.modify addr fun _ => ∅ }
    timerHeap := (sub s.outstanding addr).keys.foldl
      (fun heap seq => heap.cancel (addr, seq)) s.timerHeap }

/-- The due packets that are still outstanding, grouped by peer. -/
def groupDue (s : SelectiveRepeatTransport) :
    List (Address × ℕ) → Dict Address (List ℕ) → Dict Address (List ℕ)
  | [], groups => groups
  | (addr, seq) :: rest, groups =>
      if seq ∈ (sub s.outstanding addr).keys then
        groupDue s rest (groups.set addr (groups.getD addr [] ++ [seq]))
      else groupDue s rest groups

/-- The retransmission loop of `_handle_timeouts`. -/
def retransmit (input : SweepInput) (addr : Address) :
    List ℕ → SelectiveRepeatTransport → SelectiveRepeatTransport
  | [], s => s
  | seq :: rest, s =>
      match (sub s.outstanding addr).get? seq with
      | none => retransmit input addr rest s
      | some packet =>
          let s : SelectiveRepeatTransport :=
            { s with
              retransmitted := s.retransmitted.set addr
                (insert seq (s.retransmitted.getD addr ∅))
              retransmissions := s.retransmissions + 1 }
          let s := armTimer cfg s addr seq (input.rearmAt addr seq)
          if s.crashed.isSome then s
          else
            match input.sendResult addr seq with
            | some what => failPeer s addr (.channel what)
            | none =>
                retransmit input addr rest
                  { s with toCore := s.transmit packet addr }

/-- `_handle_timeouts` for one peer with due packets. -/
def timeoutPeer (input : SweepInput) (s : SelectiveRepeatTransport)
    (addr : Address) (seqs : List ℕ) : SelectiveRepeatTransport :=
  let retries := s.retries.getD addr 0 + 1
  let s := { s with retries := s.retries.set addr retries }
  let s : SelectiveRepeatTransport :=
    if cfg.adaptive then
      match s.rto.get? addr with
      | none => { s with toCore := s.crash (.keyError addr) }
      | some r => { s with rto := s.rto.set addr r.onTimeout }
    else s
  if s.crashed.isSome then s
  else if retries > cfg.maxRetries then
    failPeer s addr (.noAck addr cfg.maxRetries)
  else retransmit cfg input addr seqs s

/-- `_handle_timeouts`. -/
def handleTimeouts (s : SelectiveRepeatTransport) (input : SweepInput) :
    SelectiveRepeatTransport :=
  let popped := s.timerHeap.popDue input.now
  let groups := groupDue s popped.1 ∅
  groups.entries.foldl
    (fun s group =>
      if s.crashed.isSome then s
      else timeoutPeer cfg input s group.1 group.2)
    { s with timerHeap := popped.2 }

/-- One atomic step. -/
def step (s : SelectiveRepeatTransport) : Event → SelectiveRepeatTransport
  | .sendto data addr =>
      match s.toCore.sendto cfg data addr with
      | .ok c => { s with toCore := c }
      | .error _ => s
  | .recvfrom =>
      match s.toCore.recvfrom with
      | .ok (_, c) => { s with toCore := c }
      | .error _ => s
  | .close => { s with toCore := s.toCore.close }
  | .drain => if s.crashed.isSome then s else drainItem cfg s
  | .pump addr input =>
      if s.crashed.isSome then s else pumpPacket cfg s addr input
  | .timeouts input => if s.crashed.isSome then s else handleTimeouts cfg s input
  | .incoming raw addr input =>
      if s.crashed.isSome then s else handleIncoming cfg s raw addr input

/-- A fresh transport. -/
def init : SelectiveRepeatTransport := {}

/-- The methods behind the events. -/
def handlers : Handlers toCore where
  withCore s c := { s with toCore := c }
  armTimer := armTimer cfg
  stopTimer s addr seq := { s with timerHeap := s.timerHeap.cancel (addr, seq) }
  drain := drainItem cfg
  pump := pumpPacket cfg
  timeouts := handleTimeouts cfg
  incoming := handleIncoming cfg
  core_withCore _ _ := rfl
  withCore_core _ := rfl
  withCore_withCore _ _ _ := rfl

theorem step_eq (s : SelectiveRepeatTransport) (e : Event) :
    step cfg s e = (handlers cfg).step cfg s e := by
  cases e <;> rfl

end SelectiveRepeatTransport

end UdpArq
