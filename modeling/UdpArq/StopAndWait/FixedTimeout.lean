import UdpArq.StopAndWait.Transport
import UdpArq.Lib.Run
import UdpArq.Transport.FixedTimeout

/-!
# Stop-and-Wait without timeout estimators

`stop_and_wait.py` with all code of `RTOEstimator` removed, next to the
transport itself.  Both are run as sessions of one endpoint, which record the
packets sent and how the calls end.
-/

namespace UdpArq

namespace StopAndWaitTransport

/-! ## Sessions of one endpoint -/

/-- One endpoint with its `sendto` call under way, of type `κ`, and what can be
observed of it: the packets sent, how the `sendto` calls have ended, and how the
iterations of `recvfrom` have ended, each with the newest first. -/
structure Session (κ : Type) where
  transport : StopAndWaitTransport := {}
  call : Option κ := none
  channel : List (Bytes × Address) := []
  ended : List (Option Err) := []
  received : List Received := []

inductive SessionEvent
  | sendto (data : Bytes) (addr : Address)
  | transmit (sentAt : ℚ) (sendResult : Option String)
  | await (input : AwaitInput)
  | recvfrom (remaining : Option ℚ) (arrival : ChannelRecv)
      (sendResult : Option String)

/-- The ACK packets that an iteration of `recvfrom` has sent. -/
def Received.replies (arrival : ChannelRecv) :
    Received → List (Bytes × Address)
  | .acknowledged ack =>
      match arrival with
      | .packet _ addr => [(ack, addr)]
      | _ => []
  | .returning ack _ =>
      match arrival with
      | .packet _ addr => [(ack, addr)]
      | _ => []
  | _ => []

/-- The session after an iteration of `recvfrom`. -/
def Session.receives {κ : Type} (n : Session κ) (arrival : ChannelRecv)
    (result : StopAndWaitTransport × Received) : Session κ :=
  { n with
    transport := result.1
    channel := result.2.replies arrival ++ n.channel
    received := result.2 :: n.received }

/-- The session after a packet was given to the channel. -/
def Session.logs {κ : Type} (n : Session κ) (packet : Bytes) (addr : Address)
    (sendResult : Option String) : Session κ :=
  { n with
    channel :=
      if sendResult = none then (packet, addr) :: n.channel else n.channel }

/-- The session after a step of `sendto`. -/
def Session.sends {κ : Type} (n : Session κ)
    (result : StopAndWaitTransport × Progress κ) : Session κ :=
  match result.2 with
  | .running call => { n with transport := result.1, call := some call }
  | .returned =>
      { n with transport := result.1, call := none, ended := none :: n.ended }
  | .raised e =>
      { n with transport := result.1, call := none, ended := some e :: n.ended }

namespace Session

variable (cfg : Config)

/-- One step of the endpoint. -/
def step (n : Session Call) : SessionEvent → Session Call
  | .sendto data addr =>
      match n.call with
      | some _ => n
      | none => n.sends (n.transport.sendto cfg data addr)
  | .transmit sentAt sendResult =>
      match n.call with
      | none => n
      | some call =>
          match call.phase with
          | .waiting _ _ => n
          | .sending =>
              (n.logs call.packet call.addr sendResult).sends
                (n.transport,
                  StopAndWaitTransport.transmit cfg call sentAt sendResult)
  | .await input =>
      match n.call with
      | none => n
      | some call =>
          match call.phase with
          | .sending => n
          | .waiting sentAt deadline =>
              n.sends (awaitAck cfg n.transport call sentAt deadline input)
  | .recvfrom remaining arrival sendResult =>
      n.receives arrival (n.transport.recvfrom remaining arrival sendResult)

end Session

/-! ## The transport without estimators -/

namespace FixedTimeout

variable (cfg : Config)

/-- The local variables of a `sendto` call. -/
structure Call where
  addr : Address
  seq : ℕ
  packet : Bytes
  attempt : ℕ := 0
  phase : Phase := .sending

/-- The head of the loop over the attempts. -/
def beginAttempt (call : Call) (attempt : ℕ) : Progress Call :=
  if attempt < cfg.maxRetries then
    .running { call with attempt, phase := .sending }
  else .raised (.noAckForSeq call.seq call.addr cfg.maxRetries)

/-- `sendto` up to the loop over the attempts. -/
def sendto (t : StopAndWaitTransport) (data : Bytes) (addr : Address) :
    StopAndWaitTransport × Progress Call :=
  if data.length > cfg.mss then
    (t, .raised (.payloadTooLarge data.length cfg.mss))
  else
    let seq := t.sendBit.getD addr 0
    match Core.dataPacket seq data with
    | .error e => (t, .raised (.packet e))
    | .ok packet => (t, beginAttempt cfg { addr, seq, packet } 0)

/-- The transmission of an attempt. -/
def transmit (call : Call) (sentAt : ℚ) (sendResult : Option String) :
    Progress Call :=
  match sendResult with
  | some what => .raised (.channel what)
  | none =>
      .running { call with phase := .waiting sentAt (sentAt + cfg.timeout) }

/-- A packet that arrives while `sendto` waits. -/
def handlePacket (t : StopAndWaitTransport) (call : Call) (raw : Bytes)
    (fromAddr : Address) : StopAndWaitTransport × Progress Call :=
  if fromAddr ≠ call.addr then (t, .running call)
  else if verify raw = false then (t, .running call)
  else
    match decode raw with
    | .error _ => (t, .running call)
    | .ok (header, _) =>
        if header.flags &&& FLAG_ACK = 0 then (t, .running call)
        else if header.ack = call.seq ^^^ 1 then
          ({ t with sendBit := t.sendBit.set call.addr (call.seq ^^^ 1) },
            .returned)
        else (t, .running call)

/-- One iteration of the loop that waits for the acknowledgement. -/
def awaitAck (t : StopAndWaitTransport) (call : Call) (deadline : ℚ)
    (input : AwaitInput) : StopAndWaitTransport × Progress Call :=
  if deadline - input.now ≤ 0 then
    (t, beginAttempt cfg call (call.attempt + 1))
  else
    match input.arrival with
    | .timedOut => (t, beginAttempt cfg call (call.attempt + 1))
    | .raised what => (t, .raised (.channel what))
    | .packet raw fromAddr => handlePacket t call raw fromAddr

/-- One step of the endpoint. -/
def step (n : Session Call) : SessionEvent → Session Call
  | .sendto data addr =>
      match n.call with
      | some _ => n
      | none => n.sends (sendto cfg n.transport data addr)
  | .transmit sentAt sendResult =>
      match n.call with
      | none => n
      | some call =>
          match call.phase with
          | .waiting _ _ => n
          | .sending =>
              (n.logs call.packet call.addr sendResult).sends
                (n.transport, transmit cfg call sentAt sendResult)
  | .await input =>
      match n.call with
      | none => n
      | some call =>
          match call.phase with
          | .sending => n
          | .waiting _ deadline =>
              n.sends (awaitAck cfg n.transport call deadline input)
  | .recvfrom remaining arrival sendResult =>
      n.receives arrival (n.transport.recvfrom remaining arrival sendResult)

end FixedTimeout

/-! ## The fixed timeout path does not read the estimators -/

/-- The state with the estimators removed. -/
def withoutRto (t : StopAndWaitTransport) : StopAndWaitTransport :=
  { t with rto := ∅ }

def Call.withoutRto (call : Call) : FixedTimeout.Call where
  addr := call.addr
  seq := call.seq
  packet := call.packet
  attempt := call.attempt
  phase := call.phase

def Progress.withoutRto : Progress Call → Progress FixedTimeout.Call
  | .running call => .running call.withoutRto
  | .returned => .returned
  | .raised e => .raised e

def Session.withoutRto (n : Session Call) : Session FixedTimeout.Call where
  transport := n.transport.withoutRto
  call := n.call.map Call.withoutRto
  channel := n.channel
  ended := n.ended
  received := n.received

variable {cfg : Config}

theorem beginAttempt_withoutRto (call : Call) (attempt : ℕ) :
    (beginAttempt cfg call attempt).withoutRto =
      FixedTimeout.beginAttempt cfg call.withoutRto attempt := by
  simp only [beginAttempt, FixedTimeout.beginAttempt]
  split <;> rfl

/-- A call without estimator differs from one with an estimator in nothing
else. -/
theorem sendto_withoutRto (hnew : Core.newEstimator cfg ≠ none)
    (t : StopAndWaitTransport) (data : Bytes) (addr : Address) :
    ((t.sendto cfg data addr).1.withoutRto,
        (t.sendto cfg data addr).2.withoutRto) =
      FixedTimeout.sendto cfg t.withoutRto data addr := by
  obtain ⟨r, hr⟩ := Option.ne_none_iff_exists'.mp hnew
  have hbit : t.withoutRto.sendBit = t.sendBit := rfl
  by_cases hlen : data.length > cfg.mss
  · rw [sendto, FixedTimeout.sendto, if_pos hlen, if_pos hlen]
    rfl
  simp only [sendto, FixedTimeout.sendto, if_neg hlen, hr, hbit]
  rcases Core.dataPacket (t.sendBit.getD addr 0) data with e | packet
  · rfl
  · exact Prod.ext rfl (beginAttempt_withoutRto _ 0)

theorem transmit_withoutRto (hfixed : cfg.adaptive = false) (call : Call)
    (sentAt : ℚ) (sendResult : Option String) :
    (transmit cfg call sentAt sendResult).withoutRto =
      FixedTimeout.transmit cfg call.withoutRto sentAt sendResult := by
  rcases sendResult with _ | what
  · simp only [transmit, hfixed, Bool.false_eq_true, if_false]
    rfl
  · rfl

theorem handlePacket_withoutRto (hfixed : cfg.adaptive = false)
    (t : StopAndWaitTransport) (call : Call) (sentAt : ℚ) (raw : Bytes)
    (fromAddr : Address) (now : ℚ) :
    ((handlePacket cfg t call sentAt raw fromAddr now).1.withoutRto,
        (handlePacket cfg t call sentAt raw fromAddr now).2.withoutRto) =
      FixedTimeout.handlePacket t.withoutRto call.withoutRto raw fromAddr := by
  have haddr : call.withoutRto.addr = call.addr := rfl
  have hseq : call.withoutRto.seq = call.seq := rfl
  simp only [handlePacket, FixedTimeout.handlePacket, haddr, hseq]
  by_cases hother : fromAddr ≠ call.addr
  · rw [if_pos hother, if_pos hother]
    rfl
  rw [if_neg hother, if_neg hother]
  by_cases hverify : verify raw = false
  · rw [if_pos hverify, if_pos hverify]
    rfl
  rw [if_neg hverify, if_neg hverify]
  rcases decode raw with e | ⟨header, payload⟩
  · rfl
  dsimp only
  split_ifs
  · rfl
  · simp only [acknowledged, hfixed, Bool.false_eq_true, false_and, if_false]
    rfl
  · rfl

theorem awaitAck_withoutRto (hfixed : cfg.adaptive = false)
    (t : StopAndWaitTransport) (call : Call) (sentAt deadline : ℚ)
    (input : AwaitInput) :
    ((awaitAck cfg t call sentAt deadline input).1.withoutRto,
        (awaitAck cfg t call sentAt deadline input).2.withoutRto) =
      FixedTimeout.awaitAck cfg t.withoutRto call.withoutRto deadline input := by
  have htimedOut : attemptTimedOut cfg t call =
      (t, beginAttempt cfg call (call.attempt + 1)) := by
    simp [attemptTimedOut, hfixed]
  simp only [awaitAck, FixedTimeout.awaitAck, htimedOut]
  by_cases hlate : deadline - input.now ≤ 0
  · rw [if_pos hlate, if_pos hlate]
    exact Prod.ext rfl (beginAttempt_withoutRto call _)
  rw [if_neg hlate, if_neg hlate]
  rcases input.arrival with ⟨raw, fromAddr⟩ | _ | what
  · exact handlePacket_withoutRto hfixed t call sentAt raw fromAddr input.ackedAt
  · exact Prod.ext rfl (beginAttempt_withoutRto call _)
  · rfl

theorem recvfrom_withoutRto (t : StopAndWaitTransport) (remaining : Option ℚ)
    (arrival : ChannelRecv) (sendResult : Option String) :
    ((t.recvfrom remaining arrival sendResult).1.withoutRto,
        (t.recvfrom remaining arrival sendResult).2) =
      t.withoutRto.recvfrom remaining arrival sendResult := by
  unfold recvfrom
  split_ifs
  · rfl
  rcases arrival with ⟨raw, addr⟩ | _ | what
  · simp only [recvPacket]
    by_cases hverify : verify raw = false
    · rw [if_pos hverify, if_pos hverify]
    rw [if_neg hverify, if_neg hverify]
    rcases decode raw with e | ⟨header, payload⟩
    · rfl
    dsimp only
    by_cases hdata : header.flags &&& FLAG_DATA = 0
    · rw [if_pos hdata, if_pos hdata]
    rw [if_neg hdata, if_neg hdata]
    have hbit : t.withoutRto.recvBit = t.recvBit := rfl
    simp only [acceptData, hbit]
    by_cases hnew : header.seq = t.recvBit.getD addr 0
    · simp only [hnew, decide_true, if_true]
      rcases Core.ackPacket (t.recvBit.getD addr 0 ^^^ 1) with e | ack
      · rfl
      · rcases sendResult with _ | what <;> rfl
    · simp only [hnew, decide_false, Bool.false_eq_true, if_false]
      rcases Core.ackPacket (t.recvBit.getD addr 0) with e | ack
      · rfl
      · rcases sendResult with _ | what <;> rfl
  · rfl
  · rfl

/-! ### Steps -/

theorem sends_withoutRto (n : Session Call)
    (result : StopAndWaitTransport × Progress Call) :
    (n.sends result).withoutRto =
      n.withoutRto.sends (result.1.withoutRto, result.2.withoutRto) := by
  obtain ⟨t, progress⟩ := result
  rcases progress with call | _ | e <;> rfl

theorem withoutRto_call (n : Session Call) :
    n.withoutRto.call = n.call.map Call.withoutRto := rfl

theorem step_withoutRto_transmit (hfixed : cfg.adaptive = false)
    (n : Session Call) (sentAt : ℚ) (sendResult : Option String) :
    (n.step cfg (.transmit sentAt sendResult)).withoutRto =
      FixedTimeout.step cfg n.withoutRto (.transmit sentAt sendResult) := by
  simp only [Session.step, FixedTimeout.step, withoutRto_call]
  rcases n.call with _ | call
  · rfl
  have hphase : call.withoutRto.phase = call.phase := rfl
  simp only [Option.map_some, hphase]
  rcases call.phase with _ | ⟨sentAt', deadline⟩
  · dsimp only
    rw [sends_withoutRto, transmit_withoutRto hfixed]
    rfl
  · rfl

theorem step_withoutRto_await (hfixed : cfg.adaptive = false)
    (n : Session Call) (input : AwaitInput) :
    (n.step cfg (.await input)).withoutRto =
      FixedTimeout.step cfg n.withoutRto (.await input) := by
  simp only [Session.step, FixedTimeout.step, withoutRto_call]
  rcases n.call with _ | call
  · rfl
  have hphase : call.withoutRto.phase = call.phase := rfl
  simp only [Option.map_some, hphase]
  rcases call.phase with _ | ⟨sentAt, deadline⟩
  · rfl
  · dsimp only
    rw [sends_withoutRto, awaitAck_withoutRto hfixed]
    rfl

theorem step_withoutRto_recvfrom (n : Session Call) (remaining : Option ℚ)
    (arrival : ChannelRecv) (sendResult : Option String) :
    (n.step cfg (.recvfrom remaining arrival sendResult)).withoutRto =
      FixedTimeout.step cfg n.withoutRto
        (.recvfrom remaining arrival sendResult) := by
  have htransport : n.withoutRto.transport = n.transport.withoutRto := rfl
  simp only [Session.step, FixedTimeout.step, htransport]
  rw [← recvfrom_withoutRto]
  rfl

/-- The event starts a `sendto` call that creates an estimator. -/
def CreatesEstimator (cfg : Config) (n : Session Call) (e : SessionEvent) :
    Prop :=
  n.call = none ∧ ∃ data addr, e = .sendto data addr ∧ data.length ≤ cfg.mss

/-- A `sendto` call of the fixed transport never raises the error of the
estimator. -/
theorem sendto_ne_rtoBounds (cfg : Config) (t : StopAndWaitTransport)
    (data : Bytes) (addr : Address) :
    (FixedTimeout.sendto cfg t data addr).2 ≠ .raised .rtoBounds := by
  by_cases hlen : data.length > cfg.mss
  · rw [FixedTimeout.sendto, if_pos hlen]
    simp
  simp only [FixedTimeout.sendto, if_neg hlen]
  rcases Core.dataPacket (t.sendBit.getD addr 0) data with e | packet
  · simp
  · simp only [FixedTimeout.beginAttempt]
    split_ifs <;> simp

theorem eq_raised_of_ended (n : Session FixedTimeout.Call)
    (result : StopAndWaitTransport × Progress FixedTimeout.Call) {e : Err}
    (h : (n.sends result).ended = some e :: n.ended) :
    result.2 = .raised e := by
  obtain ⟨t, call | _ | e'⟩ := result
  · exact absurd h.symm (List.cons_ne_self _ _)
  · cases (List.cons.inj h).1
  · cases (List.cons.inj h).1
    rfl

theorem step_withoutRto_sendto_iff (n : Session Call) (data : Bytes)
    (addr : Address) :
    (n.step cfg (.sendto data addr)).withoutRto =
        FixedTimeout.step cfg n.withoutRto (.sendto data addr) ↔
      ¬ (CreatesEstimator cfg n (.sendto data addr) ∧
        Core.newEstimator cfg = none) := by
  rcases hcall : n.call with _ | call
  · have hcall' : n.withoutRto.call = none := by
      rw [withoutRto_call, hcall]
      rfl
    have hstep : FixedTimeout.step cfg n.withoutRto (.sendto data addr) =
        n.withoutRto.sends
          (FixedTimeout.sendto cfg n.withoutRto.transport data addr) := by
      simp only [FixedTimeout.step, hcall']
    rw [hstep]
    simp only [Session.step, hcall]
    by_cases hcreates : data.length ≤ cfg.mss ∧ Core.newEstimator cfg = none
    · obtain ⟨hlen, hnew⟩ := hcreates
      have hraise : n.transport.sendto cfg data addr =
          (n.transport, .raised .rtoBounds) := by
        simp only [sendto, if_neg (not_lt.mpr hlen), hnew]
      refine iff_of_false ?_
        (not_not.mpr ⟨⟨hcall, data, addr, rfl, hlen⟩, hnew⟩)
      intro heq
      refine sendto_ne_rtoBounds cfg n.withoutRto.transport data addr ?_
      apply eq_raised_of_ended n.withoutRto
      rw [← heq, hraise]
      rfl
    · refine iff_of_true ?_ ?_
      · rw [sends_withoutRto]
        by_cases hlen : data.length ≤ cfg.mss
        · rw [sendto_withoutRto fun hnew => hcreates ⟨hlen, hnew⟩]
          rfl
        · simp only [sendto, FixedTimeout.sendto, if_pos (not_le.mp hlen)]
          rfl
      · rintro ⟨⟨-, data', addr', heq, hlen⟩, hnew⟩
        obtain ⟨rfl, -⟩ := SessionEvent.sendto.inj heq
        exact hcreates ⟨hlen, hnew⟩
  · have hcall' : n.withoutRto.call = some call.withoutRto := by
      rw [withoutRto_call, hcall]
      rfl
    simp only [Session.step, FixedTimeout.step, hcall, hcall']
    refine iff_of_true trivial ?_
    rintro ⟨⟨hnone, -⟩, -⟩
    rw [hcall] at hnone
    cases hnone

/-- Only an estimator that cannot be created makes a difference. -/
theorem step_withoutRto_iff (hfixed : cfg.adaptive = false) (n : Session Call)
    (e : SessionEvent) :
    (n.step cfg e).withoutRto = FixedTimeout.step cfg n.withoutRto e ↔
      ¬ (CreatesEstimator cfg n e ∧ Core.newEstimator cfg = none) := by
  by_cases hsendto : ∃ data addr, e = .sendto data addr
  · obtain ⟨data, addr, rfl⟩ := hsendto
    exact step_withoutRto_sendto_iff n data addr
  refine iff_of_true ?_ ?_
  · rcases e with ⟨data, addr⟩ | ⟨sentAt, sendResult⟩ | input |
      ⟨remaining, arrival, sendResult⟩
    · exact absurd ⟨data, addr, rfl⟩ hsendto
    · exact step_withoutRto_transmit hfixed n sentAt sendResult
    · exact step_withoutRto_await hfixed n input
    · exact step_withoutRto_recvfrom n remaining arrival sendResult
  · rintro ⟨⟨-, data, addr, rfl, -⟩, -⟩
    exact hsendto ⟨data, addr, rfl⟩

end StopAndWaitTransport

end UdpArq
