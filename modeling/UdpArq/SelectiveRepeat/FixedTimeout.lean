import UdpArq.SelectiveRepeat.Transport
import UdpArq.Transport.FixedTimeout

/-!
# Selective Repeat without timeout estimators

`selective_repeat.py` with all code of `RTOEstimator` removed: `_drain_outbound`
creates no estimator, every timer runs for `timeout`, and nothing is sampled or
backed off.  The field `rto` of the state is never written.
-/

namespace UdpArq

namespace SelectiveRepeatTransport

open UdpArq.Core

namespace FixedTimeout

variable (cfg : Config)

/-- One iteration of `_drain_outbound`. -/
def drainItem (s : SelectiveRepeatTransport) : SelectiveRepeatTransport :=
  match s.outbound with
  | [] => s
  | item :: rest =>
      { s with
        toCore := { s.register item rest with
          retransmitted := s.retransmitted.setdefault item.addr ∅
          sendTime := s.sendTime.setdefault item.addr ∅ }
        buffer := s.buffer.setdefault item.addr ∅ }

/-- Schedule the timer of one packet at `now` plus the timeout. -/
def armTimer (s : SelectiveRepeatTransport) (addr : Address) (seq : ℕ)
    (now : ℚ) : SelectiveRepeatTransport :=
  { s with timerHeap := s.timerHeap.schedule (addr, seq) (now + cfg.timeout) }

/-- One packet of `_pump_windows`. -/
def pumpPacket (s : SelectiveRepeatTransport) (addr : Address)
    (input : PumpInput) : SelectiveRepeatTransport :=
  match s.nextToSend cfg addr with
  | none => s
  | some (seq, item) =>
      let s := { s with toCore := s.popPending addr seq }
      match dataPacket seq item.data with
      | .error e => { s with toCore := s.crash (.packet e) }
      | .ok packet =>
          let s := { s with toCore := s.launch addr seq item packet input.sentAt }
          sendPacket (armTimer cfg s addr seq input.timerAt) addr seq packet
            input.sendResult

/-- `_handle_ack`; for `ack = 0` the acknowledged number is `-1`, which is
never outstanding. -/
def handleAck (s : SelectiveRepeatTransport) (raw : Bytes) (addr : Address) :
    SelectiveRepeatTransport :=
  match decode raw with
  | .error _ => s
  | .ok (header, _) =>
      if header.flags &&& FLAG_ACK = 0 then s
      else
        match s.base.get? addr with
        | none => s
        | some base =>
            let nextSeq := s.nextSeq.getD addr base
            if header.ack > nextSeq then s
            else
              match header.ack with
              | 0 => s
              | acked + 1 =>
                  if acked ∈ (sub s.outstanding addr).keys then
                    let s := { s with
                      toCore := s.complete addr [acked]
                      timerHeap := s.timerHeap.cancel (addr, acked) }
                    { s with
                      base := s.base.set addr
                        (advanceBase (sub s.outstanding addr) nextSeq
                          (nextSeq - base) base)
                      retries := s.retries.set addr 0 }
                  else s

/-- `_handle_incoming`. -/
def handleIncoming (s : SelectiveRepeatTransport) (raw : Bytes)
    (addr : Address) (input : IncomingInput) : SelectiveRepeatTransport :=
  if verify raw = false then s
  else
    match decode raw with
    | .error _ => s
    | .ok (header, payload) =>
        if header.flags &&& FLAG_ACK ≠ 0 then handleAck s raw addr
        else if header.flags &&& FLAG_DATA = 0 then s
        else handleData cfg s header.seq payload addr input

/-- The retransmission loop of `_handle_timeouts`. -/
def retransmit (input : SweepInput) (addr : Address) :
    List ℕ → SelectiveRepeatTransport → SelectiveRepeatTransport
  | [], s => s
  | seq :: rest, s =>
      match (sub s.outstanding addr).get? seq with
      | none => retransmit input addr rest s
      | some packet =>
          let s : SelectiveRepeatTransport :=
            { s with
              retransmitted := s.retransmitted.set addr
                (insert seq (s.retransmitted.getD addr ∅))
              retransmissions := s.retransmissions + 1 }
          let s := armTimer cfg s addr seq (input.rearmAt addr seq)
          match input.sendResult addr seq with
          | some what => failPeer s addr (.channel what)
          | none =>
              retransmit input addr rest
                { s with toCore := s.transmit packet addr }

/-- `_handle_timeouts` for one peer with due packets. -/
def timeoutPeer (input : SweepInput) (s : SelectiveRepeatTransport)
    (addr : Address) (seqs : List ℕ) : SelectiveRepeatTransport :=
  let retries := s.retries.getD addr 0 + 1
  let s := { s with retries := s.retries.set addr retries }
  if retries > cfg.maxRetries then
    failPeer s addr (.noAck addr cfg.maxRetries)
  else retransmit cfg input addr seqs s

/-- `_handle_timeouts`. -/
def handleTimeouts (s : SelectiveRepeatTransport) (input : SweepInput) :
    SelectiveRepeatTransport :=
  let popped := s.timerHeap.popDue input.now
  let groups := groupDue s popped.1 ∅
  groups.entries.foldl
    (fun s group =>
      if s.crashed.isSome then s
      else timeoutPeer cfg input s group.1 group.2)
    { s with timerHeap := popped.2 }

/-- One atomic step. -/
def step (s : SelectiveRepeatTransport) : Event → SelectiveRepeatTransport
  | .sendto data addr =>
      match s.toCore.sendto cfg data addr with
      | .ok c => { s with toCore := c }
      | .error _ => s
  | .recvfrom =>
      match s.toCore.recvfrom with
      | .ok (_, c) => { s with toCore := c }
      | .error _ => s
  | .close => { s with toCore := s.toCore.close }
  | .drain => if s.crashed.isSome then s else drainItem s
  | .pump addr input =>
      if s.crashed.isSome then s else pumpPacket cfg s addr input
  | .timeouts input => if s.crashed.isSome then s else handleTimeouts cfg s input
  | .incoming raw addr input =>
      if s.crashed.isSome then s else handleIncoming cfg s raw addr input

def handlers : Handlers toCore :=
  { SelectiveRepeatTransport.handlers cfg with
    armTimer := armTimer cfg
    drain := drainItem
    pump := pumpPacket cfg
    timeouts := handleTimeouts cfg
    incoming := handleIncoming cfg }

theorem step_eq (s : SelectiveRepeatTransport) (e : Event) :
    step cfg s e = (handlers cfg).step cfg s e := by
  cases e <;> rfl

end FixedTimeout

/-! ## The fixed timeout path does not read the estimators -/

/-- The state with the estimators removed. -/
def withoutRto (s : SelectiveRepeatTransport) : SelectiveRepeatTransport :=
  { s with toCore := s.toCore.withoutRto }

@[simp] theorem withoutRto_crashed (s : SelectiveRepeatTransport) :
    s.withoutRto.crashed = s.crashed := rfl

@[simp] theorem withoutRto_outbound (s : SelectiveRepeatTransport) :
    s.withoutRto.outbound = s.outbound := rfl

@[simp] theorem withoutRto_outstanding (s : SelectiveRepeatTransport) :
    s.withoutRto.outstanding = s.outstanding := rfl

variable {cfg : Config}

theorem drainItem_withoutRto (s : SelectiveRepeatTransport)
    (hcreates : s.outbound = [] ∨ newEstimator cfg ≠ none) :
    (drainItem cfg s).withoutRto = FixedTimeout.drainItem s.withoutRto := by
  rcases hqueue : s.outbound with _ | ⟨item, rest⟩
  · rw [drainItem, FixedTimeout.drainItem, withoutRto_outbound, hqueue]
  · obtain ⟨r, hr⟩ := Option.ne_none_iff_exists'.mp
      (hcreates.resolve_left (by simp [hqueue]))
    simp only [drainItem, FixedTimeout.drainItem, withoutRto_outbound, hqueue,
      hr]
    rfl

theorem armTimer_eq (hfixed : cfg.adaptive = false)
    (s : SelectiveRepeatTransport) (addr : Address) (seq : ℕ) (now : ℚ) :
    armTimer cfg s addr seq now = FixedTimeout.armTimer cfg s addr seq now := by
  simp only [armTimer, FixedTimeout.armTimer, rtoValue_eq_timeout hfixed]

/-- Setting a timer does not stop the thread. -/
theorem FixedTimeout.pumpPacket_eq {s : SelectiveRepeatTransport}
    (hrun : ¬ s.crashed.isSome) (addr : Address) (input : PumpInput) :
    FixedTimeout.pumpPacket cfg s addr input =
      (FixedTimeout.handlers cfg).pumpPacket cfg s addr input := by
  rcases hnext : s.nextToSend cfg addr with _ | ⟨seq, item⟩
  · rw [Handlers.pumpPacket_idle _ hnext]
    simp only [FixedTimeout.pumpPacket, hnext]
  rcases hpacket : dataPacket seq item.data with e | packet
  · rw [Handlers.pumpPacket_unencodable _ hnext hpacket]
    simp only [FixedTimeout.pumpPacket, hnext, hpacket]
    rfl
  · rw [Handlers.pumpPacket_launched _ hnext hpacket]
    simp only [FixedTimeout.pumpPacket, hnext, hpacket]
    exact (if_neg hrun).symm

/-! ### Incoming packets -/

theorem handleAck_withoutRto (hfixed : cfg.adaptive = false)
    {s : SelectiveRepeatTransport} (hrun : ¬ s.crashed.isSome) (raw : Bytes)
    (addr : Address) (input : IncomingInput) :
    (handleAck cfg s raw addr input).withoutRto =
      FixedTimeout.handleAck s.withoutRto raw addr := by
  rcases hdecode : decode raw with e | ⟨header, payload⟩
  · simp only [handleAck, FixedTimeout.handleAck, hdecode]
  simp only [handleAck, FixedTimeout.handleAck, hdecode]
  by_cases hflag : header.flags &&& FLAG_ACK = 0
  · rw [if_pos hflag, if_pos hflag]
  rw [if_neg hflag, if_neg hflag]
  have hbase' : s.withoutRto.base.get? addr = s.base.get? addr := rfl
  have hnext' : s.withoutRto.nextSeq = s.nextSeq := rfl
  rw [hbase', hnext', withoutRto_outstanding]
  rcases s.base.get? addr with _ | base
  · rfl
  dsimp only
  by_cases hbeyond : header.ack > s.nextSeq.getD addr base
  · rw [if_pos hbeyond, if_pos hbeyond]
  rw [if_neg hbeyond, if_neg hbeyond]
  rcases header.ack with _ | acked
  · rfl
  dsimp only
  by_cases hmem : acked ∈ (sub s.outstanding addr).keys
  · rw [if_pos hmem, if_pos hmem]
    simp only [hfixed, Bool.false_eq_true, if_false]
    exact congrArg withoutRto (if_neg hrun)
  · rw [if_neg hmem, if_neg hmem]

theorem handleData_withoutRto (s : SelectiveRepeatTransport) (seq : ℕ)
    (payload : Bytes) (addr : Address) (input : IncomingInput) :
    (handleData cfg s seq payload addr input).withoutRto =
      handleData cfg s.withoutRto seq payload addr input := by
  simp only [handleData, withoutRto, ← acknowledge_withoutRto]
  rfl

theorem handleIncoming_withoutRto (hfixed : cfg.adaptive = false)
    {s : SelectiveRepeatTransport} (hrun : ¬ s.crashed.isSome) (raw : Bytes)
    (addr : Address) (input : IncomingInput) :
    (handleIncoming cfg s raw addr input).withoutRto =
      FixedTimeout.handleIncoming cfg s.withoutRto raw addr input := by
  by_cases hverify : verify raw = false
  · rw [handleIncoming, FixedTimeout.handleIncoming, if_pos hverify,
      if_pos hverify]
  rcases hdecode : decode raw with e | ⟨header, payload⟩
  · simp only [handleIncoming, FixedTimeout.handleIncoming, if_neg hverify,
      hdecode]
  simp only [handleIncoming, FixedTimeout.handleIncoming, if_neg hverify,
    hdecode]
  by_cases hack : header.flags &&& FLAG_ACK ≠ 0
  · rw [if_pos hack, if_pos hack, handleAck_withoutRto hfixed hrun]
  rw [if_neg hack, if_neg hack]
  by_cases hdata : header.flags &&& FLAG_DATA = 0
  · rw [if_pos hdata, if_pos hdata]
  · rw [if_neg hdata, if_neg hdata, handleData_withoutRto]

/-! ### Timeouts -/

/-- Rearming and sending do not stop the thread either. -/
theorem retransmit_withoutRto (hfixed : cfg.adaptive = false)
    (input : SweepInput) (addr : Address) (seqs : List ℕ)
    {s : SelectiveRepeatTransport} (hrun : ¬ s.crashed.isSome) :
    (retransmit cfg input addr seqs s).withoutRto =
      FixedTimeout.retransmit cfg input addr seqs s.withoutRto := by
  induction seqs generalizing s with
  | nil => rfl
  | cons seq rest ih =>
      simp only [retransmit, FixedTimeout.retransmit, withoutRto_outstanding,
        armTimer_eq hfixed]
      rcases hget : (sub s.outstanding addr).get? seq with _ | packet
      · exact ih hrun
      dsimp only
      refine (congrArg withoutRto (if_neg hrun)).trans ?_
      rcases hsend : input.sendResult addr seq with _ | what
      · exact ih hrun
      · rfl

theorem timeoutPeer_withoutRto (hfixed : cfg.adaptive = false)
    (input : SweepInput) {s : SelectiveRepeatTransport}
    (hrun : ¬ s.crashed.isSome) (addr : Address) (seqs : List ℕ) :
    (timeoutPeer cfg input s addr seqs).withoutRto =
      FixedTimeout.timeoutPeer cfg input s.withoutRto addr seqs := by
  have hretries : s.withoutRto.retries = s.retries := rfl
  simp only [timeoutPeer, FixedTimeout.timeoutPeer, hretries, hfixed,
    Bool.false_eq_true, if_false, if_neg hrun]
  by_cases hcap : s.retries.getD addr 0 + 1 > cfg.maxRetries
  · rw [if_pos hcap, if_pos hcap]
    rfl
  · rw [if_neg hcap, if_neg hcap]
    exact retransmit_withoutRto hfixed input addr seqs hrun

theorem handleTimeouts_withoutRto (hfixed : cfg.adaptive = false)
    (s : SelectiveRepeatTransport) (input : SweepInput) :
    (handleTimeouts cfg s input).withoutRto =
      FixedTimeout.handleTimeouts cfg s.withoutRto input := by
  have hgroups : ∀ due groups,
      groupDue s.withoutRto due groups = groupDue s due groups := by
    intro due
    induction due with
    | nil => exact fun _ => rfl
    | cons key rest ih =>
        intro groups
        simp only [groupDue, withoutRto_outstanding, ih]
  have hheap : s.withoutRto.timerHeap = s.timerHeap := rfl
  simp only [handleTimeouts, FixedTimeout.handleTimeouts, hgroups, hheap]
  refine (List.foldl_hom withoutRto fun s group => ?_).symm
  rw [withoutRto_crashed]
  by_cases hrun : s.crashed.isSome
  · rw [if_pos hrun, if_pos hrun]
  · rw [if_neg hrun, if_neg hrun, timeoutPeer_withoutRto hfixed input hrun]

/-! ### Steps -/

/-- The event takes an item out of `_outbound` and creates an estimator. -/
def CreatesEstimator (s : SelectiveRepeatTransport) (e : Event) : Prop :=
  e = .drain ∧ s.crashed = none ∧ s.outbound ≠ []

/-- The transport beside the one without estimators. -/
theorem twins (hfixed : cfg.adaptive = false) :
    Twins cfg (handlers cfg) (FixedTimeout.handlers cfg) withoutRto where
  core_strip _ := rfl
  withCore _ _ := rfl
  armTimer s addr seq now :=
    congrArg withoutRto (armTimer_eq hfixed s addr seq now)
  stopTimer _ _ _ := rfl
  drain := drainItem_withoutRto
  pump_eq _ _ _ := rfl
  pump_fixed _ addr input hrun := FixedTimeout.pumpPacket_eq hrun addr input
  timeouts := handleTimeouts_withoutRto hfixed
  incoming _ raw addr input hrun :=
    handleIncoming_withoutRto hfixed hrun raw addr input
  raises s hqueue hnew := by
    obtain ⟨item, rest, hqueue⟩ := List.exists_cons_of_ne_nil hqueue
    simp only [handlers, drainItem, hqueue, hnew]
    rfl
  drains s := by
    simp only [FixedTimeout.handlers, FixedTimeout.drainItem]
    split <;> rfl

/-- Only an estimator that cannot be created makes a difference. -/
theorem step_withoutRto_iff (hfixed : cfg.adaptive = false)
    (s : SelectiveRepeatTransport) (e : Event) :
    (step cfg s e).withoutRto = FixedTimeout.step cfg s.withoutRto e ↔
      ¬ (s.CreatesEstimator e ∧ newEstimator cfg = none) := by
  rw [step_eq, FixedTimeout.step_eq]
  exact (twins hfixed).step_iff s e

end SelectiveRepeatTransport

end UdpArq
