import UdpArq.GoBackN.Transport
import UdpArq.Transport.FixedTimeout

/-!
# Go-Back-N without timeout estimators

`go_back_n.py` with all code of `RTOEstimator` removed: `_drain_outbound`
creates no estimator, every timer runs for `timeout`, and nothing is sampled or
backed off.  The field `rto` of the state is never written.
-/

namespace UdpArq

namespace GoBackNTransport

open UdpArq.Core

namespace FixedTimeout

variable (cfg : Config)

/-- One iteration of `_drain_outbound`. -/
def drainItem (s : GoBackNTransport) : GoBackNTransport :=
  match s.outbound with
  | [] => s
  | item :: rest =>
      { toCore := { s.register item rest with
          sendTime := s.sendTime.setdefault item.addr ∅
          retransmitted := s.retransmitted.setdefault item.addr ∅ }
        timerDeadline := s.timerDeadline.setdefault item.addr none }

/-- Start the peer's timer when the packet entering the window is `base`. -/
def armTimer (s : GoBackNTransport) (addr : Address) (seq : ℕ) (now : ℚ) :
    GoBackNTransport :=
  if s.base.get? addr = some seq ∧ s.timerDeadline.getD addr none = none then
    { s with
      timerDeadline := s.timerDeadline.set addr (some (now + cfg.timeout)) }
  else s

/-- One packet of `_pump_windows`. -/
def pumpPacket (s : GoBackNTransport) (addr : Address) (input : PumpInput) :
    GoBackNTransport :=
  match s.nextToSend cfg addr with
  | none => s
  | some (seq, item) =>
      let s := { s with toCore := s.popPending addr seq }
      match dataPacket seq item.data with
      | .error e => { s with toCore := s.crash (.packet e) }
      | .ok packet =>
          let s := { s with toCore := s.launch addr seq item packet input.sentAt }
          sendPacket (armTimer cfg s addr seq input.timerAt) addr seq packet
            input.sendResult

/-- The timer handling at the end of `_handle_ack`. -/
def restartAfterAck (s : GoBackNTransport) (addr : Address) (ack nextSeq : ℕ)
    (now : ℚ) : GoBackNTransport :=
  { s with
    timerDeadline := s.timerDeadline.set addr
      (if ack < nextSeq then some (now + cfg.timeout) else none) }

/-- `_handle_ack`. -/
def handleAck (s : GoBackNTransport) (raw : Bytes) (addr : Address)
    (input : IncomingInput) : GoBackNTransport :=
  match decode raw with
  | .error _ => s
  | .ok (header, _) =>
      if header.flags &&& FLAG_ACK = 0 then s
      else
        match s.base.get? addr with
        | none => s
        | some base =>
            let nextSeq := s.nextSeq.getD addr base
            let ack := header.ack
            if ack ≤ base then s
            else if ack > nextSeq then s
            else
              let acknowledged :=
                (sub s.outstanding addr).keys.filter fun q => q < ack
              let s := { s with
                toCore := { s.complete addr acknowledged with
                  base := s.base.set addr ack
                  retries := s.retries.set addr 0 } }
              restartAfterAck cfg s addr ack nextSeq input.restartAt

/-- `_handle_incoming`. -/
def handleIncoming (s : GoBackNTransport) (raw : Bytes) (addr : Address)
    (input : IncomingInput) : GoBackNTransport :=
  if verify raw = false then s
  else
    match decode raw with
    | .error _ => s
    | .ok (header, payload) =>
        if header.flags &&& FLAG_ACK ≠ 0 then handleAck cfg s raw addr input
        else if header.flags &&& FLAG_DATA = 0 then s
        else
          let expected := s.expected.getD addr 0
          if header.seq = expected then
            let s := { s with expected := s.expected.set addr (expected + 1) }
            { s with toCore :=
                s.acknowledge addr (expected + 1) [payload] input.sendResult }
          else
            { s with toCore :=
                s.acknowledge addr expected [] input.sendResult }

/-- The retransmission loop of `_handle_timeouts`. -/
def retransmit (input : SweepInput) (addr : Address)
    (outstanding : Dict ℕ Bytes) :
    List ℕ → GoBackNTransport → GoBackNTransport
  | [], s => s
  | seq :: rest, s =>
      match input.sendResult addr seq with
      | some what => failPeer s addr (.channel what)
      | none =>
          retransmit input addr outstanding rest
            { s with toCore := s.transmit (outstanding.getD seq []) addr }

/-- The restart of the timer. -/
def restartTimer (s : GoBackNTransport) (addr : Address) (now : ℚ) :
    GoBackNTransport :=
  if (sub s.outstanding addr).keys = [] then s
  else
    { s with
      timerDeadline := s.timerDeadline.set addr (some (now + cfg.timeout)) }

/-- `_handle_timeouts` for one peer. -/
def timeoutPeer (input : SweepInput) (s : GoBackNTransport)
    (addr : Address) : GoBackNTransport :=
  match s.timerDeadline.getD addr none with
  | none => s
  | some deadline =>
      if input.now < deadline then s
      else
        let outstanding := sub s.outstanding addr
        if outstanding.keys = [] then
          { s with timerDeadline := s.timerDeadline.set addr none }
        else
          let retries := s.retries.getD addr 0 + 1
          let s := { s with retries := s.retries.set addr retries }
          if retries > cfg.maxRetries then
            failPeer s addr (.noAck addr cfg.maxRetries)
          else
            let seqs := outstanding.keys.insertionSort fun a b => a ≤ b
            restartTimer cfg (retransmit input addr outstanding seqs s) addr
              (input.restartAt addr)

/-- `_handle_timeouts`. -/
def handleTimeouts (s : GoBackNTransport) (input : SweepInput) :
    GoBackNTransport :=
  s.timerDeadline.keys.foldl
    (fun s addr =>
      if s.crashed.isSome then s else timeoutPeer cfg input s addr) s

/-- One atomic step. -/
def step (s : GoBackNTransport) : Event → GoBackNTransport
  | .sendto data addr =>
      match s.toCore.sendto cfg data addr with
      | .ok c => { s with toCore := c }
      | .error _ => s
  | .recvfrom =>
      match s.toCore.recvfrom with
      | .ok (_, c) => { s with toCore := c }
      | .error _ => s
  | .close => { s with toCore := s.toCore.close }
  | .drain => if s.crashed.isSome then s else drainItem s
  | .pump addr input =>
      if s.crashed.isSome then s else pumpPacket cfg s addr input
  | .timeouts input => if s.crashed.isSome then s else handleTimeouts cfg s input
  | .incoming raw addr input =>
      if s.crashed.isSome then s else handleIncoming cfg s raw addr input

def handlers : Handlers toCore :=
  { GoBackNTransport.handlers cfg with
    armTimer := armTimer cfg
    drain := drainItem
    pump := pumpPacket cfg
    timeouts := handleTimeouts cfg
    incoming := handleIncoming cfg }

theorem step_eq (s : GoBackNTransport) (e : Event) :
    step cfg s e = (handlers cfg).step cfg s e := by
  cases e <;> rfl

end FixedTimeout

/-! ## The fixed timeout path does not read the estimators -/

/-- The state with the estimators removed. -/
def withoutRto (s : GoBackNTransport) : GoBackNTransport :=
  { s with toCore := s.toCore.withoutRto }

@[simp] theorem withoutRto_crashed (s : GoBackNTransport) :
    s.withoutRto.crashed = s.crashed := rfl

@[simp] theorem withoutRto_outbound (s : GoBackNTransport) :
    s.withoutRto.outbound = s.outbound := rfl

@[simp] theorem withoutRto_outstanding (s : GoBackNTransport) :
    s.withoutRto.outstanding = s.outstanding := rfl

variable {cfg : Config}

theorem drainItem_withoutRto (s : GoBackNTransport)
    (hcreates : s.outbound = [] ∨ newEstimator cfg ≠ none) :
    (drainItem cfg s).withoutRto = FixedTimeout.drainItem s.withoutRto := by
  rcases hqueue : s.outbound with _ | ⟨item, rest⟩
  · rw [drainItem, FixedTimeout.drainItem, withoutRto_outbound, hqueue]
  · obtain ⟨r, hr⟩ := Option.ne_none_iff_exists'.mp
      (hcreates.resolve_left (by simp [hqueue]))
    simp only [drainItem, FixedTimeout.drainItem, withoutRto_outbound, hqueue,
      hr]
    rfl

theorem armTimer_withoutRto (hfixed : cfg.adaptive = false)
    (s : GoBackNTransport) (addr : Address) (seq : ℕ) (now : ℚ) :
    (armTimer cfg s addr seq now).withoutRto =
      FixedTimeout.armTimer cfg s.withoutRto addr seq now := by
  simp only [armTimer, rtoValue_eq_timeout hfixed]
  by_cases harm : s.base.get? addr = some seq ∧
      s.timerDeadline.getD addr none = none
  · have hfix : FixedTimeout.armTimer cfg s.withoutRto addr seq now = _ :=
      if_pos harm
    rw [if_pos harm, hfix]
    rfl
  · have hfix : FixedTimeout.armTimer cfg s.withoutRto addr seq now = _ :=
      if_neg harm
    rw [if_neg harm, hfix]

theorem FixedTimeout.armTimer_crashed (cfg : Config) (s : GoBackNTransport)
    (addr : Address) (seq : ℕ) (now : ℚ) :
    (FixedTimeout.armTimer cfg s addr seq now).crashed = s.crashed := by
  unfold FixedTimeout.armTimer
  split <;> rfl

/-- Setting a timer does not stop the thread. -/
theorem FixedTimeout.pumpPacket_eq {s : GoBackNTransport}
    (hrun : ¬ s.crashed.isSome) (addr : Address) (input : PumpInput) :
    FixedTimeout.pumpPacket cfg s addr input =
      (FixedTimeout.handlers cfg).pumpPacket cfg s addr input := by
  rcases hnext : s.nextToSend cfg addr with _ | ⟨seq, item⟩
  · rw [Handlers.pumpPacket_idle _ hnext]
    simp only [FixedTimeout.pumpPacket, hnext]
  rcases hpacket : dataPacket seq item.data with e | packet
  · rw [Handlers.pumpPacket_unencodable _ hnext hpacket]
    simp only [FixedTimeout.pumpPacket, hnext, hpacket]
    rfl
  · rw [Handlers.pumpPacket_launched _ hnext hpacket]
    simp only [FixedTimeout.pumpPacket, hnext, hpacket]
    refine (if_neg ?_).symm
    have harm := FixedTimeout.armTimer_crashed cfg
      { s with toCore :=
        (s.popPending addr seq).launch addr seq item packet input.sentAt } addr
      seq input.timerAt
    exact fun hdead => hrun (harm ▸ hdead)

/-! ### Acknowledgements -/

theorem restartAfterAck_withoutRto (hfixed : cfg.adaptive = false)
    (s : GoBackNTransport) (addr : Address) (ack nextSeq : ℕ) (now : ℚ) :
    (restartAfterAck cfg s addr ack nextSeq now).withoutRto =
      FixedTimeout.restartAfterAck cfg s.withoutRto addr ack nextSeq now := by
  simp only [restartAfterAck, FixedTimeout.restartAfterAck,
    rtoValue_eq_timeout hfixed]
  split_ifs <;> rfl

theorem handleAck_withoutRto (hfixed : cfg.adaptive = false)
    {s : GoBackNTransport} (hrun : ¬ s.crashed.isSome) (raw : Bytes)
    (addr : Address) (input : IncomingInput) :
    (handleAck cfg s raw addr input).withoutRto =
      FixedTimeout.handleAck cfg s.withoutRto raw addr input := by
  rcases hdecode : decode raw with e | ⟨header, payload⟩
  · simp only [handleAck, FixedTimeout.handleAck, hdecode]
  simp only [handleAck, FixedTimeout.handleAck, hdecode]
  by_cases hflag : header.flags &&& FLAG_ACK = 0
  · rw [if_pos hflag, if_pos hflag]
  rw [if_neg hflag, if_neg hflag]
  have hbase' : s.withoutRto.base.get? addr = s.base.get? addr := rfl
  rw [hbase']
  rcases s.base.get? addr with _ | base
  · rfl
  dsimp only
  by_cases hstale : header.ack ≤ base
  · rw [if_pos hstale, if_pos hstale]
  rw [if_neg hstale, if_neg hstale]
  have hnext' : s.withoutRto.nextSeq = s.nextSeq := rfl
  rw [hnext']
  by_cases hbeyond : header.ack > s.nextSeq.getD addr base
  · rw [if_pos hbeyond, if_pos hbeyond]
  rw [if_neg hbeyond, if_neg hbeyond]
  simp only [hfixed, Bool.false_eq_true, if_false]
  exact (congrArg withoutRto (if_neg hrun)).trans
    (restartAfterAck_withoutRto hfixed _ addr header.ack _ input.restartAt)

theorem handleIncoming_withoutRto (hfixed : cfg.adaptive = false)
    {s : GoBackNTransport} (hrun : ¬ s.crashed.isSome) (raw : Bytes)
    (addr : Address) (input : IncomingInput) :
    (handleIncoming cfg s raw addr input).withoutRto =
      FixedTimeout.handleIncoming cfg s.withoutRto raw addr input := by
  by_cases hverify : verify raw = false
  · rw [handleIncoming, FixedTimeout.handleIncoming, if_pos hverify,
      if_pos hverify]
  rcases hdecode : decode raw with e | ⟨header, payload⟩
  · simp only [handleIncoming, FixedTimeout.handleIncoming, if_neg hverify,
      hdecode]
  simp only [handleIncoming, FixedTimeout.handleIncoming, if_neg hverify,
    hdecode]
  by_cases hack : header.flags &&& FLAG_ACK ≠ 0
  · rw [if_pos hack, if_pos hack, handleAck_withoutRto hfixed hrun]
  rw [if_neg hack, if_neg hack]
  by_cases hdata : header.flags &&& FLAG_DATA = 0
  · rw [if_pos hdata, if_pos hdata]
  rw [if_neg hdata, if_neg hdata]
  have hexpected : s.withoutRto.expected = s.expected := rfl
  rw [hexpected]
  split_ifs
  · simp only [withoutRto, ← acknowledge_withoutRto]
    rfl
  · simp only [withoutRto, ← acknowledge_withoutRto]

/-! ### Timeouts -/

theorem retransmit_withoutRto (hfixed : cfg.adaptive = false)
    (input : SweepInput) (addr : Address) (outstanding : Dict ℕ Bytes)
    (seqs : List ℕ) (s : GoBackNTransport) :
    (retransmit cfg input addr outstanding seqs s).withoutRto =
      FixedTimeout.retransmit input addr outstanding seqs s.withoutRto := by
  induction seqs generalizing s with
  | nil => rfl
  | cons seq rest ih =>
      simp only [retransmit, FixedTimeout.retransmit, hfixed,
        Bool.false_eq_true, if_false]
      rcases hsend : input.sendResult addr seq with _ | what
      · exact ih _
      · rfl

theorem restartTimer_withoutRto (hfixed : cfg.adaptive = false)
    (s : GoBackNTransport) (addr : Address) (now : ℚ) :
    (restartTimer cfg s addr now).withoutRto =
      FixedTimeout.restartTimer cfg s.withoutRto addr now := by
  rw [restartTimer, FixedTimeout.restartTimer, withoutRto_outstanding]
  simp only [hfixed, Bool.false_eq_true, if_false, rtoValue_eq_timeout hfixed]
  split_ifs <;> rfl

theorem timeoutPeer_withoutRto (hfixed : cfg.adaptive = false)
    (input : SweepInput) (s : GoBackNTransport) (addr : Address) :
    (timeoutPeer cfg input s addr).withoutRto =
      FixedTimeout.timeoutPeer cfg input s.withoutRto addr := by
  have htimer : s.withoutRto.timerDeadline = s.timerDeadline := rfl
  have hretries : s.withoutRto.retries = s.retries := rfl
  simp only [timeoutPeer, FixedTimeout.timeoutPeer, htimer,
    withoutRto_outstanding, hretries]
  rcases s.timerDeadline.getD addr none with _ | deadline
  · rfl
  dsimp only
  split_ifs
  · rfl
  · rfl
  · rfl
  · rw [restartTimer_withoutRto hfixed, retransmit_withoutRto hfixed]
    rfl

theorem handleTimeouts_withoutRto (hfixed : cfg.adaptive = false)
    (s : GoBackNTransport) (input : SweepInput) :
    (handleTimeouts cfg s input).withoutRto =
      FixedTimeout.handleTimeouts cfg s.withoutRto input := by
  refine (List.foldl_hom withoutRto fun s addr => ?_).symm
  rw [withoutRto_crashed]
  by_cases hrun : s.crashed.isSome
  · rw [if_pos hrun, if_pos hrun]
  · rw [if_neg hrun, if_neg hrun, timeoutPeer_withoutRto hfixed]

/-! ### Steps -/

/-- The event takes an item out of `_outbound` and creates an estimator. -/
def CreatesEstimator (s : GoBackNTransport) (e : Event) : Prop :=
  e = .drain ∧ s.crashed = none ∧ s.outbound ≠ []

/-- The transport beside the one without estimators. -/
theorem twins (hfixed : cfg.adaptive = false) :
    Twins cfg (handlers cfg) (FixedTimeout.handlers cfg) withoutRto where
  core_strip _ := rfl
  withCore _ _ := rfl
  armTimer := armTimer_withoutRto hfixed
  stopTimer _ _ _ := rfl
  drain := drainItem_withoutRto
  pump_eq _ _ _ := rfl
  pump_fixed _ addr input hrun := FixedTimeout.pumpPacket_eq hrun addr input
  timeouts := handleTimeouts_withoutRto hfixed
  incoming _ raw addr input hrun :=
    handleIncoming_withoutRto hfixed hrun raw addr input
  raises s hqueue hnew := by
    obtain ⟨item, rest, hqueue⟩ := List.exists_cons_of_ne_nil hqueue
    simp only [handlers, drainItem, hqueue, hnew]
    rfl
  drains s := by
    simp only [FixedTimeout.handlers, FixedTimeout.drainItem]
    split <;> rfl

/-- Only an estimator that cannot be created makes a difference. -/
theorem step_withoutRto_iff (hfixed : cfg.adaptive = false)
    (s : GoBackNTransport) (e : Event) :
    (step cfg s e).withoutRto = FixedTimeout.step cfg s.withoutRto e ↔
      ¬ (s.CreatesEstimator e ∧ newEstimator cfg = none) := by
  rw [step_eq, FixedTimeout.step_eq]
  exact (twins hfixed).step_iff s e

end GoBackNTransport

end UdpArq
