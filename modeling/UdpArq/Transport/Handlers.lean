import UdpArq.Transport.WellFormed

/-!
# Handlers

Both transports answer an event in the same way.  A call of the application acts
on the common state alone, and a step of the background thread runs one of the
methods of `_sender_loop`, unless the thread has died.  Of these methods
`_drain_outbound` and `_pump_windows` do the same with the common state too.
-/

namespace UdpArq

open UdpArq.Core

/-! ## The dispatch -/

/-- The methods of a transport around its common state. -/
structure Handlers {σ : Type} (core : σ → Core) where
  withCore : σ → Core → σ
  armTimer : σ → Address → ℕ → ℚ → σ
  stopTimer : σ → Address → ℕ → σ
  drain : σ → σ
  pump : σ → Address → PumpInput → σ
  timeouts : σ → SweepInput → σ
  incoming : σ → Bytes → Address → IncomingInput → σ
  core_withCore : ∀ s c, core (withCore s c) = c
  withCore_core : ∀ s, withCore s (core s) = s
  withCore_withCore : ∀ s c c', withCore (withCore s c) c' = withCore s c'

namespace Handlers

variable {σ : Type} {core : σ → Core} (H : Handlers core) (cfg : Config)

/-- One atomic step by these methods. -/
def step (s : σ) : Event → σ
  | .sendto data addr =>
      match (core s).sendto cfg data addr with
      | .ok c => H.withCore s c
      | .error _ => s
  | .recvfrom =>
      match (core s).recvfrom with
      | .ok (_, c) => H.withCore s c
      | .error _ => s
  | .close => H.withCore s (core s).close
  | .drain => if (core s).crashed.isSome then s else H.drain s
  | .pump addr input => if (core s).crashed.isSome then s else H.pump s addr input
  | .timeouts input => if (core s).crashed.isSome then s else H.timeouts s input
  | .incoming raw addr input =>
      if (core s).crashed.isSome then s else H.incoming s raw addr input

theorem step_sendto (s : σ) (data : Bytes) (addr : Address) :
    H.step cfg s (.sendto data addr) =
      H.withCore s (((core s).sendto cfg data addr).toOption.getD (core s)) := by
  simp only [step]
  rcases (core s).sendto cfg data addr with e | c
  · exact (H.withCore_core s).symm
  · rfl

theorem step_recvfrom (s : σ) :
    H.step cfg s .recvfrom =
      H.withCore s (((core s).recvfrom.toOption.map Prod.snd).getD (core s)) := by
  simp only [step]
  rcases (core s).recvfrom with e | ⟨x, c⟩
  · exact (H.withCore_core s).symm
  · rfl

/-- A call of the application touches the common state only. -/
theorem step_call (s : σ) {e : Event} (hcall : e.isCall = true) :
    ∃ c, H.step cfg s e = H.withCore s c := by
  cases e with
  | sendto data addr => exact ⟨_, H.step_sendto cfg s data addr⟩
  | recvfrom => exact ⟨_, H.step_recvfrom cfg s⟩
  | close => exact ⟨_, rfl⟩
  | _ => cases hcall

/-- A dead thread does nothing. -/
theorem step_of_dead {s : σ} {e : Event} (hcall : e.isCall = false)
    (hdead : (core s).crashed.isSome) : H.step cfg s e = s := by
  cases e with
  | drain => exact if_pos hdead
  | pump addr input => exact if_pos hdead
  | timeouts input => exact if_pos hdead
  | incoming raw addr input => exact if_pos hdead
  | _ => cases hcall

end Handlers

/-! ## The lanes -/

theorem Lane.Step.sendto {cfg : Config} {D : Discipline}
    {fails : SweepInput → Prop} {c c' : Core} {data : Bytes} {addr : Address}
    (hok : c.sendto cfg data addr = .ok c') (buffer : Dict ℕ Bytes)
    (b : Address) :
    Lane.Step cfg D fails (c.lane buffer b) (.sendto data addr)
      (c'.lane buffer b) := by
  unfold Core.sendto at hok
  by_cases hlen : data.length > cfg.mss
  · simp [hlen] at hok
  · rw [if_neg hlen] at hok
    by_cases hstopped : c.stopEvent
    · simp [hstopped] at hok
    · rw [if_neg hstopped] at hok
      cases hok
      have hopen : c.stopEvent = false := by simpa using hstopped
      rw [lane_accept]
      split_ifs with hb
      · subst hb
        exact .accept (not_lt.mp hlen) hopen
      · exact .idle _

theorem lane_recvfrom {c c' : Core} {x : Bytes × Address}
    (hok : c.recvfrom = .ok (x, c')) (buffer : Dict ℕ Bytes) (b : Address) :
    c'.lane buffer b = c.lane buffer b := by
  unfold Core.recvfrom Queue.get? at hok
  cases hnext : c.incomingData.puts[c.incomingData.taken]? with
  | none => simp [hnext] at hok
  | some y =>
      simp only [hnext, Option.map_some] at hok
      cases hok
      rfl

/-! ## `_drain_outbound` -/

namespace Core

/-- What one iteration of `_drain_outbound` makes of the common state. -/
inductive Drained (cfg : Config) (c : Core) : Core → Prop
  | idle (hempty : c.outbound = []) : Drained cfg c c
  | crash {item : Item} {rest : List Item} (hqueue : c.outbound = item :: rest)
      (hnew : newEstimator cfg = none) (marks : Dict Address (Finset ℕ))
      (hmarks : marks = c.retransmitted ∨
        marks = c.retransmitted.setdefault item.addr ∅) :
      Drained cfg c
        { (c.register item rest).crash .rtoBounds with retransmitted := marks }
  | register {item : Item} {rest : List Item} {r : RTOEstimator}
      (hqueue : c.outbound = item :: rest) (hnew : newEstimator cfg = some r) :
      Drained cfg c
        { c.register item rest with
          rto := c.rto.setdefault item.addr r
          sendTime := c.sendTime.setdefault item.addr ∅
          retransmitted := c.retransmitted.setdefault item.addr ∅ }

end Core

section

variable {cfg : Config} {D : Discipline} {fails : SweepInput → Prop}
  {c c' : Core}

theorem Core.Drained.outbound (h : Drained cfg c c') :
    c'.outbound = c.outbound.tail := by
  cases h with
  | idle hempty => rw [hempty, List.tail_nil]
  | crash hqueue =>
      rw [hqueue, List.tail_cons]
      rfl
  | register hqueue =>
      rw [hqueue, List.tail_cons]
      rfl

theorem Core.Drained.incomingData (h : Drained cfg c c') :
    c'.incomingData = c.incomingData := by
  cases h <;> rfl

theorem Core.Drained.channel (h : Drained cfg c c') :
    c'.channel = c.channel := by
  cases h <;> rfl

/-- An item leaves the queue and its peer has an estimator afterwards. -/
theorem Lane.Step.drain {item : Item} {rest : List Item}
    (hqueue : c.outbound = item :: rest) (buffer : Dict ℕ Bytes) (b : Address) :
    Lane.Step cfg D fails (c.lane buffer b) .drain
      (if b = item.addr then
        { (c.register item rest).lane buffer b with estimator := true }
      else (c.register item rest).lane buffer b) := by
  rw [lane_register c buffer b hqueue]
  split_ifs with hb
  · subst hb
    have hqueued : (c.lane buffer item.addr).queued =
        item :: rest.filter fun other => other.addr = item.addr := by
      simp [Core.lane, hqueue]
    exact .register hqueued
  · exact .idle _

/-- An item leaves the queue and the thread dies on its estimator. -/
theorem Lane.Step.drainCrash {item : Item} {rest : List Item}
    (hqueue : c.outbound = item :: rest) (buffer : Dict ℕ Bytes) (b : Address) :
    Lane.Step cfg D fails (c.lane buffer b) .drain
      ((c.register item rest).lane buffer b).crash := by
  rw [lane_register c buffer b hqueue]
  split_ifs with hb
  · subst hb
    have hqueued : (c.lane buffer item.addr).queued =
        item :: rest.filter fun other => other.addr = item.addr := by
      simp [Core.lane, hqueue]
    exact .registerCrash hqueued
  · exact .crash _

/-- One iteration of `_drain_outbound` is a step of the protocol on every lane. -/
theorem Core.Drained.lane_step (h : Drained cfg c c') (buffer : Dict ℕ Bytes)
    (b : Address) :
    Lane.Step cfg D fails (c.lane buffer b) .drain (c'.lane buffer b) := by
  cases h with
  | idle => exact .idle _
  | crash hqueue => exact .drainCrash hqueue buffer b
  | @register item rest r hqueue =>
      have heq : ({ c.register item rest with
            rto := c.rto.setdefault item.addr r
            sendTime := c.sendTime.setdefault item.addr ∅
            retransmitted := c.retransmitted.setdefault item.addr ∅ } :
              Core).lane buffer b =
          if b = item.addr then
            { (c.register item rest).lane buffer b with estimator := true }
          else (c.register item rest).lane buffer b := by
        have hrto : (c.register item rest).rto = c.rto := rfl
        split_ifs with hb
        · simp [Core.lane, hb]
        · simp [Core.lane, hb, hrto]
      rw [heq]
      exact .drain hqueue buffer b

end

/-! ## `_pump_windows` -/

namespace Core

/-- What one packet of `_pump_windows` makes of the common state. -/
inductive Pumped (cfg : Config) (addr : Address) (input : PumpInput) (c : Core) :
    Core → Prop
  | idle (hnext : c.nextToSend cfg addr = none) : Pumped cfg addr input c c
  | unencodable {seq : ℕ} {item : Item} {e : PacketError}
      (hnext : c.nextToSend cfg addr = some (seq, item))
      (hpacket : dataPacket seq item.data = .error e) :
      Pumped cfg addr input c ((c.popPending addr seq).crash (.packet e))
  | unarmed {seq : ℕ} {item : Item} {packet : Bytes}
      (hnext : c.nextToSend cfg addr = some (seq, item))
      (hpacket : dataPacket seq item.data = .ok packet)
      (hrto : c.rtoValue cfg addr = none) :
      Pumped cfg addr input c
        (((c.popPending addr seq).launch addr seq item packet
          input.sentAt).crash (.keyError addr))
  | sent {seq : ℕ} {item : Item} {packet : Bytes}
      (hnext : c.nextToSend cfg addr = some (seq, item))
      (hpacket : dataPacket seq item.data = .ok packet)
      (hsend : input.sendResult = none) :
      Pumped cfg addr input c
        (((c.popPending addr seq).launch addr seq item packet
          input.sentAt).transmit packet addr)
  | unsent {seq : ℕ} {item : Item} {packet : Bytes} {what : String}
      (hnext : c.nextToSend cfg addr = some (seq, item))
      (hpacket : dataPacket seq item.data = .ok packet)
      (hsend : input.sendResult = some what) :
      Pumped cfg addr input c
        (((c.popPending addr seq).launch addr seq item packet
          input.sentAt).discard addr seq (.channel what))

end Core

section

variable {cfg : Config} {D : Discipline} {fails : SweepInput → Prop}
  {c c' : Core} {addr : Address} {input : PumpInput} {seq : ℕ} {item : Item}
  {packet : Bytes}

/-- With an estimator for the peer a timer can be set. -/
theorem Core.armed_eq {armed : Core} {e : Err}
    (harm : armed = c ∨ c.rtoValue cfg addr = none ∧ armed = c.crash e)
    (hrto : (c.rto.get? addr).isSome) : armed = c := by
  refine harm.resolve_right ?_
  rintro ⟨hnone, -⟩
  obtain ⟨rto, hvalue⟩ := rtoValue_isSome c addr cfg hrto
  rw [hvalue] at hnone
  cases hnone

/-- The timer of a packet that enters the window is set before the packet is
sent. -/
theorem Core.Pumped.of_armed (hrun : ¬ c.crashed.isSome)
    (hnext : c.nextToSend cfg addr = some (seq, item))
    (hpacket : dataPacket seq item.data = .ok packet) {armed : Core}
    (harm :
      let launched := (c.popPending addr seq).launch addr seq item packet
        input.sentAt
      armed = launched ∨
        c.rtoValue cfg addr = none ∧ armed = launched.crash (.keyError addr)) :
    Pumped cfg addr input c
      (if armed.crashed.isSome then armed
      else
        match input.sendResult with
        | none => armed.transmit packet addr
        | some what => armed.discard addr seq (.channel what)) := by
  rcases harm with rfl | ⟨hvalue, rfl⟩
  · have hrun' : ¬ ((c.popPending addr seq).launch addr seq item packet
        input.sentAt).crashed.isSome := hrun
    rw [if_neg hrun']
    rcases hsend : input.sendResult with _ | what
    · exact .sent hnext hpacket hsend
    · exact .unsent hnext hpacket hsend
  · exact .unarmed hnext hpacket hvalue

variable (cfg) in
/-- A running thread has an estimator for every peer that it may send to. -/
theorem Core.estimator_of_nextToSend {buffer : Dict ℕ Bytes}
    (h : (c.lane buffer addr).WellFormed) (hrun : ¬ c.crashed.isSome)
    (hnext : c.nextToSend cfg addr ≠ none) : (c.rto.get? addr).isSome := by
  obtain ⟨⟨seq, item⟩, hnext⟩ := Option.ne_none_iff_exists'.mp hnext
  have hlane : (c.lane buffer addr).nextToSend cfg = some (seq, item) := hnext
  have hrun' : (c.lane buffer addr).crashed = false := by simpa [Core.lane] using hrun
  exact h.ready.estimator hrun' (h.ready.base_ne_none hlane)

/-- The packet is taken out of `_pending`, whatever follows. -/
theorem Core.Pumped.pending (h : Pumped cfg addr input c c')
    (hnext : c.nextToSend cfg addr = some (seq, item)) :
    sub c'.pending addr = (sub c.pending addr).erase seq := by
  have hpop : sub (c.popPending addr seq).pending addr =
      (sub c.pending addr).erase seq := by
    simp [popPending]
  cases h with
  | idle hnone =>
      rw [hnone] at hnext
      cases hnext
  | unencodable hnext' | unarmed hnext' | sent hnext' | unsent hnext' =>
      rw [hnext'] at hnext
      cases hnext
      exact hpop

theorem Core.Pumped.eq_self (h : Pumped cfg addr input c c')
    (hnext : c.nextToSend cfg addr = none) : c' = c := by
  cases h with
  | idle => rfl
  | unencodable hnext' | unarmed hnext' | sent hnext' | unsent hnext' =>
      rw [hnext'] at hnext
      cases hnext

/-- A packet that cannot be encoded kills the thread. -/
theorem Core.Pumped.eq_crash (h : Pumped cfg addr input c c')
    (hnext : c.nextToSend cfg addr = some (seq, item)) {e : PacketError}
    (hpacket : dataPacket seq item.data = .error e) :
    c' = (c.popPending addr seq).crash (.packet e) := by
  cases h with
  | idle hnone =>
      rw [hnone] at hnext
      cases hnext
  | unencodable hnext' hpacket' =>
      rw [hnext'] at hnext
      cases hnext
      rw [hpacket'] at hpacket
      cases hpacket
      rfl
  | unarmed hnext' hpacket' | sent hnext' hpacket' | unsent hnext' hpacket' =>
      rw [hnext'] at hnext
      cases hnext
      rw [hpacket'] at hpacket
      cases hpacket

/-- With an estimator for the peer, a packet that can be encoded is sent, or
discarded because the send raises. -/
theorem Core.Pumped.launched (h : Pumped cfg addr input c c')
    (hrto : (c.rto.get? addr).isSome)
    (hnext : c.nextToSend cfg addr = some (seq, item))
    (hpacket : dataPacket seq item.data = .ok packet) :
    let launched := (c.popPending addr seq).launch addr seq item packet
      input.sentAt
    c' = match input.sendResult with
      | none => launched.transmit packet addr
      | some what => launched.discard addr seq (.channel what) := by
  cases h with
  | idle hnone =>
      rw [hnone] at hnext
      cases hnext
  | unencodable hnext' hpacket' =>
      rw [hnext'] at hnext
      cases hnext
      rw [hpacket'] at hpacket
      cases hpacket
  | unarmed hnext' hpacket' hnone =>
      obtain ⟨rto, hvalue⟩ := rtoValue_isSome c addr cfg hrto
      rw [hvalue] at hnone
      cases hnone
  | sent hnext' hpacket' hsend | unsent hnext' hpacket' hsend =>
      rw [hnext'] at hnext
      cases hnext
      rw [hpacket'] at hpacket
      cases hpacket
      simp only [hsend]

/-- The lanes after a packet has entered the window. -/
theorem Core.Pumped.lane (h : Pumped cfg addr input c c')
    (hrto : (c.rto.get? addr).isSome)
    (hnext : c.nextToSend cfg addr = some (seq, item))
    (hpacket : dataPacket seq item.data = .ok packet) (buffer : Dict ℕ Bytes)
    (b : Address) :
    c'.lane buffer b =
      if b = addr then
        match input.sendResult with
        | none =>
            (((c.lane buffer b).popPending seq).launch seq item
              packet).transmit packet
        | some what =>
            (((c.lane buffer b).popPending seq).launch seq item packet).discard
              seq (.channel what)
      else c.lane buffer b := by
  rw [h.launched hrto hnext hpacket]
  rcases input.sendResult with _ | what
  · rw [lane_transmit, lane_launch, lane_popPending]
    split_ifs <;> rfl
  · rw [lane_discard, lane_launch, lane_popPending]
    split_ifs <;> rfl

/-- A packet enters the window and is sent, or is discarded because the send
raises. -/
theorem Lane.Step.pump {addr : Address} {seq : ℕ} {item : Item}
    {packet : Bytes} (hnext : c.nextToSend cfg addr = some (seq, item))
    (hpacket : dataPacket seq item.data = .ok packet) (buffer : Dict ℕ Bytes)
    (input : PumpInput) (b : Address) :
    Lane.Step cfg D fails (c.lane buffer b) (.pump addr input)
      (if b = addr then
        match input.sendResult with
        | none =>
            (((c.lane buffer b).popPending seq).launch seq item
              packet).transmit packet
        | some what =>
            (((c.lane buffer b).popPending seq).launch seq item packet).discard
              seq (.channel what)
      else c.lane buffer b) := by
  split_ifs with hb
  · subst hb
    cases hsend : input.sendResult with
    | none => exact .send hnext hpacket hsend
    | some what => exact .unsent hnext hpacket hsend
  · exact .idle _

/-- A packet cannot be encoded and the thread dies. -/
theorem Lane.Step.pumpCrash {addr : Address} {seq : ℕ} {item : Item}
    {e : PacketError} (hnext : c.nextToSend cfg addr = some (seq, item))
    (hpacket : dataPacket seq item.data = .error e) (buffer : Dict ℕ Bytes)
    (input : PumpInput) (b : Address) :
    Lane.Step cfg D fails (c.lane buffer b) (.pump addr input)
      ((c.popPending addr seq).lane buffer b).crash := by
  rw [lane_popPending]
  split_ifs with hb
  · subst hb
    exact .unencodable hnext hpacket
  · exact .crash _

/-- One packet of `_pump_windows` is a step of the protocol on every lane, if the
peers that have sender state have an estimator. -/
theorem Core.Pumped.lane_step (h : Pumped cfg addr input c c')
    (hrto : c.nextToSend cfg addr ≠ none → (c.rto.get? addr).isSome)
    (buffer : Dict ℕ Bytes) (b : Address) :
    Lane.Step cfg D fails (c.lane buffer b) (.pump addr input)
      (c'.lane buffer b) := by
  rcases hnext : c.nextToSend cfg addr with _ | ⟨seq, item⟩
  · rw [h.eq_self hnext]
    exact .idle _
  rcases hpacket : dataPacket seq item.data with e | packet
  · rw [h.eq_crash hnext hpacket]
    exact .pumpCrash hnext hpacket buffer input b
  · rw [h.lane (hrto (by simp [hnext])) hnext hpacket buffer b]
    exact .pump hnext hpacket buffer input b

end

/-! ## What the transports share -/

namespace Handlers

variable {σ : Type} {core : σ → Core}

/-- The channel I/O of `_pump_windows`: a send that raises stops the timer of
what it leaves empty. -/
def sendPacket (H : Handlers core) (s : σ) (addr : Address) (seq : ℕ)
    (packet : Bytes) : Option String → σ
  | none => H.withCore s ((core s).transmit packet addr)
  | some what =>
      let s := H.withCore s ((core s).discard addr seq (.channel what))
      if (sub (core s).outstanding addr).keys = [] then H.stopTimer s addr seq
      else s

/-- One packet of `_pump_windows`, with the timers of the transport. -/
def pumpPacket (H : Handlers core) (cfg : Config) (s : σ) (addr : Address)
    (input : PumpInput) : σ :=
  match (core s).nextToSend cfg addr with
  | none => s
  | some (seq, item) =>
      let s := H.withCore s ((core s).popPending addr seq)
      match dataPacket seq item.data with
      | .error e => H.withCore s ((core s).crash (.packet e))
      | .ok packet =>
          let s := H.withCore s
            ((core s).launch addr seq item packet input.sentAt)
          let s := H.armTimer s addr seq input.timerAt
          if (core s).crashed.isSome then s
          else H.sendPacket s addr seq packet input.sendResult

section

variable (H : Handlers core) {cfg : Config} {s : σ} {addr : Address}
  {input : PumpInput} {seq : ℕ} {item : Item}

theorem sendPacket_unsent (s : σ) (addr : Address) (seq : ℕ) (packet : Bytes)
    (what : String) :
    let c := (core s).discard addr seq (.channel what)
    H.sendPacket s addr seq packet (some what) =
      if (sub c.outstanding addr).keys = [] then
        H.stopTimer (H.withCore s c) addr seq
      else H.withCore s c := by
  simp only [sendPacket, H.core_withCore]

theorem pumpPacket_idle (hnext : (core s).nextToSend cfg addr = none) :
    H.pumpPacket cfg s addr input = s := by
  simp only [pumpPacket, hnext]

theorem pumpPacket_unencodable
    (hnext : (core s).nextToSend cfg addr = some (seq, item)) {e : PacketError}
    (hpacket : dataPacket seq item.data = .error e) :
    H.pumpPacket cfg s addr input =
      H.withCore s (((core s).popPending addr seq).crash (.packet e)) := by
  simp only [pumpPacket, hnext, hpacket, H.core_withCore, H.withCore_withCore]

theorem pumpPacket_launched
    (hnext : (core s).nextToSend cfg addr = some (seq, item)) {packet : Bytes}
    (hpacket : dataPacket seq item.data = .ok packet) :
    let armed := H.armTimer (H.withCore s
      (((core s).popPending addr seq).launch addr seq item packet
        input.sentAt)) addr seq input.timerAt
    H.pumpPacket cfg s addr input =
      if (core armed).crashed.isSome then armed
      else H.sendPacket armed addr seq packet input.sendResult := by
  simp only [pumpPacket, hnext, hpacket, H.core_withCore, H.withCore_withCore]

end

/-- `_drain_outbound` and `_pump_windows` act alike on the common state, and
leave the receive buffers alone. -/
structure Shared (H : Handlers core) (cfg : Config)
    (buffer : σ → Address → Dict ℕ Bytes) : Prop where
  drained : ∀ s, Drained cfg (core s) (core (H.drain s))
  pump_eq : ∀ s addr input, H.pump s addr input = H.pumpPacket cfg s addr input
  core_armTimer : ∀ s addr seq now,
    core (H.armTimer s addr seq now) = core s ∨
      (core s).rtoValue cfg addr = none ∧
        core (H.armTimer s addr seq now) = (core s).crash (.keyError addr)
  core_stopTimer : ∀ s addr seq, core (H.stopTimer s addr seq) = core s
  buffer_withCore : ∀ s c, buffer (H.withCore s c) = buffer s
  buffer_drain : ∀ s, buffer (H.drain s) = buffer s
  buffer_armTimer : ∀ s addr seq now,
    buffer (H.armTimer s addr seq now) = buffer s
  buffer_stopTimer : ∀ s addr seq, buffer (H.stopTimer s addr seq) = buffer s

section

variable {H : Handlers core} {cfg : Config} {buffer : σ → Address → Dict ℕ Bytes}
  (h : H.Shared cfg buffer) (s : σ) (addr : Address)
include h

theorem Shared.core_sendPacket (seq : ℕ) (packet : Bytes)
    (sendResult : Option String) :
    core (H.sendPacket s addr seq packet sendResult) =
      match sendResult with
      | none => (core s).transmit packet addr
      | some what => (core s).discard addr seq (.channel what) := by
  rcases sendResult with _ | what
  · exact H.core_withCore s _
  · rw [H.sendPacket_unsent]
    split_ifs
    · rw [h.core_stopTimer, H.core_withCore]
    · exact H.core_withCore s _

theorem Shared.buffer_sendPacket (seq : ℕ) (packet : Bytes)
    (sendResult : Option String) :
    buffer (H.sendPacket s addr seq packet sendResult) = buffer s := by
  rcases sendResult with _ | what
  · exact h.buffer_withCore s _
  · rw [H.sendPacket_unsent]
    split_ifs
    · rw [h.buffer_stopTimer, h.buffer_withCore]
    · exact h.buffer_withCore s _

theorem Shared.pumped (input : PumpInput) (hrun : ¬ (core s).crashed.isSome) :
    Pumped cfg addr input (core s) (core (H.pump s addr input)) := by
  rw [h.pump_eq]
  rcases hnext : (core s).nextToSend cfg addr with _ | ⟨seq, item⟩
  · rw [H.pumpPacket_idle hnext]
    exact .idle hnext
  rcases hpacket : dataPacket seq item.data with e | packet
  · rw [H.pumpPacket_unencodable hnext hpacket, H.core_withCore]
    exact .unencodable hnext hpacket
  · rw [H.pumpPacket_launched hnext hpacket, apply_ite core, h.core_sendPacket]
    refine .of_armed hrun hnext hpacket ?_
    have harm := h.core_armTimer (H.withCore s
      (((core s).popPending addr seq).launch addr seq item packet
        input.sentAt)) addr seq input.timerAt
    rwa [H.core_withCore] at harm

theorem Shared.buffer_pump (input : PumpInput) :
    buffer (H.pump s addr input) = buffer s := by
  rw [h.pump_eq]
  rcases hnext : (core s).nextToSend cfg addr with _ | ⟨seq, item⟩
  · rw [H.pumpPacket_idle hnext]
  rcases hpacket : dataPacket seq item.data with e | packet
  · rw [H.pumpPacket_unencodable hnext hpacket, h.buffer_withCore]
  · rw [H.pumpPacket_launched hnext hpacket]
    split_ifs
    · rw [h.buffer_armTimer, h.buffer_withCore]
    · rw [h.buffer_sendPacket, h.buffer_armTimer, h.buffer_withCore]

end

/-- An event is a step of the protocol on every lane, if timeout sweeps and what
arrives are. -/
theorem Shared.lane_step {H : Handlers core} {cfg : Config}
    {buffer : σ → Address → Dict ℕ Bytes} (h : H.Shared cfg buffer)
    {D : Discipline} {fails : SweepInput → Prop} {s : σ} {b : Address}
    (hrto : ¬ (core s).crashed.isSome → ∀ addr,
      (core s).nextToSend cfg addr ≠ none → ((core s).rto.get? addr).isSome)
    (htimeouts : ∀ input, ¬ (core s).crashed.isSome →
      Lane.Step cfg D fails ((core s).lane (buffer s b) b) (.timeouts input)
        ((core (H.timeouts s input)).lane (buffer (H.timeouts s input) b) b))
    (hincoming : ∀ raw addr input, ¬ (core s).crashed.isSome →
      Lane.Step cfg D fails ((core s).lane (buffer s b) b)
        (.incoming raw addr input)
        ((core (H.incoming s raw addr input)).lane
          (buffer (H.incoming s raw addr input) b) b)) (e : Event) :
    Lane.Step cfg D fails ((core s).lane (buffer s b) b) e
      ((core (H.step cfg s e)).lane (buffer (H.step cfg s e) b) b) := by
  by_cases hdead : e.isCall = false ∧ (core s).crashed.isSome
  · rw [H.step_of_dead cfg hdead.1 hdead.2]
    exact .idle _
  cases e with
  | sendto data addr =>
      rw [H.step_sendto, H.core_withCore, h.buffer_withCore]
      rcases hok : (core s).sendto cfg data addr with e | c
      · exact .idle _
      · exact .sendto hok (buffer s b) b
  | recvfrom =>
      rw [H.step_recvfrom, H.core_withCore, h.buffer_withCore]
      rcases hok : (core s).recvfrom with e | ⟨x, c⟩
      · exact .idle _
      · change Lane.Step _ _ _ _ _ (c.lane (buffer s b) b)
        rw [lane_recvfrom hok]
        exact .idle _
  | close =>
      change Lane.Step _ _ _ _ _ ((core (H.withCore s (core s).close)).lane
        (buffer (H.withCore s (core s).close) b) b)
      rw [H.core_withCore, h.buffer_withCore, lane_close]
      exact .close
  | drain =>
      have hrun : ¬ (core s).crashed.isSome := fun hd => hdead ⟨rfl, hd⟩
      rw [step, if_neg hrun, h.buffer_drain]
      exact (h.drained s).lane_step (buffer s b) b
  | pump addr input =>
      have hrun : ¬ (core s).crashed.isSome := fun hd => hdead ⟨rfl, hd⟩
      rw [step, if_neg hrun, h.buffer_pump]
      exact (h.pumped s addr input hrun).lane_step (hrto hrun addr) (buffer s b) b
  | timeouts input =>
      have hrun : ¬ (core s).crashed.isSome := fun hd => hdead ⟨rfl, hd⟩
      rw [step, if_neg hrun]
      exact htimeouts input hrun
  | incoming raw addr input =>
      have hrun : ¬ (core s).crashed.isSome := fun hd => hdead ⟨rfl, hd⟩
      rw [step, if_neg hrun]
      exact hincoming raw addr input hrun

end Handlers

end UdpArq
