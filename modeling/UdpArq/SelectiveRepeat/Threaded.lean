import UdpArq.SelectiveRepeat.Metered
import UdpArq.Windowed.Interleaving

/-!
# A Selective Repeat transport whenever its lock is free

`_drain_outbound` holds an item before it acquires `_lock`.  `_pump_windows`
releases the lock before it hands a packet to the channel, and acquires it again
if the send raises.  Between these sections the application threads take turns
with the background thread.  All other operations hold the lock once, or touch
nothing that the sections share when they do not hold it.
-/

namespace UdpArq

namespace SelectiveRepeatTransport

open UdpArq.Core

variable (cfg : Config)

/-- The locked section of `_pump_windows`, with the packet to be sent. -/
def launchPacket (s : SelectiveRepeatTransport) (addr : Address)
    (sentAt timerAt : ℚ) : SelectiveRepeatTransport × Option (ℕ × Bytes) :=
  match s.nextToSend cfg addr with
  | none => (s, none)
  | some (seq, item) =>
      let s := { s with toCore := s.popPending addr seq }
      match dataPacket seq item.data with
      | .error e => ({ s with toCore := s.crash (.packet e) }, none)
      | .ok packet =>
          let s := { s with toCore := s.launch addr seq item packet sentAt }
          let s := armTimer cfg s addr seq timerAt
          (s, if s.crashed.isSome then none else some (seq, packet))

/-- The locked section of the exception handler in `_pump_windows`. -/
def discardPacket (s : SelectiveRepeatTransport) (addr : Address) (seq : ℕ)
    (e : Err) : SelectiveRepeatTransport :=
  let s := { s with toCore := s.discard addr seq e }
  if (sub s.outstanding addr).keys = [] then
    { s with timerHeap := s.timerHeap.cancel (addr, seq) }
  else s

/-- The sections of `_pump_windows` for one packet, one after another. -/
theorem pumpPacket_eq_sections (s : SelectiveRepeatTransport) (addr : Address)
    (input : PumpInput) :
    pumpPacket cfg s addr input =
      let launched := launchPacket cfg s addr input.sentAt input.timerAt
      match launched.2, input.sendResult with
      | none, _ => launched.1
      | some (_, packet), none =>
          { launched.1 with toCore := launched.1.transmit packet addr }
      | some (seq, _), some what =>
          discardPacket launched.1 addr seq (.channel what) := by
  rcases hnext : s.nextToSend cfg addr with _ | ⟨seq, item⟩
  · simp only [pumpPacket, launchPacket, hnext]
  rcases hpacket : dataPacket seq item.data with e | packet
  · simp only [pumpPacket, launchPacket, hnext, hpacket]
  simp only [pumpPacket, launchPacket, hnext, hpacket]
  split_ifs
  · rfl
  · rcases input.sendResult with _ | what <;> rfl

/-- Where the background thread is when it does not hold the lock: anywhere
between two operations, after `get_nowait`, before a send of `_pump_windows`, or
before the handler of the exception that this send has raised. -/
inductive Phase
  | free
  | storing (item : Item)
  | sending (addr : Address) (seq : ℕ) (packet : Bytes) (sentAt : ℚ)
  | discarding (addr : Address) (seq : ℕ) (what : String)

/-- The turns of the application threads and of the background thread, up to
`close`. -/
inductive Turn
  | sendto (data : Bytes) (addr : Address)
  | recvfrom
  | take
  | store
  | launch (addr : Address) (sentAt timerAt : ℚ)
  | send (result : Option String)
  | discard
  | timeouts (input : SweepInput)
  | incoming (raw : Bytes) (addr : Address) (input : IncomingInput)

/-- A transport with the phase of its background thread, and the calls of
`channel.sendto` for DATA packets so far, a history. -/
structure Threaded where
  transport : SelectiveRepeatTransport := {}
  phase : Phase := .free
  calls : List Attempt := []

namespace Threaded

/-- The background thread is dead, or has a section to finish first. -/
def busy (m : Threaded) : Bool :=
  match m.phase with
  | .free => m.transport.crashed.isSome
  | _ => true

/-- The calls of `channel.sendto` for DATA packets in one turn. -/
def handed (m : Threaded) : Turn → List Attempt
  | .send result =>
      match m.phase with
      | .sending addr seq packet sentAt =>
          [⟨addr, seq, packet, some sentAt, result⟩]
      | _ => []
  | .timeouts input =>
      if m.busy then [] else sweepAttempts cfg m.transport input
  | _ => []

/-- The transport and the phase after one turn. -/
def turn (m : Threaded) : Turn → SelectiveRepeatTransport × Phase
  | .sendto data addr =>
      (SelectiveRepeatTransport.step cfg m.transport (.sendto data addr),
        m.phase)
  | .recvfrom =>
      (SelectiveRepeatTransport.step cfg m.transport .recvfrom, m.phase)
  | .take =>
      if m.busy then (m.transport, m.phase)
      else
        match m.transport.outbound with
        | [] => (m.transport, .free)
        | item :: rest => (setOutbound m.transport rest, .storing item)
  | .store =>
      match m.phase with
      | .storing item => (registerItem cfg m.transport item, .free)
      | _ => (m.transport, m.phase)
  | .launch addr sentAt timerAt =>
      if m.busy then (m.transport, m.phase)
      else
        let launched := launchPacket cfg m.transport addr sentAt timerAt
        match launched.2 with
        | none => (launched.1, .free)
        | some (seq, packet) =>
            (launched.1, .sending addr seq packet sentAt)
  | .send result =>
      match m.phase, result with
      | .sending addr _ packet _, none =>
          ({ m.transport with toCore := m.transport.transmit packet addr },
            .free)
      | .sending addr seq _ _, some what =>
          (m.transport, .discarding addr seq what)
      | _, _ => (m.transport, m.phase)
  | .discard =>
      match m.phase with
      | .discarding addr seq what =>
          (discardPacket m.transport addr seq (.channel what), .free)
      | _ => (m.transport, m.phase)
  | .timeouts input =>
      if m.busy then (m.transport, m.phase)
      else (handleTimeouts cfg m.transport input, .free)
  | .incoming raw addr input =>
      if m.busy then (m.transport, m.phase)
      else (handleIncoming cfg m.transport raw addr input, .free)

def step (m : Threaded) (t : Turn) : Threaded where
  transport := (m.turn cfg t).1
  phase := (m.turn cfg t).2
  calls := m.calls ++ m.handed cfg t

/-- What the threads have made of a fresh transport. -/
def after (ts : List Turn) : Threaded := run (step cfg) {} ts

/-- The transport with the item taken back at the front of the queue. -/
def whole (m : Threaded) : SelectiveRepeatTransport :=
  match m.phase with
  | .storing item =>
      setOutbound m.transport (item :: m.transport.outbound)
  | _ => m.transport

end Threaded

end SelectiveRepeatTransport

/-! ## Turns on a lane -/

namespace Lane

variable {cfg : Config} {l l' : Lane}

/-- One turn, seen from the lane of one peer: an event of the protocol, a packet
that enters the window without being sent yet, or an outstanding packet whose
send has raised. -/
inductive Turn (cfg : Config) (D : Discipline) (l : Lane) : Lane → Prop
  | event {fails : SweepInput → Prop} {e : Event} {l' : Lane}
      (hclose : e ≠ .close) (h : Step cfg D fails l e l') : Turn cfg D l l'
  | launch {seq : ℕ} {item : Item} {packet : Bytes}
      (hnext : l.nextToSend cfg = some (seq, item))
      (hpacket : Core.dataPacket seq item.data = .ok packet) :
      Turn cfg D l ((l.popPending seq).launch seq item packet)
  | discard {seq : ℕ} (hseq : seq ∈ l.outstanding.keys) (err : Err) :
      Turn cfg D l (l.discard seq err)

variable {D : Discipline}

theorem Turn.idle (l : Lane) : Turn cfg D l l := by
  have hidle : Step cfg D (fun _ => True) l .drain l := .idle _
  exact .event (by simp) hidle

/-- Handing a stored packet to the channel is an event of the protocol. -/
theorem Turn.transmit {q : ℕ} {packet : Bytes}
    (hget : l.outstanding.get? q = some packet) :
    Turn cfg D l (l.transmit packet) := by
  have hresend : Step cfg D (fun _ => True) l
      (.timeouts ⟨0, fun _ => 0, fun _ _ => 0, fun _ _ => none⟩)
      (l.resend [packet]) := .resend (List.forall_mem_singleton.mpr ⟨q, hget⟩)
  exact .event (by simp) hresend

theorem WellFormed.turn (h : l.WellFormed) (ht : Turn cfg D l l') :
    l'.WellFormed := by
  obtain ⟨lo, n, hspan⟩ := h.span
  cases ht with
  | event hclose hstep => exact h.step hstep
  | @launch seq item packet hnext hpacket =>
      have hitem := h.labelled.pending _ _ (pending_of_nextToSend hnext)
      have hcarries := h.labelled.carries hnext hpacket
      have hsome := h.ready.base_ne_none hnext
      obtain ⟨rfl, -⟩ := hspan.next hnext
      exact {
        span := ⟨_, _, (hspan.popPending hnext).launch item packet⟩
        labelled := (h.labelled.popPending _).launch hitem hcarries
        ready := ⟨h.ready.base_le, fun hnone => absurd hnone hsome,
          h.ready.estimator⟩
        nextSeq_eq := h.nextSeq_eq }
  | @discard seq hseq err =>
      have hsome : l.base ≠ none := by
        intro hnone
        rw [(h.ready.base_none hnone).2] at hseq
        cases hseq
      exact {
        span := ⟨lo, n, hspan.shrink rfl rfl rfl fun q hq =>
          (Dict.mem_keys_erase.mp hq).1⟩
        labelled := h.labelled.discard seq err
        ready := ⟨h.ready.base_le, fun hnone => absurd hnone hsome,
          h.ready.estimator⟩
        nextSeq_eq := h.nextSeq_eq }

theorem Settles.turn (h : l.Settles) (hwf : l.WellFormed)
    (ht : Turn cfg D l l') : l'.Settles := by
  cases ht with
  | event hclose hstep => exact h.step hwf hstep hclose
  | launch hnext hpacket =>
      exact h.shrink le_rfl (fun q _ hheld => held_of_send hnext _ hheld)
        fun q hq => Or.inl hq
  | @discard seq hseq err =>
      refine h.shrink le_rfl (fun q _ hheld => ?_) fun q hq => ?_
      · exact hheld.imp_left fun hout => (Dict.mem_keys_erase.mp hout).1
      · by_cases hq' : q = seq
        · subst hq'
          refine Or.inr ⟨lt_nextSeq_of_held hwf (Or.inl hseq), ?_⟩
          rintro (hout | hwaiting)
          · exact (Dict.mem_keys_erase.mp hout).2 rfl
          · exact hwf.disjoint.2 q hseq hwaiting
        · left
          simpa [Lane.discard, hq'] using hq

/-- An event that has been set stays set. -/
theorem Turn.set (ht : Turn cfg D l l') {q : ℕ}
    (hq : (l.status q).event = true) : (l'.status q).event = true := by
  cases ht with
  | event hclose hstep => exact hstep.event hq
  | launch => exact hq
  | discard =>
      simp only [Lane.discard]
      split_ifs
      · rfl
      · exact hq

/-- Whatever has an error is settled. -/
def ErrorsSet (l : Lane) : Prop :=
  ∀ q, (l.status q).error ≠ none → (l.status q).event = true

theorem ErrorsSet.mark (h : l.ErrorsSet) (p : ℕ → Prop) [DecidablePred p]
    (e : Err) (hstatus : l'.status = fun q =>
      if p q then Core.markError e (l.status q) else l.status q) :
    l'.ErrorsSet := by
  intro q hq
  rw [hstatus] at hq ⊢
  by_cases hp : p q
  · simp [hp, Core.markError]
  · simpa [hp] using h q (by simpa [hp] using hq)

theorem ErrorsSet.turn (h : l.ErrorsSet) (ht : Turn cfg D l l') :
    l'.ErrorsSet := by
  cases ht with
  | event hclose hstep =>
      cases hstep with
      | unsent => exact h.mark (fun q => q = _) _ rfl
      | giveUp => exact h.mark (fun q => q ∈ l.sentItems.keys ∨
          q ∈ l.pending.keys) _ rfl
      | ack =>
          intro q hq
          simp only [slideTo, Lane.complete] at hq ⊢
          split_ifs at hq ⊢
          · rfl
          · exact h q hq
      | close => exact absurd rfl hclose
      | _ => exact h
  | launch => exact h
  | discard => exact h.mark (fun q => q = _) _ rfl

end Lane

end UdpArq
