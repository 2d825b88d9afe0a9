import UdpArq.Transport.Frame
import UdpArq.Transport.Lane

/-!
# The sliding-window protocol on one lane

Go-Back-N and Selective Repeat differ, for one peer, in three respects only:
which datagrams an acknowledgement number covers, what a sender does on an
acknowledgement, and what a receiver does on a datagram.  A `Discipline` is such
a choice together with what makes it sound.  `Lane.Step` says what any of the
two transports can do to a lane in one event.
-/

namespace UdpArq

/-- What a receiver does on a datagram: its next state, the number it
acknowledges and the payloads it hands to the application. -/
structure Reception where
  expected : ℕ
  buffer : Dict ℕ Bytes
  ackFor : ℕ
  payloads : List Bytes

namespace Lane

/-- The sequence numbers assigned but not yet sent, in the order in which the
transport holds them. -/
def waiting (l : Lane) : List ℕ := l.pending.keys ++ l.queued.map Item.seq

/-- The receiving half has delivered or buffered datagram `q`. -/
def Has (l : Lane) (q : ℕ) : Prop := q < l.expected ∨ q ∈ l.buffer.keys

instance (l : Lane) (q : ℕ) : Decidable (l.Has q) :=
  inferInstanceAs (Decidable (_ ∨ _))

/-- The sending half considers datagram `q` delivered. -/
def Completed (l : Lane) (q : ℕ) : Prop :=
  (l.status q).event = true ∧ (l.status q).error = none

instance (l : Lane) (q : ℕ) : Decidable (l.Completed q) :=
  inferInstanceAs (Decidable (_ ∧ _))

def advance (l : Lane) (r : Reception) : Lane :=
  { l with expected := r.expected, buffer := r.buffer }

/-- The receiving half holds what the peer handed over: the delivered payloads
are the first `expected` ones, and the buffer holds some of those that follow
the next expected one within the window. -/
structure Reassembles (window : ℕ) (handed : List Bytes) (l : Lane) : Prop where
  delivered : l.delivered = handed.take l.expected
  expected_le : l.expected ≤ handed.length
  buffered : ∀ q payload, l.buffer.get? q = some payload →
    l.expected < q ∧ q < l.expected + window ∧ handed[q]? = some payload

/-- What sliding the send window on an acknowledgement `n` must satisfy: only
outstanding packets that `n` covers are acknowledged, the base does not move
back, and if the window empties the base does move, unless nothing assigned is
left above it. -/
structure Slides (covers : ℕ → ℕ → Prop) (l : Lane) (n : ℕ)
    (seqs : List ℕ) (base : ℕ) : Prop where
  covered : ∀ q ∈ seqs, q ∈ l.outstanding.keys ∧ covers n q
  old : ∃ old, l.base = some old ∧ old ≤ base ∧ base ≤ max old l.nextSeq ∧
    (l.outstanding.eraseAll seqs = ∅ → old < base ∨ l.nextSeq ≤ base)

/-- What taking in datagram `seq` must satisfy: the receiving half still holds
what the peer handed over and keeps what it has, and the number it acknowledges
covers only datagrams that it has. -/
structure Receives (covers : ℕ → ℕ → Prop) (window : ℕ) (handed : List Bytes)
    (l : Lane) (r : Reception) : Prop where
  reassembles : ((l.advance r).deliver r.payloads).Reassembles window handed
  keeps : ∀ q, l.Has q → (l.advance r).Has q
  ackFor_le : r.ackFor ≤ handed.length
  covered : ∀ q, covers r.ackFor q → (l.advance r).Has q

end Lane

/-- An automatic repeat request discipline, with its receive window. -/
structure Discipline where
  window : ℕ
  covers : ℕ → ℕ → Prop
  slide : Lane → ℕ → Option (List ℕ × ℕ)
  receive : Lane → ℕ → Bytes → Reception
  slide_sound : ∀ {l : Lane} {n seqs base}, slide l n = some (seqs, base) →
    l.Slides covers n seqs base
  receive_sound : ∀ {handed} {l : Lane} {seq payload},
    l.Reassembles window handed → handed[seq]? = some payload →
      l.Receives covers window handed (receive l seq payload)

namespace Lane

/-- One event, seen from the lane of one peer.  `fails` holds of the timeout
sweeps in which the transport gives the peer up. -/
inductive Step (cfg : Config) (D : Discipline) (fails : SweepInput → Prop)
    (l : Lane) : Event → Lane → Prop
  | idle (e : Event) : Step cfg D fails l e l
  | crash (e : Event) : Step cfg D fails l e l.crash
  | accept {data : Bytes} (hlen : data.length ≤ cfg.mss)
      (hopen : l.stopped = false) :
      Step cfg D fails l (.sendto data l.peer) (l.accept data)
  | register {item : Item} {rest : List Item}
      (hqueue : l.queued = item :: rest) :
      Step cfg D fails l .drain { l.register item rest with estimator := true }
  | registerCrash {item : Item} {rest : List Item}
      (hqueue : l.queued = item :: rest) :
      Step cfg D fails l .drain (l.register item rest).crash
  | send {input : PumpInput} {seq : ℕ} {item : Item} {packet : Bytes}
      (hnext : l.nextToSend cfg = some (seq, item))
      (hpacket : Core.dataPacket seq item.data = .ok packet)
      (hsend : input.sendResult = none) :
      Step cfg D fails l (.pump l.peer input)
        (((l.popPending seq).launch seq item packet).transmit packet)
  | unsent {input : PumpInput} {seq : ℕ} {item : Item} {packet : Bytes}
      {what : String} (hnext : l.nextToSend cfg = some (seq, item))
      (hpacket : Core.dataPacket seq item.data = .ok packet)
      (hsend : input.sendResult = some what) :
      Step cfg D fails l (.pump l.peer input)
        (((l.popPending seq).launch seq item packet).discard seq
          (.channel what))
  | unencodable {input : PumpInput} {seq : ℕ} {item : Item} {e : PacketError}
      (hnext : l.nextToSend cfg = some (seq, item))
      (hpacket : Core.dataPacket seq item.data = .error e) :
      Step cfg D fails l (.pump l.peer input) (l.popPending seq).crash
  | resend {input : SweepInput} {packets : List Bytes}
      (hpackets : ∀ raw ∈ packets, ∃ q, l.outstanding.get? q = some raw) :
      Step cfg D fails l (.timeouts input) (l.resend packets)
  | giveUp {input : SweepInput} {packets : List Bytes} {e : Err}
      (hpackets : ∀ raw ∈ packets, ∃ q, l.outstanding.get? q = some raw)
      (hfails : fails input) :
      Step cfg D fails l (.timeouts input) ((l.resend packets).failPeer e)
  | ack {raw : Bytes} {input : IncomingInput} {n base : ℕ} {seqs : List ℕ}
      (hraw : IsAck raw n) (hslide : D.slide l n = some (seqs, base)) :
      Step cfg D fails l (.incoming raw l.peer input)
        ((l.complete seqs).slideTo base)
  | reply {raw : Bytes} {input : IncomingInput} {seq : ℕ}
      {payload packet : Bytes} (hraw : IsData raw seq payload)
      (hpacket : Core.ackPacket (D.receive l seq payload).ackFor = .ok packet)
      (hsend : input.sendResult = none) :
      Step cfg D fails l (.incoming raw l.peer input)
        (((l.advance (D.receive l seq payload)).transmit packet).deliver
          (D.receive l seq payload).payloads)
  | mute {raw : Bytes} {input : IncomingInput} {seq : ℕ} {payload : Bytes}
      {what : String} (hraw : IsData raw seq payload)
      (hsend : input.sendResult = some what) :
      Step cfg D fails l (.incoming raw l.peer input)
        (l.advance (D.receive l seq payload))
  | muteCrash {raw : Bytes} {input : IncomingInput} {seq : ℕ}
      {payload : Bytes} {e : PacketError} (hraw : IsData raw seq payload)
      (hpacket : Core.ackPacket (D.receive l seq payload).ackFor = .error e) :
      Step cfg D fails l (.incoming raw l.peer input)
        (l.advance (D.receive l seq payload)).crash
  | close : Step cfg D fails l .close l.close

/-- The end of `_handle_incoming` is a step on every lane, whatever becomes of
the acknowledgement. -/
theorem Step.acknowledge {cfg : Config} {D : Discipline}
    {fails : SweepInput → Prop} (l : Lane) {c : Core} {buffer : Dict ℕ Bytes}
    {addr : Address} {raw payload : Bytes} {seq : ℕ} (r : Reception)
    (hraw : IsData raw seq payload)
    (hlane : c.lane buffer l.peer = if l.peer = addr then l.advance r else l)
    (hr : l.peer = addr → D.receive l seq payload = r)
    (input : IncomingInput) :
    Step cfg D fails l (.incoming raw addr input)
      ((c.acknowledge addr r.ackFor r.payloads input.sendResult).lane buffer
        l.peer) := by
  rw [Core.lane_acknowledge]
  by_cases hb : l.peer = addr
  · have hreceive := hr hb
    simp only [if_pos hb] at hlane ⊢
    subst hb hreceive
    cases hpacket : Core.ackPacket (D.receive l seq payload).ackFor with
    | error e =>
        rw [hlane]
        exact .muteCrash hraw hpacket
    | ok packet =>
        cases hsend : input.sendResult with
        | none =>
            rw [hlane]
            exact .reply hraw hpacket hsend
        | some what =>
            rw [hlane]
            exact .mute hraw hsend
  · simp only [if_neg hb] at hlane ⊢
    cases Core.ackPacket r.ackFor with
    | error e =>
        rw [hlane]
        exact .crash _
    | ok packet =>
        rw [hlane]
        cases input.sendResult with
        | none => exact .idle _
        | some what => exact .idle _

end Lane

end UdpArq
