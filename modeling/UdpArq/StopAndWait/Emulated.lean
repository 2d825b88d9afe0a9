import UdpArq.Channel.Line
import UdpArq.StopAndWait.Ordered
import UdpArq.Windowed.Encoding

/-!
# Stop-and-Wait over channel emulators

The two endpoints of a Stop-and-Wait link, each with its own channel.  Without
jitter and reordering both channels are queues, whatever they lose, duplicate
and damage, and every payload is accepted exactly once unless a call raises or
the channel of the receiver is closed.
-/

namespace UdpArq

open Channel StopAndWaitTransport

namespace StopAndWaitTransport

/-- The acknowledgement that an iteration of `recvfrom` sends. -/
def Received.ack? : Received → Option Bytes
  | .ignored => none
  | .acknowledged ack => some ack
  | .returning ack _ => some ack
  | .raised _ => none

/-- What comes of the acknowledgement that an iteration of `recvfrom` sends, and
the channel after the call. -/
def answer (q : Emulator) (l : Line) (t : StopAndWaitTransport)
    (remaining : Option ℚ) (arrival : ChannelRecv) (now : ℚ) :
    Option String × Line :=
  match (t.recvfrom remaining arrival none).2.ack?, arrival with
  | some ack, .packet _ addr =>
      (l.refusal q ack addr now, l.turn q (.sendto (.bytesLike ack) addr now))
  | _, _ => (none, l)

end StopAndWaitTransport

namespace StopAndWaitLink

/-- The link when a packet arrives that `sendto` may wait for. -/
def hears (cfg : Config) (rxAddr : Address) (n : StopAndWaitLink) (raw : Bytes)
    (now ackedAt : ℚ) : StopAndWaitLink :=
  match n.waitingCall with
  | none => n
  | some (call, sentAt, deadline) =>
      n.sends (awaitAck cfg n.tx call sentAt deadline
        ⟨now, .packet raw rxAddr, ackedAt⟩)

end StopAndWaitLink

/-- A link and the two lines under it.  The positions of the latest deliveries
that the link keeps are not used. -/
structure EmulatedStopAndWait where
  link : StopAndWaitLink := StopAndWaitLink.init
  data : Line := {}
  acks : Line := {}

inductive EmulatedStopAndWaitEvent
  | sendto (payload : Bytes)
  | transmit (sentAt now : ℚ)
  | await (input : AwaitInput)
  | toTx (j : ℕ) (now ackedAt : ℚ)
  | recvfrom (remaining : Option ℚ) (arrival : ChannelRecv) (now : ℚ)
  | toRx (j : ℕ) (remaining : Option ℚ) (now : ℚ)
  | recvfromReturns
  | dataChannel (e : Channel.Event)
  | acksChannel (e : Channel.Event)

namespace EmulatedStopAndWait

variable (cfg : Config) (txAddr rxAddr : Address) (p q : Emulator)

def step (w : EmulatedStopAndWait) :
    EmulatedStopAndWaitEvent → EmulatedStopAndWait
  | .sendto payload =>
      { w with link := w.link.step cfg txAddr rxAddr (.sendto payload) }
  | .transmit sentAt now =>
      match w.link.sendingCall with
      | none => w
      | some call =>
          let e := Channel.Event.sendto (.bytesLike call.packet) rxAddr now
          let sendResult := w.data.refusal p call.packet rxAddr now
          if w.data.admits e.reading then
            { w with
              link := w.link.step cfg txAddr rxAddr (.transmit sentAt sendResult)
              data := w.data.turn p e }
          else w
  | .await input =>
      { w with link := w.link.step cfg txAddr rxAddr (.await input) }
  | .toTx j now ackedAt =>
      match w.acks.datagram txAddr j with
      | none => w
      | some raw =>
          { w with
            link := w.link.hears cfg rxAddr raw now ackedAt
            acks := { w.acks with read := j + 1 } }
  | .recvfrom remaining arrival now =>
      if w.link.returning.isNone ∧ ¬ arrival.isFrom txAddr ∧
          w.acks.admits (some now) then
        let answer := w.link.rx.answer q w.acks remaining arrival now
        { w with
          link := w.link.step cfg txAddr rxAddr
            (.recvfrom remaining arrival answer.1)
          acks := answer.2 }
      else w
  | .toRx j remaining now =>
      match w.link.returning, w.data.datagram rxAddr j with
      | none, some raw =>
          if w.acks.admits (some now) then
            let arrival := ChannelRecv.packet raw txAddr
            let answer := w.link.rx.answer q w.acks remaining arrival now
            { link := w.link.receives
                (w.link.rx.recvfrom remaining arrival answer.1)
              data := { w.data with read := j + 1 }
              acks := answer.2 }
          else w
      | _, _ => w
  | .recvfromReturns =>
      { w with link := w.link.step cfg txAddr rxAddr .recvfromReturns }
  | .dataChannel e =>
      if e.call.isNone ∧ w.data.admits e.reading then
        { w with data := w.data.turn p e }
      else w
  | .acksChannel e =>
      if e.call.isNone ∧ w.acks.admits e.reading then
        { w with acks := w.acks.turn q e }
      else w

/-- Fresh endpoints and channels. -/
def init : EmulatedStopAndWait := {}

def after (es : List EmulatedStopAndWaitEvent) : EmulatedStopAndWait :=
  run (step cfg txAddr rxAddr p q) init es

end EmulatedStopAndWait

/-! ## The link over the lines -/

/-- A packet of the peer is delivered. -/
def StopAndWaitEvent.delivers : StopAndWaitEvent → Bool
  | .toTx _ _ _ _ => true
  | .toRx _ _ _ _ => true
  | _ => false

namespace StopAndWaitLink

variable {cfg : Config} {txAddr rxAddr : Address} {n : StopAndWaitLink}

/-- The link with other positions of the latest deliveries. -/
def readAt (n : StopAndWaitLink) (i k : ℕ) : StopAndWaitLink :=
  { n with dataRead := i, ackRead := k }

theorem sends_readAt (n : StopAndWaitLink) (i k : ℕ)
    (result : StopAndWaitTransport × Progress StopAndWaitTransport.Call) :
    (n.readAt i k).sends result = (n.sends result).readAt i k := by
  unfold sends
  split <;> rfl

theorem receives_readAt (n : StopAndWaitLink) (i k : ℕ)
    (result : StopAndWaitTransport × Received) :
    (n.readAt i k).receives result = (n.receives result).readAt i k := by
  unfold receives
  split <;> rfl

theorem step_readAt (n : StopAndWaitLink) (i k : ℕ) {e : StopAndWaitEvent}
    (he : e.delivers = false) :
    step cfg txAddr rxAddr (n.readAt i k) e =
      (step cfg txAddr rxAddr n e).readAt i k := by
  obtain ⟨tx, rx, call, returning, handed, completed, failures, returned, data,
    acks, dataRead, ackRead⟩ := n
  cases e with
  | sendto payload =>
      cases call with
      | none =>
          exact sends_readAt ⟨tx, rx, none, returning, handed ++ [payload],
            completed, failures, returned, data, acks, dataRead, ackRead⟩ i k _
      | some call => rfl
  | transmit sentAt sendResult =>
      rcases call with _ | ⟨addr, seq, packet, rto, attempt, _ | _⟩
      · rfl
      · exact sends_readAt ⟨tx, rx, some ⟨addr, seq, packet, rto, attempt, .sending⟩,
          returning, handed, completed, failures, returned, _, acks, dataRead,
          ackRead⟩ i k _
      · rfl
  | await input =>
      rcases call with _ | ⟨addr, seq, packet, rto, attempt, _ | ⟨sentAt, deadline⟩⟩
      · rfl
      · rfl
      · by_cases hfrom : input.arrival.isFrom rxAddr
        · exact (if_pos hfrom).trans (congrArg (readAt · i k) (if_pos hfrom)).symm
        · refine (if_neg hfrom).trans (Eq.trans ?_
            (congrArg (readAt · i k) (if_neg hfrom)).symm)
          exact sends_readAt ⟨tx, rx, _, returning, handed, completed, failures,
            returned, data, acks, dataRead, ackRead⟩ i k _
  | toTx i flip now ackedAt => cases he
  | recvfrom remaining arrival sendResult =>
      cases returning with
      | some payload => rfl
      | none => cases hfrom : arrival.isFrom txAddr <;> simp [step, readAt, hfrom]
  | toRx i flip remaining sendResult => cases he
  | recvfromReturns => rfl

theorem harmless (n : StopAndWaitLink) {e : StopAndWaitEvent}
    (he : e.delivers = false) : InOrder n e ∧ AckReturns e := by
  cases e with
  | toTx i flip now ackedAt => cases he
  | toRx i flip remaining sendResult => cases he
  | _ => exact ⟨trivial, trivial⟩

theorem logs_sends (n : StopAndWaitLink)
    (result : StopAndWaitTransport × Progress StopAndWaitTransport.Call) :
    (n.sends result).acks = n.acks ∧ (n.sends result).data = n.data := by
  unfold sends
  split <;> exact ⟨rfl, rfl⟩

/-- Only deliveries and transmissions are logged. -/
theorem logs_step (cfg : Config) (txAddr rxAddr : Address)
    (n : StopAndWaitLink) {e : StopAndWaitEvent}
    (he : e.delivers = false) :
    (step cfg txAddr rxAddr n e).acks = n.acks ∧
      ((∀ sentAt, e ≠ .transmit sentAt none) →
        (step cfg txAddr rxAddr n e).data = n.data) := by
  cases e with
  | sendto payload =>
      simp only [step]
      split
      · exact ⟨rfl, fun _ => rfl⟩
      · exact ⟨(logs_sends _ _).1, fun _ => (logs_sends _ _).2⟩
  | transmit sentAt sendResult =>
      simp only [step]
      split
      · exact ⟨rfl, fun _ => rfl⟩
      · refine ⟨(logs_sends _ _).1, fun hraises => ?_⟩
        rw [(logs_sends _ _).2]
        exact if_neg fun hnone => hraises sentAt (by rw [hnone])
  | await input =>
      simp only [step]
      split
      · exact ⟨rfl, fun _ => rfl⟩
      · split_ifs
        · exact ⟨rfl, fun _ => rfl⟩
        · exact ⟨(logs_sends _ _).1, fun _ => (logs_sends _ _).2⟩
  | toTx i flip now ackedAt => cases he
  | recvfrom remaining arrival sendResult =>
      simp only [step]
      split_ifs <;> exact ⟨rfl, fun _ => rfl⟩
  | toRx i flip remaining sendResult => cases he
  | recvfromReturns => exact ⟨rfl, fun _ => rfl⟩

theorem data_transmit {call : StopAndWaitTransport.Call}
    (hsending : n.sendingCall = some call)
    (sentAt : ℚ) (sendResult : Option String) :
    (step cfg txAddr rxAddr n (.transmit sentAt sendResult)).data.map Prod.snd =
      n.data.map Prod.snd ++ if sendResult = none then [call.packet] else [] := by
  simp only [step, hsending]
  unfold sends
  split <;> split_ifs <;> simp

theorem step_toRx (hreturning : n.returning = none) {i number : ℕ} {raw : Bytes}
    (hget : n.data[i]? = some (number, raw)) (flip : Option ℕ)
    (remaining : Option ℚ) (sendResult : Option String) :
    step cfg txAddr rxAddr n (.toRx i flip remaining sendResult) =
      { n with dataRead := i }.receives (n.rx.recvfrom remaining
        (.packet (corrupt raw flip) txAddr) sendResult) := by
  simp only [step]
  split
  · rename_i number' raw' _ hget'
    rw [hget] at hget'
    cases hget'
    rfl
  · rename_i hnot
    exact absurd hget (hnot number raw hreturning)

/-- The acknowledgement that is logged. -/
theorem acks_receives (n : StopAndWaitLink)
    (result : StopAndWaitTransport × Received) :
    (n.receives result).acks.map Prod.snd =
      n.acks.map Prod.snd ++ result.2.ack?.toList ∧
      (n.receives result).data = n.data := by
  unfold receives
  split
  · rename_i h
    simp [h, Received.ack?]
  · rename_i ack h
    simp [h, Received.ack?]
  · rename_i ack payload h
    simp [h, Received.ack?]
  · rename_i e h
    simp [h, Received.ack?]

end StopAndWaitLink

namespace StopAndWaitTransport

theorem exists_ackPacket_of_acceptData {t : StopAndWaitTransport}
    {addr : Address} {seq : ℕ} {payload ack : Bytes} {sendResult : Option String}
    (h : (t.acceptData addr seq payload sendResult).2.ack? = some ack) :
    ∃ n, Core.ackPacket n = .ok ack := by
  unfold acceptData at h
  dsimp only at h
  split at h
  · cases h
  · rename_i packet hpacket
    have hack : packet = ack := by
      split at h
      · cases h
      · split_ifs at h
        · exact Option.some.inj h
        · exact Option.some.inj h
    exact ⟨_, hack ▸ hpacket⟩

theorem exists_ackPacket {t : StopAndWaitTransport} {remaining : Option ℚ}
    {arrival : ChannelRecv} {sendResult : Option String} {ack : Bytes}
    (h : (t.recvfrom remaining arrival sendResult).2.ack? = some ack) :
    ∃ n, Core.ackPacket n = .ok ack := by
  unfold recvfrom at h
  split_ifs at h
  · cases h
  · split at h
    · cases h
    · cases h
    · unfold recvPacket at h
      split_ifs at h
      · cases h
      · split at h
        · cases h
        · split_ifs at h
          · cases h
          · exact exists_ackPacket_of_acceptData h

/-- An acknowledgement fits into a datagram. -/
theorem length_ack_le {n : ℕ} {ack : Bytes} (h : Core.ackPacket n = .ok ack) :
    ack.length ≤ MAX_DATAGRAM := by
  obtain ⟨-, header, hdecode, -⟩ := Core.decode_ackPacket h
  exact (decode_eq_ok_iff.mp hdecode).1.datagram

/-- An open channel takes the acknowledgement. -/
theorem answer_of_open {q : Emulator} {l : Line} {t : StopAndWaitTransport}
    {remaining : Option ℚ} {arrival : ChannelRecv} {now : ℚ}
    (hopen : l.channel.closed = false) :
    (t.answer q l remaining arrival now).1 = none := by
  unfold answer
  split
  · rename_i ack raw addr hack
    rw [← Option.not_isSome_iff_eq_none, Option.isSome_iff_exists]
    rintro ⟨what, hwhat⟩
    obtain ⟨n, hpacket⟩ := exists_ackPacket hack
    have hclosed := Line.closed_of_refusal hwhat (length_ack_le hpacket)
    rw [hopen] at hclosed
    cases hclosed
  · rfl

variable {q : Emulator} {l : Line} {t : StopAndWaitTransport}
  {remaining : Option ℚ} {arrival : ChannelRecv} {now : ℚ} {txAddr : Address}
  {log : List Bytes} {latest : ℕ}

theorem open_of_answer
    (hopen : (t.answer q l remaining arrival now).2.channel.closed = false) :
    l.channel.closed = false := by
  unfold answer at hopen
  split at hopen
  · rw [← Bool.not_eq_true]
    intro hclosed
    have hstep := Channel.closed_step q hclosed
    simp only [Line.turn, hstep, Bool.true_eq_false] at hopen
  · exact hopen

/-- The line of the acknowledgements after an iteration of `recvfrom` on a packet
of the peer. -/
theorem carries_answer (h : l.Carries q txAddr log latest)
    (hjitter : q.impairments.jitter = 0) (hreorder : q.impairments.reorder = 0)
    (hadmits : l.admits (some now) = true) (hopen : l.channel.closed = false)
    (raw : Bytes) :
    (t.answer q l remaining (.packet raw txAddr) now).2.Carries q txAddr
      (log ++ (t.recvfrom remaining (.packet raw txAddr) none).2.ack?.toList)
      latest := by
  have hnone : (t.answer q l remaining (.packet raw txAddr) now).1 = none :=
    answer_of_open hopen
  unfold answer at hnone ⊢
  cases hack : (t.recvfrom remaining (.packet raw txAddr) none).2.ack? with
  | none => simpa using h
  | some ack =>
      simp only [hack] at hnone ⊢
      have hsend := h.send hjitter hreorder ack hadmits
      rw [if_pos hnone] at hsend
      exact hsend

/-- Acknowledgements for others do not matter. -/
theorem carries_answer_other (h : l.Carries q txAddr log latest)
    (hjitter : q.impairments.jitter = 0) (hreorder : q.impairments.reorder = 0)
    (hadmits : l.admits (some now) = true)
    (hfrom : arrival.isFrom txAddr = false) :
    (t.answer q l remaining arrival now).2.Carries q txAddr log latest := by
  unfold answer
  split
  · rename_i ack raw addr hack
    have haddr : ¬ addr = txAddr := by simpa [ChannelRecv.isFrom] using hfrom
    exact h.send_other hjitter hreorder haddr hadmits
  · exact h

end StopAndWaitTransport

namespace EmulatedStopAndWait

variable {cfg : Config} {txAddr rxAddr : Address} {p q : Emulator}
  {w : EmulatedStopAndWait} {i k : ℕ}

/-- The lines carry what the link has logged, and the sockets have read nothing
younger than the packets at the positions `i` and `k`. -/
structure Tracks (txAddr rxAddr : Address) (p q : Emulator)
    (w : EmulatedStopAndWait) (i k : ℕ) : Prop where
  data : w.data.Carries p rxAddr (w.link.data.map Prod.snd) i
  acks : w.acks.Carries q txAddr (w.link.acks.map Prod.snd) k

theorem tracks_init : Tracks txAddr rxAddr p q init 0 0 :=
  ⟨Line.carries_init p rxAddr, Line.carries_init q txAddr⟩

/-- The link takes steps in which it keeps the order and no acknowledgement
raises, and what it logs is on the lines. -/
def Matched (cfg : Config) (txAddr rxAddr : Address) (p q : Emulator)
    (n : StopAndWaitLink) (w' : EmulatedStopAndWait) : Prop :=
  ∃ es i k, Meets (StopAndWaitLink.step cfg txAddr rxAddr)
      (fun n e => StopAndWaitLink.InOrder n e ∧ StopAndWaitLink.AckReturns e)
      n es ∧
    run (StopAndWaitLink.step cfg txAddr rxAddr) n es = w'.link.readAt i k ∧
    Tracks txAddr rxAddr p q w' i k

theorem Tracks.stay {n : StopAndWaitLink} (h : Tracks txAddr rxAddr p q w i k)
    (hlink : w.link = n) : Matched cfg txAddr rxAddr p q (n.readAt i k) w :=
  ⟨[], i, k, trivial, by rw [hlink, run_nil], h⟩

/-- A step that is no delivery. -/
theorem Tracks.local {w' : EmulatedStopAndWait} (e : StopAndWaitEvent)
    (he : e.delivers = false)
    (hlink : w'.link = w.link.step cfg txAddr rxAddr e)
    (h' : Tracks txAddr rxAddr p q w' i k) :
    Matched cfg txAddr rxAddr p q (w.link.readAt i k) w' := by
  refine ⟨[e], i, k, ⟨StopAndWaitLink.harmless _ he, trivial⟩, ?_, h'⟩
  rw [run_cons, run_nil, StopAndWaitLink.step_readAt _ i k he, hlink]

/-- The packet that was logged at the position. -/
theorem exists_of_log {log : List (ℕ × Bytes)} {m : ℕ} {raw : Bytes}
    (h : (log.map Prod.snd)[m]? = some raw) : ∃ number, log[m]? = some (number, raw) := by
  rw [List.getElem?_map, Option.map_eq_some_iff] at h
  obtain ⟨⟨number, _⟩, hget, rfl⟩ := h
  exact ⟨number, hget⟩

theorem Tracks.toTx (h : Tracks txAddr rxAddr p q w i k) {j : ℕ} {raw : Bytes}
    (hraw : w.acks.datagram txAddr j = some raw) (now ackedAt : ℚ) :
    Matched cfg txAddr rxAddr p q (w.link.readAt i k)
      { w with
        link := w.link.hears cfg rxAddr raw now ackedAt
        acks := { w.acks with read := j + 1 } } := by
  cases hwaiting : w.link.waitingCall with
  | none =>
      have hears : w.link.hears cfg rxAddr raw now ackedAt = w.link := by
        simp only [StopAndWaitLink.hears, hwaiting]
      refine Tracks.stay ⟨?_, ?_⟩ hears
      · rw [hears]
        exact h.data
      · rw [hears]
        exact h.acks.skip (Line.datagram_eq_some hraw).1
  | some waiting =>
      obtain ⟨call, sentAt, deadline⟩ := waiting
      obtain ⟨m, flip, sent, hlog, rfl, hle, hcarries⟩ := h.acks.read hraw
      obtain ⟨number, hget⟩ := exists_of_log hlog
      have hears : w.link.hears cfg rxAddr (corrupt sent flip) now ackedAt =
          w.link.sends (awaitAck cfg w.link.tx call sentAt deadline
            ⟨now, .packet (corrupt sent flip) rxAddr, ackedAt⟩) := by
        simp only [StopAndWaitLink.hears, hwaiting]
      refine ⟨[.toTx m flip now ackedAt], i, m, ⟨⟨hle, trivial⟩, trivial⟩, ?_, ?_⟩
      · have hwaiting' : (w.link.readAt i k).waitingCall =
            some (call, sentAt, deadline) := hwaiting
        have hget' : (w.link.readAt i k).acks[m]? = some (number, sent) := hget
        rw [run_cons, run_nil, hears, ← StopAndWaitLink.sends_readAt]
        simp only [StopAndWaitLink.step, hwaiting', hget']
        rfl
      · have hlogs := StopAndWaitLink.logs_sends w.link (awaitAck cfg w.link.tx
          call sentAt deadline ⟨now, .packet (corrupt sent flip) rxAddr, ackedAt⟩)
        rw [hears]
        constructor
        · rw [hlogs.2]
          exact h.data
        · rw [hlogs.1]
          exact hcarries

theorem Tracks.toRx (h : Tracks txAddr rxAddr p q w i k)
    (hq : q.impairments.jitter = 0 ∧ q.impairments.reorder = 0)
    (hopen : w.acks.channel.closed = false) (hreturning : w.link.returning = none)
    {j : ℕ} {raw : Bytes} (hraw : w.data.datagram rxAddr j = some raw) {now : ℚ}
    (hadmits : w.acks.admits (some now) = true) (remaining : Option ℚ) :
    let answer := w.link.rx.answer q w.acks remaining (.packet raw txAddr) now
    Matched cfg txAddr rxAddr p q (w.link.readAt i k)
      { link := w.link.receives
          (w.link.rx.recvfrom remaining (.packet raw txAddr) answer.1)
        data := { w.data with read := j + 1 }
        acks := answer.2 } := by
  intro answer
  have hnone : answer.1 = none := answer_of_open hopen
  obtain ⟨m, flip, sent, hlog, rfl, hle, hcarries⟩ := h.data.read hraw
  obtain ⟨number, hget⟩ := exists_of_log hlog
  have hlogs := StopAndWaitLink.acks_receives w.link
    (w.link.rx.recvfrom remaining (.packet (corrupt sent flip) txAddr) none)
  rw [hnone]
  refine ⟨[.toRx m flip remaining none], m, k, ⟨⟨hle, rfl⟩, trivial⟩, ?_, ?_⟩
  · have hreturning' : (w.link.readAt i k).returning = none := hreturning
    have hget' : (w.link.readAt i k).data[m]? = some (number, sent) := hget
    rw [run_cons, run_nil, ← StopAndWaitLink.receives_readAt,
      StopAndWaitLink.step_toRx hreturning' hget']
    rfl
  · constructor
    · rw [hlogs.2]
      exact hcarries
    · rw [hlogs.1]
      exact carries_answer h.acks hq.1 hq.2 hadmits hopen _

theorem Tracks.step (h : Tracks txAddr rxAddr p q w i k)
    (hp : p.impairments.jitter = 0 ∧ p.impairments.reorder = 0)
    (hq : q.impairments.jitter = 0 ∧ q.impairments.reorder = 0)
    (hopen : w.acks.channel.closed = false) (e : EmulatedStopAndWaitEvent) :
    Matched cfg txAddr rxAddr p q (w.link.readAt i k)
      (step cfg txAddr rxAddr p q w e) := by
  have hplain : ∀ e : StopAndWaitEvent, e.delivers = false →
      (∀ sentAt, e ≠ .transmit sentAt none) →
        Tracks txAddr rxAddr p q
          { w with link := w.link.step cfg txAddr rxAddr e } i k := by
    intro e he hquiet
    obtain ⟨hacks, hdata⟩ :=
      StopAndWaitLink.logs_step cfg txAddr rxAddr w.link he
    constructor
    · rw [hdata hquiet]
      exact h.data
    · rw [hacks]
      exact h.acks
  cases e with
  | sendto payload =>
      exact Tracks.local (.sendto payload) rfl rfl
        (hplain (.sendto payload) rfl fun _ => StopAndWaitEvent.noConfusion)
  | transmit sentAt now =>
      simp only [EmulatedStopAndWait.step]
      split
      · exact h.stay rfl
      · rename_i call hsending
        split_ifs with hadmits
        · refine Tracks.local (.transmit sentAt _) rfl rfl ⟨?_, ?_⟩
          · rw [StopAndWaitLink.data_transmit hsending]
            exact h.data.send hp.1 hp.2 call.packet hadmits
          · rw [(StopAndWaitLink.logs_step _ _ _ _ rfl).1]
            exact h.acks
        · exact h.stay rfl
  | await input =>
      exact Tracks.local (.await input) rfl rfl
        (hplain (.await input) rfl fun _ => StopAndWaitEvent.noConfusion)
  | toTx j now ackedAt =>
      simp only [EmulatedStopAndWait.step]
      split
      · exact h.stay rfl
      · rename_i raw hraw
        exact h.toTx hraw now ackedAt
  | recvfrom remaining arrival now =>
      simp only [EmulatedStopAndWait.step]
      split_ifs with hreads
      · obtain ⟨-, hfrom, hadmits⟩ := hreads
        refine Tracks.local (.recvfrom remaining arrival _) rfl rfl ⟨?_, ?_⟩
        · exact (hplain (.recvfrom remaining arrival _) rfl
            fun _ => StopAndWaitEvent.noConfusion).data
        · rw [(StopAndWaitLink.logs_step _ _ _ _ rfl).1]
          exact carries_answer_other h.acks hq.1 hq.2 hadmits (by simpa using hfrom)
      · exact h.stay rfl
  | toRx j remaining now =>
      simp only [EmulatedStopAndWait.step]
      split
      · rename_i raw hreturning hraw
        split_ifs with hadmits
        · exact h.toRx hq hopen hreturning hraw hadmits remaining
        · exact h.stay rfl
      · exact h.stay rfl
  | recvfromReturns =>
      exact Tracks.local .recvfromReturns rfl rfl
        (hplain .recvfromReturns rfl fun _ => StopAndWaitEvent.noConfusion)
  | dataChannel e =>
      simp only [EmulatedStopAndWait.step]
      split_ifs with hturn
      · refine Tracks.stay ⟨h.data.idle hp.1 hp.2 hturn.2 ?_, h.acks⟩ rfl
        exact (idle_step (Option.isNone_iff_eq_none.mp hturn.1) _ _ _).accepted
      · exact h.stay rfl
  | acksChannel e =>
      simp only [EmulatedStopAndWait.step]
      split_ifs with hturn
      · refine Tracks.stay ⟨h.data, h.acks.idle hq.1 hq.2 hturn.2 ?_⟩ rfl
        exact (idle_step (Option.isNone_iff_eq_none.mp hturn.1) _ _ _).accepted
      · exact h.stay rfl

/-- The channel of the receiver is never opened again. -/
theorem open_of_step {e : EmulatedStopAndWaitEvent}
    (hopen : (EmulatedStopAndWait.step cfg txAddr rxAddr p q w
      e).acks.channel.closed = false) : w.acks.channel.closed = false := by
  cases e with
  | transmit sentAt now =>
      simp only [EmulatedStopAndWait.step] at hopen
      split at hopen
      · exact hopen
      · split_ifs at hopen <;> exact hopen
  | toTx j now ackedAt =>
      simp only [EmulatedStopAndWait.step] at hopen
      split at hopen <;> exact hopen
  | recvfrom remaining arrival now =>
      simp only [EmulatedStopAndWait.step] at hopen
      split_ifs at hopen
      · exact open_of_answer hopen
      · exact hopen
  | toRx j remaining now =>
      simp only [EmulatedStopAndWait.step] at hopen
      split at hopen
      · split_ifs at hopen
        · exact open_of_answer hopen
        · exact hopen
      · exact hopen
  | dataChannel e =>
      simp only [EmulatedStopAndWait.step] at hopen
      split_ifs at hopen <;> exact hopen
  | acksChannel e =>
      simp only [EmulatedStopAndWait.step] at hopen
      split_ifs at hopen
      · rw [← Bool.not_eq_true]
        intro hclosed
        have hstep : (w.acks.turn q e).channel.closed = true :=
          Channel.closed_step q hclosed e
        rw [hstep] at hopen
        cases hopen
      · exact hopen
  | _ => exact hopen

/-- As long as the channel of the receiver is open, the link over the lines is
the link `n`. -/
def Follows (txAddr rxAddr : Address) (p q : Emulator) (w : EmulatedStopAndWait)
    (n : StopAndWaitLink) : Prop :=
  w.acks.channel.closed = false →
    ∃ i k, n = w.link.readAt i k ∧ Tracks txAddr rxAddr p q w i k

theorem follows_init :
    Follows txAddr rxAddr p q init StopAndWaitLink.init :=
  fun _ => ⟨0, 0, rfl, tracks_init⟩

theorem Follows.step (hp : p.impairments.jitter = 0 ∧ p.impairments.reorder = 0)
    (hq : q.impairments.jitter = 0 ∧ q.impairments.reorder = 0)
    {n : StopAndWaitLink} (h : Follows txAddr rxAddr p q w n)
    (e : EmulatedStopAndWaitEvent) :
    ∃ es, Meets (StopAndWaitLink.step cfg txAddr rxAddr)
        (fun n e => StopAndWaitLink.InOrder n e ∧ StopAndWaitLink.AckReturns e)
        n es ∧
      Follows txAddr rxAddr p q
        (EmulatedStopAndWait.step cfg txAddr rxAddr p q w e)
        (run (StopAndWaitLink.step cfg txAddr rxAddr) n es) := by
  by_cases hopen : (EmulatedStopAndWait.step cfg txAddr rxAddr p q w
    e).acks.channel.closed = false
  · have hbefore := open_of_step hopen
    obtain ⟨i, k, rfl, htracks⟩ := h hbefore
    obtain ⟨es, i', k', hmeets, hrun, htracks'⟩ := htracks.step hp hq hbefore e
    exact ⟨es, hmeets, fun _ => ⟨i', k', hrun, htracks'⟩⟩
  · exact ⟨[], trivial, fun hopen' => absurd hopen' hopen⟩

variable (cfg txAddr rxAddr p q) in
/-- The link over the lines is the end of a run of a link that keeps the
order. -/
theorem exists_ordered (hp : p.impairments.jitter = 0 ∧ p.impairments.reorder = 0)
    (hq : q.impairments.jitter = 0 ∧ q.impairments.reorder = 0)
    (es : List EmulatedStopAndWaitEvent)
    (hfailures : (after cfg txAddr rxAddr p q es).link.failures = [])
    (hopen : (after cfg txAddr rxAddr p q es).acks.channel.closed = false) :
    ∃ i k, StopAndWaitLink.Ordered txAddr rxAddr
      ((after cfg txAddr rxAddr p q es).link.readAt i k) := by
  obtain ⟨es', hmeets, hfollows⟩ :=
    @exists_run_of_matched _ _ (EmulatedStopAndWait.step cfg txAddr rxAddr p q)
      _ _ _ (Follows txAddr rxAddr p q) _ (fun w n e h => h.step hp hq e) _ _
      follows_init es
  obtain ⟨i, k, hrun, -⟩ := hfollows hopen
  have hnone : (run (StopAndWaitLink.step cfg txAddr rxAddr)
      StopAndWaitLink.init es').failures = [] := by
    rw [hrun]
    exact hfailures
  have hordered := StopAndWaitLink.ordered_run
    (hmeets.mono fun _ _ h => h.1)
    ((hmeets.mono fun _ _ h => h.2).forall) hnone
  rw [hrun] at hordered
  exact ⟨i, k, hordered⟩

variable (cfg txAddr rxAddr p q) in
theorem exactlyOnce (hp : p.impairments.jitter = 0 ∧ p.impairments.reorder = 0)
    (hq : q.impairments.jitter = 0 ∧ q.impairments.reorder = 0)
    (es : List EmulatedStopAndWaitEvent)
    (hfailures : (after cfg txAddr rxAddr p q es).link.failures = [])
    (hopen : (after cfg txAddr rxAddr p q es).acks.channel.closed = false) :
    StopAndWaitLink.ExactlyOnce txAddr rxAddr
      (after cfg txAddr rxAddr p q es).link := by
  obtain ⟨i, k, hordered⟩ :=
    exists_ordered cfg txAddr rxAddr p q hp hq es hfailures hopen
  exact ⟨hordered.exactlyOnce.accepted, hordered.exactlyOnce.idle⟩

end EmulatedStopAndWait

open EmulatedStopAndWait in
/-- Stop-and-Wait over two channel emulators without jitter and reordering: in
every run in which no `sendto` has raised and the channel of the receiver is
open, every payload has been accepted exactly once. -/
theorem emulated_stopAndWait_exactlyOnce (cfg : Config)
    (txAddr rxAddr : Address) (p q : Channel.Emulator)
    (hp : p.impairments.jitter = 0 ∧ p.impairments.reorder = 0)
    (hq : q.impairments.jitter = 0 ∧ q.impairments.reorder = 0)
    (es : List EmulatedStopAndWaitEvent)
    (hfailures : (after cfg txAddr rxAddr p q es).link.failures = [])
    (hopen : (after cfg txAddr rxAddr p q es).acks.channel.closed = false) :
    StopAndWaitLink.ExactlyOnce txAddr rxAddr
      (after cfg txAddr rxAddr p q es).link :=
  EmulatedStopAndWait.exactlyOnce cfg txAddr rxAddr p q hp hq es hfailures hopen

/-- A channel that holds every packet back for a second, and delivers it
twice. -/
def exampleSteady : Channel.Emulator where
  impairments :=
    { loss := 1 / 8, delay := 1, duplication := 1, valid := by decide +kernel }
  draws _ := Channel.Draw.sixteenths 7

/-- Two datagrams, each packet of which arrives twice. -/
def exampleSteadyRun : List EmulatedStopAndWaitEvent :=
  [.sendto [7], .transmit 0 0, .dataChannel (.wake 1 false),
    .dataChannel (.wake 1 false), .toRx 0 none 1, .recvfromReturns,
    .toRx 1 none 1, .acksChannel (.wake 2 false), .toTx 0 2 2, .sendto [8],
    .transmit 3 3, .acksChannel (.wake 3 true), .acksChannel (.wake 3 false),
    .toTx 2 3 3, .dataChannel (.wake 4 false), .toRx 2 none 4]

open EmulatedStopAndWait in
/-- The second datagram has been accepted, and its call is under way. -/
theorem emulated_stopAndWait_exactlyOnce_twice :
    let w := after { timeout := 5 } ("a", 1) ("b", 2) exampleSteady exampleSteady
      exampleSteadyRun
    StopAndWaitLink.ExactlyOnce ("a", 1) ("b", 2) w.link ∧
      w.link.returned = [[7]] ∧ w.link.returning = some [8] ∧
      w.link.completed = 1 := by
  intro w
  constructor
  · exact emulated_stopAndWait_exactlyOnce { timeout := 5 } ("a", 1) ("b", 2)
      exampleSteady exampleSteady ⟨rfl, rfl⟩ ⟨rfl, rfl⟩ exampleSteadyRun
      (by decide +kernel) (by decide +kernel)
  · decide +kernel

end UdpArq
