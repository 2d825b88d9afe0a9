import UdpArq.Channel.Corruption
import UdpArq.Transport.Tracking
import UdpArq.Windowed.Flush
import UdpArq.Wire

/-!
# What `sendto` accepts and what can be sent

`sendto` checks a payload against `mss` only.  The limits of the header and of
the channel are met later, when the background thread builds the packet, after
the datagram has left `_pending`.
-/

namespace UdpArq

open UdpArq.Core

/-! ## Packets within the limits of the channel -/

/-- A DATA packet fits the channel. -/
theorem Core.length_dataPacket_le {seq : ℕ} {data packet : Bytes}
    (h : dataPacket seq data = .ok packet) :
    packet.length ≤ Channel.MAX_DATAGRAM := by
  obtain ⟨-, header, hdecode, -⟩ := decode_dataPacket h
  exact (decode_eq_ok_iff.mp hdecode).1.datagram

theorem Core.toPeer_accept (c : Core) (data : Bytes) (addr : Address) :
    toPeer addr (c.accept data addr).handed =
      toPeer addr c.handed ++ [data] := by
  simp [accept]

/-- A `sendto` that is accepted. -/
theorem Endpoint.Handled.core_accept {cfg : Config} {E : Endpoint cfg}
    (H : E.Handled) {s : E.State} {data : Bytes} (hlen : data.length ≤ cfg.mss)
    (hopen : (E.core s).stopEvent = false) (addr : Address) :
    E.core (E.step s (.sendto data addr)) = (E.core s).accept data addr := by
  have hok : (E.core s).sendto cfg data addr =
      .ok ((E.core s).accept data addr) := by
    simp [Core.sendto, not_lt.mpr hlen, hopen]
  rw [H.core_sendto, hok]
  rfl

/-! ## Everything accepted can be sent -/

namespace Endpoint

variable {cfg : Config} (E : Endpoint cfg)

/-- If `sendto` accepts a datagram in this step, its payload and its number fit
a packet. -/
def Fits (s : E.State) : Event → Prop
  | .sendto data addr =>
      data.length ≤ cfg.mss → (E.core s).stopEvent = false →
        data.length ≤ MAX_PAYLOAD ∧
          (E.core s).nextSeq.getD addr 0 ≤ 0xFFFFFFFF
  | _ => True

/-- Datagram `q` of peer `a` is in one of the three containers. -/
def Present (s : E.State) (a : Address) (q : ℕ) : Prop :=
  (∃ item ∈ (E.core s).outbound, item.addr = a ∧ item.seq = q) ∨
    q ∈ (sub (E.core s).pending a).keys ∨
      q ∈ (sub (E.core s).sentItems a).keys

/-- What `sendto` has accepted can be put on the wire: every datagram can be
encoded within the limits of the channel; the background thread survives the
encoding of the next one, and what it sends then is outstanding; every datagram
is settled or in one of the containers; and a flush of all peers returns only
when every datagram is settled. -/
structure Sendable (s : E.State) : Prop where
  encodes : ∀ a q payload, (toPeer a (E.core s).handed)[q]? = some payload →
    ∃ packet, dataPacket q payload = .ok packet ∧
      packet.length ≤ Channel.MAX_DATAGRAM
  survives : ∀ a input seq item, (E.core s).crashed = none →
    (E.core s).nextToSend cfg a = some (seq, item) →
      (E.core (E.step s (.pump a input))).crashed = none
  present : ∀ a, ∀ q < (E.core s).nextSeq.getD a 0,
    ((E.core s).status a q).event = true ∨ E.Present s a q
  flushed : ∀ remaining, (E.core s).flush none remaining = .returned →
    ∀ a, ∀ q < (E.core s).nextSeq.getD a 0,
      ((E.core s).status a q).event = true

variable {E}

theorem present_iff_held {s : E.State} (hwf : E.WellFormed s) {a : Address}
    {q : ℕ} : E.Present s a q ↔ (E.lane s a).Held q := by
  have hkeys := (hwf a).labelled.keys q
  have hqueued : q ∈ (E.lane s a).queued.map Item.seq ↔
      ∃ item ∈ (E.core s).outbound, item.addr = a ∧ item.seq = q := by
    simp [Endpoint.lane, Core.lane, and_assoc]
  change _ ∨ q ∈ (E.lane s a).pending.keys ∨ q ∈ (E.lane s a).sentItems.keys ↔ _
  rw [hkeys, Lane.Held, Lane.waiting, List.mem_append, hqueued, or_comm,
    or_right_comm, or_comm, or_left_comm]

/-- In a tracked state, what a flush of all peers does not see is settled. -/
theorem event_of_flush {s : E.State} (hwf : E.WellFormed s)
    (h : ∀ a, (E.lane s a).Tracked) {remaining : ℚ}
    (hflush : (E.core s).flush none remaining = .returned) (a : Address) {q : ℕ}
    (hq : q < (E.core s).nextSeq.getD a 0) :
    ((E.core s).status a q).event = true := by
  obtain ⟨-, hitems⟩ := flush_eq_returned_iff.mp hflush
  rcases h a q hq with hset | hheld
  · exact hset
  · obtain ⟨item, hmem, -⟩ :=
      mem_outbound_of_flush hwf hitems (Or.inl rfl) hheld
    have hnil : (E.core s).outbound = [] := by
      rw [flushItems, if_pos rfl] at hitems
      exact (List.append_eq_nil_iff.mp hitems).2
    rw [hnil] at hmem
    exact absurd hmem List.not_mem_nil

end Endpoint

/-- The invariants behind `Sendable`. -/
theorem Windowed.sendable_iff {cfg : Config} (t : Windowed) :
    let E := t.endpoint cfg
    ∀ {s : E.State}, E.WellFormed s →
      (E.Sendable s ↔
        ∀ a, (E.lane s a).Encodable ∧ (E.lane s a).Tracked) := by
  intro E s hwf
  constructor
  · intro h a
    constructor
    · intro q payload hget
      obtain ⟨packet, hpacket, -⟩ := h.encodes a q payload hget
      exact ⟨packet, hpacket⟩
    · intro q hq
      exact (h.present a q hq).imp_right (Endpoint.present_iff_held hwf).mp
  · intro h
    constructor
    · intro a q payload hget
      obtain ⟨packet, hpacket⟩ := (h a).1 q payload hget
      exact ⟨packet, hpacket, length_dataPacket_le hpacket⟩
    · intro a input seq item hrun hnext
      have hlane : (E.lane s a).nextToSend cfg = some (seq, item) := hnext
      obtain ⟨packet, hpacket⟩ := (h a).1.next (hwf a) hlane
      have hrun' := Option.not_isSome_iff_eq_none.mpr hrun
      exact Option.not_isSome_iff_eq_none.mp
        ((t.handled cfg).pump_crashed hwf hrun' hnext hpacket input)
    · intro a q hq
      exact ((h a).2 q hq).imp_right (Endpoint.present_iff_held hwf).mpr
    · intro remaining hflush a q hq
      exact Endpoint.event_of_flush hwf (fun a => (h a).2) hflush a hq

/-- What `sendto` has accepted can be put on the wire throughout a run exactly
if every datagram that it accepts has at most `MAX_PAYLOAD` bytes and a number
of at most 32 bits. -/
theorem sendable_throughout_iff (cfg : Config) (t : Windowed)
    (es : List Event) :
    let E := t.endpoint cfg
    Throughout E.step E.Sendable E.init es ↔
      Meets E.step E.Fits E.init es := by
  intro E
  refine throughout_iff_meets E.WellFormed (fun _ e h => h.step e) ?_
    Endpoint.WellFormed.init ?_ es
  · intro s e hwf hs
    rw [t.sendable_iff hwf] at hs
    rw [t.sendable_iff (hwf.step e)]
    constructor
    · intro hnext
      cases e with
      | sendto data addr =>
          intro hlen hopen
          have hcount : (E.core s).nextSeq.getD addr 0 =
              (toPeer addr (E.core s).handed).length := (hwf addr).nextSeq_eq
          have hhanded : toPeer addr
              (E.core (E.step s (.sendto data addr))).handed =
                toPeer addr (E.core s).handed ++ [data] := by
            rw [(t.handled cfg).core_accept hlen hopen]
            exact toPeer_accept (E.core s) data addr
          have hlast : (E.lane (E.step s (.sendto data addr)) addr).handed[
              (E.core s).nextSeq.getD addr 0]? = some data := by
            change (toPeer addr _)[_]? = _
            rw [hhanded, hcount, List.getElem?_concat_length]
          exact (dataPacket_isOk_iff.mp ((hnext addr).1 _ _ hlast)).symm
      | _ => trivial
    · intro hfits a
      refine ⟨(hs a).1.step (hwf a) (hwf.lane_step e a) ?_,
        (hs a).2.step (hwf a) (hwf.lane_step e a) fun _ _ _ _ hnext =>
          (hs a).1.next (hwf a) hnext⟩
      rintro data rfl hopen hlen
      exact hfits hlen hopen
  · rw [t.sendable_iff Endpoint.WellFormed.init]
    intro a
    rw [Endpoint.lane, E.lane_init]
    exact ⟨fun q payload hget => by simp at hget, fun q hq => by simp at hq⟩

/-- One datagram of ordinary size is sent. -/
theorem sendable_throughout_iff_one :
    let E := Windowed.goBackN.endpoint {}
    Throughout E.step E.Sendable E.init [.sendto [7] ("b", 2), .drain] := by
  intro E
  apply (sendable_throughout_iff {} .goBackN _).mpr
  exact ⟨fun _ _ => by decide, trivial, trivial⟩

/-! ## A payload that no header admits -/

/-- A datagram is accepted, taken from the queue and pumped. -/
def pumpedRun (data : Bytes) : List Event :=
  [.sendto data ("b", 2), .drain, .pump ("b", 2) ⟨0, 0, none⟩]

/-- The datagram is in no container and not settled, the thread is dead, and a
flush of all peers returns. -/
def Core.Swallowed (c : Core) : Prop :=
  c.crashed = some (.packet (.payloadLenOutOfRange 65492)) ∧
    c.nextSeq.getD ("b", 2) 0 = 1 ∧ (c.status ("b", 2) 0).event = false ∧
    c.outbound = [] ∧ sub c.pending ("b", 2) = ∅ ∧
    sub c.sentItems ("b", 2) = ∅ ∧ c.flush none 1 = .returned

theorem dataPacket_oversized {data : Bytes} (h : data.length = 65492) :
    dataPacket 0 data = .error (.payloadLenOutOfRange 65492) := by
  have hheader : Header.new
      { seq := 0, ack := 0, flags := FLAG_DATA, payloadLen := 65492 } =
        .error (.payloadLenOutOfRange 65492) := by decide
  rw [dataPacket, encodeWithChecksum, h, hheader]
  rfl

/-- A configuration whose `mss` is one byte above `MAX_PAYLOAD`. -/
def wideConfig : Config := { mss := 65492 }

theorem newEstimator_wideConfig : ∃ r, newEstimator wideConfig = some r :=
  Option.isSome_iff_exists.mp (by decide +kernel)

/-- What the oversized datagram does to the common state. -/
theorem Windowed.core_pumpedRun (t : Windowed) {data : Bytes}
    (h : data.length = 65492) :
    let E := t.endpoint wideConfig
    Swallowed (E.core (run E.step E.init (pumpedRun data))) := by
  intro E
  obtain ⟨r, hr⟩ := newEstimator_wideConfig
  have H := t.handled wideConfig
  have hinit : E.core E.init = {} := by
    rcases t with _ | _ <;> rfl
  have haccepted : E.core (E.step E.init (.sendto data ("b", 2))) =
      ({} : Core).accept data ("b", 2) := by
    rw [H.core_accept h.le (by rw [hinit]), hinit]
  simp only [pumpedRun, run_cons, run_nil]
  generalize E.step E.init (.sendto data ("b", 2)) = s₁ at haccepted ⊢
  have hrun₁ : (E.core s₁).crashed = none := by
    rw [haccepted]
    rfl
  have hdrained := H.drained (Option.not_isSome_iff_eq_none.mpr hrun₁)
  rw [haccepted] at hdrained
  generalize E.step s₁ .drain = s₂ at hdrained ⊢
  generalize hs₂ : E.core s₂ = c₂ at hdrained
  cases hdrained with
  | idle hempty => cases hempty
  | crash _ hnone =>
      rw [hr] at hnone
      cases hnone
  | register hqueue =>
      cases hqueue
      have hnext : (E.core s₂).nextToSend wideConfig ("b", 2) =
          some (0, ⟨("b", 2), 0, data⟩) := by
        rw [hs₂]
        rfl
      have hrun₂ : (E.core s₂).crashed = none := by
        rw [hs₂]
        rfl
      rw [H.core_pump_error (Option.not_isSome_iff_eq_none.mpr hrun₂) hnext
        (dataPacket_oversized h), hs₂]
      exact ⟨rfl, rfl, rfl, rfl, rfl, rfl, rfl⟩

theorem Windowed.pumpedRun_swallowed (t : Windowed) {data : Bytes}
    (h : data.length = 65492) :
    let E := t.endpoint wideConfig
    Swallowed (E.core (run E.step E.init (pumpedRun data))) ∧
      ¬ Throughout E.step E.Sendable E.init (pumpedRun data) := by
  intro E
  have hswallowed : Swallowed (E.core (run E.step E.init (pumpedRun data))) :=
    t.core_pumpedRun h
  refine ⟨hswallowed, fun hall => ?_⟩
  obtain ⟨-, hcount, hevent, -, -, -, hreturned⟩ := hswallowed
  have hassigned : 0 < (E.core (run E.step E.init
      (pumpedRun data))).nextSeq.getD ("b", 2) 0 := by
    rw [hcount]
    decide
  have hset := (hall _ List.prefix_rfl).flushed 1 hreturned ("b", 2) 0 hassigned
  rw [hevent] at hset
  cases hset

/-- A datagram of 65492 bytes is accepted, and then lost by a thread that dies of
it, while `flush` returns. -/
theorem oversized_swallowed :
    let es := pumpedRun (List.replicate 65492 0)
    (let E := Windowed.goBackN.endpoint wideConfig
     Swallowed (E.core (run E.step E.init es)) ∧
      ¬ Throughout E.step E.Sendable E.init es) ∧
    (let E := Windowed.selectiveRepeat.endpoint wideConfig
     Swallowed (E.core (run E.step E.init es)) ∧
      ¬ Throughout E.step E.Sendable E.init es) :=
  ⟨Windowed.goBackN.pumpedRun_swallowed List.length_replicate,
    Windowed.selectiveRepeat.pumpedRun_swallowed List.length_replicate⟩

end UdpArq
