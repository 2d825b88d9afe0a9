import UdpArq.Wire
import UdpArq.GoBackN.Metered
import UdpArq.SelectiveRepeat.Metered

/-!
# Nothing that arrives kills the thread

Whatever bytes come from whatever address, `_handle_incoming` returns, sends at
most one packet, and that packet is an acknowledgement to the sender.  Bytes
that are no frame change nothing at all.
-/

namespace UdpArq

open UdpArq.Core

/-! ## Answers -/

/-- From `c` to `c'` the thread has not died, and at most one packet has been
sent, which is an acknowledgement to `addr`. -/
structure Answers (addr : Address) (c c' : Core) : Prop where
  crashed : c'.crashed = c.crashed
  channel : c'.channel = c.channel ∨ ∃ k packet, k ≤ 0xFFFFFFFF ∧
    ackPacket k = .ok packet ∧ IsAck packet k ∧
      c'.channel = (packet, addr) :: c.channel

theorem Answers.refl (addr : Address) (c : Core) : Answers addr c c :=
  ⟨rfl, Or.inl rfl⟩

/-- An acknowledgement that fits the header is an answer, and so is none at
all when its send raises. -/
theorem answers_acknowledge (c : Core) (expected : Dict Address ℕ)
    (addr : Address) {k : ℕ} (hk : k ≤ 0xFFFFFFFF) (payloads : List Bytes)
    (sendResult : Option String) :
    Answers addr c (({ c with expected } : Core).acknowledge addr k payloads
      sendResult) := by
  obtain ⟨packet, hpacket⟩ := ackPacket_isOk_iff.mpr hk
  unfold acknowledge
  rw [hpacket]
  rcases sendResult with _ | what
  · refine ⟨rfl, Or.inr ⟨k, packet, hk, hpacket, ?_, rfl⟩⟩
    exact isAck_of_ackPacket hpacket
  · exact ⟨rfl, Or.inl rfl⟩

/-- The byte string is no frame: it is not what `_encode_with_checksum` makes of
any header and payload. -/
def Unframed (raw : Bytes) : Prop :=
  ∀ f payload, f.checksum = 0 → encodeWithChecksum f payload ≠ .ok raw

/-- Bytes that are no frame are handled as nothing. -/
theorem Unframed.isOther {raw : Bytes} (h : Unframed raw) : IsOther raw := by
  constructor
  · rintro n ⟨hverify, header, payload, hdecode, -⟩
    exact h _ payload rfl (encodeWithChecksum_of_accepted hverify hdecode)
  · rintro seq payload ⟨hverify, header, hdecode, -⟩
    exact h _ payload rfl (encodeWithChecksum_of_accepted hverify hdecode)

namespace Metered

variable {cfg : Config} (M : Metered cfg)

/-- What a datagram that arrives may do to a transport. -/
structure Tolerates (s : M.State) (raw : Bytes) (addr : Address)
    (input : IncomingInput) : Prop where
  answers : Answers addr (M.core s)
    (M.core (M.step s (.incoming raw addr input)))
  sampled : ∀ a q rtt,
    M.sampled s (.incoming raw addr input) = some (a, q, rtt) → 0 < rtt
  ignored : Unframed raw → M.step s (.incoming raw addr input) = s

/-- Every reachable state tolerates every datagram, provided that the window of
the peer that sent it lies below `2 ^ 32`. -/
def Tolerant : Prop :=
  ∀ (es : List Event) (raw : Bytes) (addr : Address) (input : IncomingInput),
    let s := run M.step M.init es
    (M.core s).expected.getD addr 0 + cfg.windowSize < 2 ^ 32 →
      M.Tolerates s raw addr input

variable {M}

/-- Every transport whose `_handle_ack` is known tolerates what arrives. -/
theorem tolerant_of (H : M.Handled) (A : M.HandlesAcks) : M.Tolerant := by
  intro es raw addr input s hfits
  have hwf : M.WellFormed s := Endpoint.wellFormed_run es
  refine ⟨?_, fun a q rtt => sampled_pos hwf, fun hraw => ?_⟩
  · by_cases hcrashed : (M.core s).crashed.isSome
    · rw [H.step_of_dead rfl hcrashed]
      exact .refl addr _
    have harrived := A.arrived s raw addr input hcrashed
    generalize M.core (M.step s (.incoming raw addr input)) = c at harrived ⊢
    cases harrived with
    | ack =>
        have hrun := A.crashed hwf hcrashed raw addr input
        rw [Option.not_isSome_iff_eq_none] at hrun hcrashed
        exact ⟨hrun.trans hcrashed.symm,
          Or.inl (A.steps s raw addr input).channel⟩
    | data _ _ payloads hle =>
        exact answers_acknowledge _ _ addr (by omega) payloads _
    | other => exact .refl addr _
  · exact A.ignores s raw addr input hraw.isOther

end Metered

/-- In no reachable state of either windowed transport can a byte string from
the network kill the thread: it is answered by one acknowledgement or not at
all, and ignored if it is no frame. -/
theorem incoming_tolerated (cfg : Config) :
    (GoBackNTransport.metered cfg).Tolerant ∧
      (SelectiveRepeatTransport.metered cfg).Tolerant :=
  ⟨Metered.tolerant_of (GoBackNTransport.handled cfg)
      (GoBackNTransport.handlesAcks cfg),
    Metered.tolerant_of (SelectiveRepeatTransport.handled cfg)
      (SelectiveRepeatTransport.handlesAcks cfg)⟩

end UdpArq
