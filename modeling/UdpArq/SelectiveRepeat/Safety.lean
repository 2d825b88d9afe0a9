import UdpArq.SelectiveRepeat.Refinement
import UdpArq.Transport.Link

/-!
# Selective Repeat delivers a prefix

Safety of a Selective Repeat sender and receiver over a network that loses,
duplicates, delays, reorders and damages packets.
-/

namespace UdpArq

namespace SelectiveRepeatTransport

open UdpArq.Core

/-- The receiver has delivered or buffered datagram `q` of the peer. -/
def Received (rx : SelectiveRepeatTransport) (addr : Address) (q : ℕ) : Prop :=
  q < rx.expected.getD addr 0 ∨ q ∈ (sub rx.buffer addr).keys

/-- The delivered payloads are a prefix of the accepted ones, the buffer holds
later ones within the window, everything acknowledged or completed has been
received, and without failures everything completed means everything
delivered. -/
theorem selectiveRepeat_delivers_prefix (cfgT cfgR : Config)
    (txAddr rxAddr : Address) (es : List LinkEvent)
    (hacks : ∀ e ∈ es, Link.AckReturns e) :
    let n := Link.after (endpoint cfgT) (endpoint cfgR) txAddr rxAddr es
    let handed := toPeer rxAddr n.tx.handed
    let delivered := toPeer txAddr n.rx.incomingData.puts
    handed.length < 2 ^ 32 →
      delivered <+: handed ∧
      (∀ q payload, (sub n.rx.buffer txAddr).get? q = some payload →
        n.rx.expected.getD txAddr 0 < q ∧
          q < n.rx.expected.getD txAddr 0 + cfgR.windowSize ∧
          handed[q]? = some payload) ∧
      (∀ raw flip a, (raw, txAddr) ∈ n.rx.channel →
        IsAck (corrupt raw flip) (a + 1) → Received n.rx txAddr a) ∧
      (∀ q, (n.tx.status rxAddr q).event = true →
        (n.tx.status rxAddr q).error = none → Received n.rx txAddr q) ∧
      (Meets (Link.step (endpoint cfgT) (endpoint cfgR) txAddr rxAddr)
          (Link.Undisturbed (endpoint cfgT) (endpoint cfgR) rxAddr)
          (Link.init (endpoint cfgT) (endpoint cfgR)) es →
        (∀ q < handed.length, (n.tx.status rxAddr q).event = true) →
          delivered = handed) := by
  intro n handed delivered hfew
  have hcovers : ∀ k q, (endpoint cfgT).discipline.covers k q →
      (endpoint cfgR).discipline.covers k q := fun _ _ h => h
  have hsound : Link.Sound (endpoint cfgT) (endpoint cfgR) txAddr rxAddr n :=
    Link.sound_after hcovers hacks hfew
  refine ⟨hsound.delivered_prefix, ?_, ?_, ?_, ?_⟩
  · intro q payload hget
    exact hsound.receiver.reassembles.buffered q payload hget
  · intro raw flip a hmem hraw
    exact hsound.acknowledgement hmem hraw rfl
  · intro q hevent herror
    exact hsound.completed q ⟨hevent, herror⟩
  · intro hquiet hevent
    refine hsound.delivered_eq fun q hq => ⟨hevent q hq, ?_⟩
    exact Link.error_eq_none_after hquiet q

theorem selectiveRepeat_delivers_prefix_exampleRun :
    let n := Link.after (endpoint {}) (endpoint {}) ("a", 1) ("b", 2)
      (Link.exampleRun ("b", 2) [7])
    toPeer ("a", 1) n.rx.incomingData.puts <+: toPeer ("b", 2) n.tx.handed := by
  have hcovers := Link.ackReturns_exampleRun ("b", 2) [7]
  have h := selectiveRepeat_delivers_prefix {} {} ("a", 1) ("b", 2)
    (Link.exampleRun ("b", 2) [7]) hcovers (by decide +kernel)
  exact h.1

end SelectiveRepeatTransport

end UdpArq
