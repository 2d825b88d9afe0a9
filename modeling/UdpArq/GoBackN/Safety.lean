import UdpArq.GoBackN.Refinement
import UdpArq.Transport.Link

/-!
# Go-Back-N delivers a prefix

Safety of a Go-Back-N sender and receiver over a network that loses,
duplicates, delays, reorders and damages packets.
-/

namespace UdpArq

namespace GoBackNTransport

open UdpArq.Core

/-- The payloads delivered by the receiver are a prefix of the payloads that the
sender accepted, and every datagram completed without error is among them. -/
theorem goBackN_delivers_prefix (cfgT cfgR : Config)
    (txAddr rxAddr : Address) (es : List LinkEvent)
    (hacks : ∀ e ∈ es, Link.AckReturns e) :
    let n := Link.after (endpoint cfgT) (endpoint cfgR) txAddr rxAddr es
    (toPeer rxAddr n.tx.handed).length < 2 ^ 32 →
      toPeer txAddr n.rx.incomingData.puts <+: toPeer rxAddr n.tx.handed ∧
        ∀ q, (n.tx.status rxAddr q).event = true →
          (n.tx.status rxAddr q).error = none →
            ∃ payload, (toPeer rxAddr n.tx.handed)[q]? = some payload ∧
              (toPeer txAddr n.rx.incomingData.puts)[q]? = some payload := by
  intro n hfew
  have hcovers : ∀ k q, (endpoint cfgT).discipline.covers k q →
      (endpoint cfgR).discipline.covers k q := fun _ _ h => h
  have hsound : Link.Sound (endpoint cfgT) (endpoint cfgR) txAddr rxAddr n :=
    Link.sound_after hcovers hacks hfew
  refine ⟨hsound.delivered_prefix, fun q hevent herror => ?_⟩
  rcases hsound.completed q ⟨hevent, herror⟩ with hlt | hbuffer
  · exact hsound.delivered_getElem? hlt
  · exact absurd hbuffer (by simp [Endpoint.lane, endpoint, Core.lane])

theorem goBackN_delivers_prefix_exampleRun :
    let n := Link.after (endpoint {}) (endpoint {}) ("a", 1) ("b", 2)
      (Link.exampleRun ("b", 2) [7])
    toPeer ("a", 1) n.rx.incomingData.puts <+: toPeer ("b", 2) n.tx.handed ∧
      ∀ q, (n.tx.status ("b", 2) q).event = true →
        (n.tx.status ("b", 2) q).error = none →
          ∃ payload, (toPeer ("b", 2) n.tx.handed)[q]? = some payload ∧
            (toPeer ("a", 1) n.rx.incomingData.puts)[q]? = some payload :=
  goBackN_delivers_prefix {} {} ("a", 1) ("b", 2)
    (Link.exampleRun ("b", 2) [7]) (Link.ackReturns_exampleRun _ _)
    (by decide +kernel)

end GoBackNTransport

end UdpArq
