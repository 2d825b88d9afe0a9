import UdpArq.GoBackN.Metered
import UdpArq.SelectiveRepeat.Metered

/-!
# Karn's rule

Whatever arrives, and whether or not sends raise and peers are given up, the
two windowed transports sample a round-trip time only for a packet that they
have handed to the channel exactly once.
-/

namespace UdpArq

open UdpArq.Core

/-- In every run, each call of `sample` is for a packet that has been handed to
the channel exactly once, is measured from the send time of that transmission,
is positive, and is the only one for its number. -/
theorem karn_rule (cfg : Config) :
    (GoBackNTransport.metered cfg).KarnRule ∧
      (SelectiveRepeatTransport.metered cfg).KarnRule :=
  ⟨(GoBackNTransport.metered cfg).karnRule,
    (SelectiveRepeatTransport.metered cfg).karnRule⟩

/-- One datagram is sent at time 1 and acknowledged at time 3. -/
def sampledRun : List Event :=
  [.sendto [7] ("b", 2), .drain, .pump ("b", 2) ⟨1, 1, none⟩]

def sampledAck : Event :=
  .incoming [88, 163, 0, 0, 0, 0, 0, 0, 0, 1, 2, 1, 0, 0, 165, 90] ("b", 2)
    ⟨3, 3, none⟩

theorem karn_rule_sampledRun :
    (let M := GoBackNTransport.metered { adaptive := true }
    let p := run M.recordStep (M.init, {}) sampledRun
    M.sampled p.1 sampledAck = some (("b", 2), 0, 2) ∧
      (("b", 2), 0) ∉ p.2.samples) ∧
    (let M := SelectiveRepeatTransport.metered { adaptive := true }
    let p := run M.recordStep (M.init, {}) sampledRun
    M.sampled p.1 sampledAck = some (("b", 2), 0, 2) ∧
      (("b", 2), 0) ∉ p.2.samples) := by
  have hgbn : (GoBackNTransport.metered { adaptive := true }).sampled
      (run (GoBackNTransport.metered { adaptive := true }).recordStep
        (GoBackNTransport.init, {}) sampledRun).1 sampledAck =
        some (("b", 2), 0, 2) := by decide +kernel
  have hsr : (SelectiveRepeatTransport.metered { adaptive := true }).sampled
      (run (SelectiveRepeatTransport.metered { adaptive := true }).recordStep
        (SelectiveRepeatTransport.init, {}) sampledRun).1 sampledAck =
        some (("b", 2), 0, 2) := by decide +kernel
  obtain ⟨-, -, hgbn'⟩ := (karn_rule _).1 _ _ _ _ _ hgbn
  obtain ⟨-, -, hsr'⟩ := (karn_rule _).2 _ _ _ _ _ hsr
  exact ⟨⟨hgbn, hgbn'⟩, hsr, hsr'⟩

end UdpArq
