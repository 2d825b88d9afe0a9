import UdpArq.GoBackN.Peers
import UdpArq.SelectiveRepeat.Peers

/-!
# Peers do not interfere

A transport with many peers is many transports with one peer each, as long as
its thread is running: nothing that one peer causes is seen by another.
-/

namespace UdpArq

/-- In every reachable state of either windowed transport the peers do not
interfere. -/
theorem peers_isolated (cfg : Config) (es : List Event) :
    GoBackNTransport.Isolated cfg
        (run (GoBackNTransport.step cfg) GoBackNTransport.init es) ∧
      SelectiveRepeatTransport.Isolated cfg
        (run (SelectiveRepeatTransport.step cfg) SelectiveRepeatTransport.init
          es) := by
  constructor
  · apply GoBackNTransport.WellFormed.isolated
    exact Endpoint.wellFormed_run (E := GoBackNTransport.endpoint cfg) es
  · apply SelectiveRepeatTransport.WellFormed.isolated
    · exact Endpoint.wellFormed_run
        (E := SelectiveRepeatTransport.endpoint cfg) es
    · exact (SelectiveRepeatTransport.timed_run cfg es).faithful.ascending

end UdpArq
