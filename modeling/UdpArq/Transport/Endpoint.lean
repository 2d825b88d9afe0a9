import UdpArq.Lib.Run
import UdpArq.Transport.Handlers

/-!
# Endpoints

A transport together with the proof that it follows the sliding-window protocol
on the lane of every peer.  What is proved about endpoints holds of both
transports.
-/

namespace UdpArq

open UdpArq.Core

/-! ## Endpoints -/

/-- A transport that follows the sliding-window protocol on every lane, and
whose window pump takes out every packet that it may send. -/
structure Endpoint (cfg : Config) where
  State : Type
  init : State
  step : State → Event → State
  core : State → Core
  buffer : State → Address → Dict ℕ Bytes
  discipline : Discipline
  PeerFails : State → Address → SweepInput → Prop
  lane_init : ∀ addr, (core init).lane (buffer init addr) addr = { peer := addr }
  refines : ∀ s e b,
    (∀ addr, ((core s).lane (buffer s addr) addr).WellFormed) →
      Lane.Step cfg discipline (PeerFails s b) ((core s).lane (buffer s b) b) e
        ((core (step s e)).lane (buffer (step s e) b) b)
  pump_pending : ∀ s addr input seq item, (core s).crashed = none →
    (core s).nextToSend cfg addr = some (seq, item) →
      sub (core (step s (.pump addr input))).pending addr =
        (sub (core s).pending addr).erase seq

namespace Endpoint

variable {cfg : Config} (E : Endpoint cfg)

def lane (s : E.State) (addr : Address) : Lane :=
  (E.core s).lane (E.buffer s addr) addr

def WellFormed (s : E.State) : Prop := ∀ addr, (E.lane s addr).WellFormed

variable {E}

theorem WellFormed.init : E.WellFormed E.init := by
  intro addr
  rw [lane, E.lane_init]
  exact Lane.wellFormed_fresh addr

theorem WellFormed.lane_step {s : E.State} (h : E.WellFormed s) (e : Event)
    (b : Address) :
    Lane.Step cfg E.discipline (E.PeerFails s b) (E.lane s b) e
      (E.lane (E.step s e) b) :=
  E.refines s e b h

theorem WellFormed.step {s : E.State} (h : E.WellFormed s) (e : Event) :
    E.WellFormed (E.step s e) := by
  intro b
  exact (h b).step (h.lane_step e b)

theorem WellFormed.run {s : E.State} (h : E.WellFormed s) (es : List Event) :
    E.WellFormed (UdpArq.run E.step s es) :=
  run_invariant E.WellFormed (fun _ e h => h.step e) h es

/-- Every lane of every reachable state is well formed. -/
theorem wellFormed_run (es : List Event) :
    E.WellFormed (UdpArq.run E.step E.init es) :=
  WellFormed.init.run es

/-! ## Handlers -/

/-- The handlers of an endpoint. -/
structure Handled (E : Endpoint cfg) extends Handlers E.core where
  shared : toHandlers.Shared cfg E.buffer
  step_eq : ∀ s e, E.step s e = toHandlers.step cfg s e

namespace Handled

variable (H : E.Handled) (s : E.State)

include H

theorem core_sendto (data : Bytes) (addr : Address) :
    E.core (E.step s (.sendto data addr)) =
      ((E.core s).sendto cfg data addr).toOption.getD (E.core s) := by
  rw [H.step_eq, H.step_sendto, H.core_withCore]

theorem core_recvfrom :
    E.core (E.step s .recvfrom) =
      ((E.core s).recvfrom.toOption.map Prod.snd).getD (E.core s) := by
  rw [H.step_eq, H.step_recvfrom, H.core_withCore]

theorem core_close : E.core (E.step s .close) = (E.core s).close := by
  rw [H.step_eq]
  exact H.core_withCore s _

variable {s}

/-- A dead thread does nothing. -/
theorem step_of_dead {e : Event} (hcall : e.isCall = false)
    (hdead : (E.core s).crashed.isSome) : E.step s e = s := by
  rw [H.step_eq, H.toHandlers.step_of_dead cfg hcall hdead]

theorem drained (hrun : ¬ (E.core s).crashed.isSome) :
    Drained cfg (E.core s) (E.core (E.step s .drain)) := by
  rw [H.step_eq, Handlers.step, if_neg hrun]
  exact H.shared.drained s

theorem pumped (hrun : ¬ (E.core s).crashed.isSome) (addr : Address)
    (input : PumpInput) :
    Pumped cfg addr input (E.core s) (E.core (E.step s (.pump addr input))) := by
  rw [H.step_eq, Handlers.step, if_neg hrun]
  exact H.shared.pumped s addr input hrun

/-- Sending an encodable datagram does not kill the thread. -/
theorem pump_crashed (h : E.WellFormed s) (hrun : ¬ (E.core s).crashed.isSome)
    {addr : Address} {seq : ℕ} {item : Item} {packet : Bytes}
    (hnext : (E.core s).nextToSend cfg addr = some (seq, item))
    (hpacket : dataPacket seq item.data = .ok packet) (input : PumpInput) :
    ¬ (E.core (E.step s (.pump addr input))).crashed.isSome := by
  have hrto := estimator_of_nextToSend cfg (h addr) hrun (by simp [hnext])
  rw [(H.pumped hrun addr input).launched hrto hnext hpacket]
  rcases input.sendResult with _ | what <;> exact hrun

/-- The pump on a datagram that cannot be encoded: it has left `_pending`, and
the thread dies. -/
theorem core_pump_error (hrun : ¬ (E.core s).crashed.isSome) {addr : Address}
    {seq : ℕ} {item : Item} {e : PacketError}
    (hnext : (E.core s).nextToSend cfg addr = some (seq, item))
    (hpacket : dataPacket seq item.data = .error e) (input : PumpInput) :
    E.core (E.step s (.pump addr input)) =
      ((E.core s).popPending addr seq).crash (.packet e) :=
  (H.pumped hrun addr input).eq_crash hnext hpacket

end Handled

end Endpoint

end UdpArq
