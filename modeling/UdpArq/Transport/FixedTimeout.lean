import UdpArq.Transport.Handlers
import Mathlib.Tactic.NormNum
import Mathlib.Tactic.Linarith

/-!
# States without timeout estimators

Without `adaptive` no transport reads the estimators that it stores, so that
two states which differ in nothing else behave alike.  What remains is the
construction: `RTOEstimator` refuses a timeout above its default `max_rto`.
-/

namespace UdpArq

namespace Core

/-- The state with the estimators removed. -/
def withoutRto (c : Core) : Core := { c with rto := ∅ }

/-- A positive timeout suits the estimator up to `max_rto`. -/
theorem newEstimator_eq_none_iff {cfg : Config} (hpos : 0 < cfg.timeout) :
    newEstimator cfg = none ↔ ¬ cfg.timeout ≤ 5 := by
  have hmin : (0 : ℚ) < min (1 / 10) cfg.timeout :=
    lt_min (by norm_num) hpos
  unfold newEstimator RTOEstimator.new
  simp only [dite_eq_right_iff, reduceCtorEq, imp_false]
  rw [not_iff_not]
  exact ⟨fun h => h.2.2, fun h => ⟨hmin, min_le_right _ _, h⟩⟩

theorem rtoValue_eq_timeout {cfg : Config} (hfixed : cfg.adaptive = false)
    (c : Core) (addr : Address) : c.rtoValue cfg addr = some cfg.timeout := by
  simp [rtoValue, hfixed]

theorem sendto_withoutRto (cfg : Config) (c : Core) (data : Bytes)
    (addr : Address) :
    c.withoutRto.sendto cfg data addr =
      (c.sendto cfg data addr).map withoutRto := by
  unfold sendto
  have hstopped : c.withoutRto.stopEvent = c.stopEvent := rfl
  rw [hstopped]
  split_ifs <;> rfl

theorem recvfrom_withoutRto (c : Core) :
    c.withoutRto.recvfrom =
      c.recvfrom.map fun x => (x.1, x.2.withoutRto) := by
  unfold recvfrom
  have hqueue : c.withoutRto.incomingData = c.incomingData := rfl
  rw [hqueue]
  rcases c.incomingData.get? with _ | ⟨x, q⟩ <;> rfl

theorem close_withoutRto (c : Core) : c.withoutRto.close = c.close.withoutRto := by
  unfold close
  have hstopped : c.withoutRto.stopEvent = c.stopEvent := rfl
  rw [hstopped]
  split <;> rfl

theorem acknowledge_withoutRto (c : Core) (addr : Address) (ackFor : ℕ)
    (payloads : List Bytes) (sendResult : Option String) :
    c.withoutRto.acknowledge addr ackFor payloads sendResult =
      (c.acknowledge addr ackFor payloads sendResult).withoutRto := by
  unfold acknowledge
  rcases ackPacket ackFor with e | packet
  · rfl
  · rcases sendResult with _ | what <;> rfl

end Core

/-- A windowed transport beside the same transport without estimators.  Apart
from `_drain_outbound` the methods do the same, and there too if there is nothing
to drain or an estimator can be created. -/
structure Twins (cfg : Config) {σ : Type} {core : σ → Core}
    (H F : Handlers core) (strip : σ → σ) : Prop where
  core_strip : ∀ s, core (strip s) = (core s).withoutRto
  withCore : ∀ s c, strip (H.withCore s c) = F.withCore (strip s) c.withoutRto
  armTimer : ∀ s addr seq now,
    strip (H.armTimer s addr seq now) = F.armTimer (strip s) addr seq now
  stopTimer : ∀ s addr seq,
    strip (H.stopTimer s addr seq) = F.stopTimer (strip s) addr seq
  drain : ∀ s, (core s).outbound = [] ∨ Core.newEstimator cfg ≠ none →
    strip (H.drain s) = F.drain (strip s)
  pump_eq : ∀ s addr input, H.pump s addr input = H.pumpPacket cfg s addr input
  pump_fixed : ∀ s addr input, ¬ (core s).crashed.isSome →
    F.pump s addr input = F.pumpPacket cfg s addr input
  timeouts : ∀ s input, strip (H.timeouts s input) = F.timeouts (strip s) input
  incoming : ∀ s raw addr input, ¬ (core s).crashed.isSome →
    strip (H.incoming s raw addr input) = F.incoming (strip s) raw addr input
  raises : ∀ s, (core s).outbound ≠ [] → Core.newEstimator cfg = none →
    (core (H.drain s)).crashed.isSome
  drains : ∀ s, (core (F.drain s)).crashed = (core s).crashed

namespace Twins

variable {cfg : Config} {σ : Type} {core : σ → Core} {H F : Handlers core}
  {strip : σ → σ} (h : Twins cfg H F strip) (s : σ)
include h

theorem step_sendto (data : Bytes) (addr : Address) :
    strip (H.step cfg s (.sendto data addr)) =
      F.step cfg (strip s) (.sendto data addr) := by
  rw [H.step_sendto, F.step_sendto, h.withCore, h.core_strip,
    Core.sendto_withoutRto]
  rcases (core s).sendto cfg data addr with e | c <;> rfl

theorem step_recvfrom :
    strip (H.step cfg s .recvfrom) = F.step cfg (strip s) .recvfrom := by
  rw [H.step_recvfrom, F.step_recvfrom, h.withCore, h.core_strip,
    Core.recvfrom_withoutRto]
  rcases (core s).recvfrom with e | ⟨x, c⟩ <;> rfl

theorem step_close :
    strip (H.step cfg s .close) = F.step cfg (strip s) .close := by
  change strip (H.withCore s (core s).close) =
    F.withCore (strip s) (core (strip s)).close
  rw [h.withCore, h.core_strip, Core.close_withoutRto]

theorem sendPacket (addr : Address) (seq : ℕ) (packet : Bytes)
    (sendResult : Option String) :
    strip (H.sendPacket s addr seq packet sendResult) =
      F.sendPacket (strip s) addr seq packet sendResult := by
  rcases sendResult with _ | what
  · rw [Handlers.sendPacket, h.withCore, Handlers.sendPacket, h.core_strip]
    rfl
  · rw [H.sendPacket_unsent, F.sendPacket_unsent, apply_ite strip, h.stopTimer,
      h.withCore, h.core_strip]
    rfl

theorem pumpPacket (addr : Address) (input : PumpInput) :
    strip (H.pumpPacket cfg s addr input) =
      F.pumpPacket cfg (strip s) addr input := by
  have hnext' : (core (strip s)).nextToSend cfg addr =
      (core s).nextToSend cfg addr := by
    rw [h.core_strip]
    rfl
  rcases hnext : (core s).nextToSend cfg addr with _ | ⟨seq, item⟩
  · rw [H.pumpPacket_idle hnext, F.pumpPacket_idle (hnext'.trans hnext)]
  rcases hpacket : Core.dataPacket seq item.data with e | packet
  · rw [H.pumpPacket_unencodable hnext hpacket,
      F.pumpPacket_unencodable (hnext'.trans hnext) hpacket, h.withCore,
      h.core_strip]
    rfl
  · have harm : strip (H.armTimer (H.withCore s
        (((core s).popPending addr seq).launch addr seq item packet
          input.sentAt)) addr seq input.timerAt) =
        F.armTimer (F.withCore (strip s)
          (((core (strip s)).popPending addr seq).launch addr seq item packet
            input.sentAt)) addr seq input.timerAt := by
      rw [h.armTimer, h.withCore, h.core_strip]
      rfl
    rw [H.pumpPacket_launched hnext hpacket,
      F.pumpPacket_launched (hnext'.trans hnext) hpacket, ← harm,
      apply_ite strip, h.sendPacket, h.core_strip]
    rfl

/-- Only an estimator that cannot be created makes a difference. -/
theorem step_iff (e : Event) :
    strip (H.step cfg s e) = F.step cfg (strip s) e ↔
      ¬ ((e = .drain ∧ (core s).crashed = none ∧ (core s).outbound ≠ []) ∧
        Core.newEstimator cfg = none) := by
  have hcrashed : (core (strip s)).crashed = (core s).crashed := by
    rw [h.core_strip]
    rfl
  by_cases hdead : e.isCall = false ∧ (core s).crashed.isSome
  · rw [H.step_of_dead cfg hdead.1 hdead.2,
      F.step_of_dead cfg hdead.1 (hcrashed ▸ hdead.2)]
    refine iff_of_true rfl ?_
    rintro ⟨⟨-, hnone, -⟩, -⟩
    simp [hnone] at hdead
  have hrun : e.isCall = false → ¬ (core s).crashed.isSome :=
    fun hcall hd => hdead ⟨hcall, hd⟩
  by_cases hdrain : e = .drain
  · subst hdrain
    rw [Handlers.step, Handlers.step, hcrashed, if_neg (hrun rfl),
      if_neg (hrun rfl)]
    by_cases hcreates : (core s).outbound = [] ∨ Core.newEstimator cfg ≠ none
    · refine iff_of_true (h.drain s hcreates) ?_
      rintro ⟨⟨-, -, hqueue⟩, hnone⟩
      exact hcreates.elim hqueue fun hnew => hnew hnone
    · obtain ⟨hqueue, hnew⟩ := not_or.mp hcreates
      rw [not_not] at hnew
      refine iff_of_false (fun heq => ?_)
        (not_not.mpr ⟨⟨rfl, by simpa using hrun rfl, hqueue⟩, hnew⟩)
      -- The one thread dies and the other one does not.
      have hraised := h.raises s hqueue hnew
      have hsame : (core (strip (H.drain s))).crashed =
          (core (H.drain s)).crashed := by
        rw [h.core_strip]
        rfl
      rw [← hsame, heq, h.drains, hcrashed] at hraised
      exact hrun rfl hraised
  · refine iff_of_true ?_ fun hboth => hdrain hboth.1.1
    cases e with
    | sendto data addr => exact h.step_sendto s data addr
    | recvfrom => exact h.step_recvfrom s
    | close => exact h.step_close s
    | drain => exact absurd rfl hdrain
    | pump addr input =>
        rw [Handlers.step, Handlers.step, hcrashed, if_neg (hrun rfl),
          if_neg (hrun rfl), h.pump_eq, h.pumpPacket,
          h.pump_fixed _ _ _ (hcrashed ▸ hrun rfl)]
    | timeouts input =>
        rw [Handlers.step, Handlers.step, hcrashed, if_neg (hrun rfl),
          if_neg (hrun rfl), h.timeouts s input]
    | incoming raw addr input =>
        rw [Handlers.step, Handlers.step, hcrashed, if_neg (hrun rfl),
          if_neg (hrun rfl), h.incoming s raw addr input (hrun rfl)]

end Twins

end UdpArq
