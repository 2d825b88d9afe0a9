import UdpArq.GoBackN.FixedTimeout
import UdpArq.SelectiveRepeat.FixedTimeout
import UdpArq.StopAndWait.FixedTimeout

/-!
# The fixed timeout path and the estimators

Every transport creates an estimator for each peer it sends to, with or without
`adaptive`.  Without it the estimator is never read, so that a transport behaves
as if there were none, provided that the estimator can be created.  It cannot
for a timeout above `max_rto`.
-/

namespace UdpArq

open UdpArq.Core

section

variable {σ τ ε : Type} {step : σ → ε → σ} {step' : τ → ε → τ} {f : σ → τ}
  {creates : σ → ε → Prop} {cfg : Config}

/-- A transport agrees with the one without estimators exactly if it creates
none, or can create them. -/
theorem simulates_iff_timeout_le (hpos : 0 < cfg.timeout)
    (hstep : ∀ s e, f (step s e) = step' (f s) e ↔
      ¬ (creates s e ∧ newEstimator cfg = none)) (s : σ) (es : List ε) :
    Simulates step step' f s es ∧
        Meets step (fun s e => creates s e → newEstimator cfg ≠ none) s es ↔
      cfg.timeout ≤ 5 ∨ Meets step (fun s e => ¬ creates s e) s es := by
  rw [simulates_iff_meets hstep]
  by_cases hle : cfg.timeout ≤ 5
  · have hnew : newEstimator cfg ≠ none := fun hnone =>
      (newEstimator_eq_none_iff hpos).mp hnone hle
    refine iff_of_true ⟨?_, ?_⟩ (Or.inl hle)
    · exact meets_of_holds (fun _ _ h => hnew h.2) s es
    · exact meets_of_holds (fun _ _ _ => hnew) s es
  · have hnone : newEstimator cfg = none :=
      (newEstimator_eq_none_iff hpos).mpr hle
    constructor
    · rintro ⟨hagree, -⟩
      exact Or.inr (hagree.mono fun s e h hcreates => h ⟨hcreates, hnone⟩)
    · intro h
      have hnever := h.resolve_left hle
      exact ⟨hnever.mono fun s e h hboth => h hboth.1,
        hnever.mono fun s e h hcreates => absurd hcreates h⟩

end

/-- With a fixed timeout every transport behaves as without estimators, and
creating an estimator never raises, exactly in the runs in which the timeout is
at most `max_rto` or no estimator is created. -/
theorem fixedTimeout_agrees_iff (cfg : Config) (hfixed : cfg.adaptive = false)
    (hpos : 0 < cfg.timeout) :
    (∀ es,
      Simulates (GoBackNTransport.step cfg)
            (GoBackNTransport.FixedTimeout.step cfg)
            GoBackNTransport.withoutRto GoBackNTransport.init es ∧
          Meets (GoBackNTransport.step cfg)
            (fun s e => s.CreatesEstimator e → newEstimator cfg ≠ none)
            GoBackNTransport.init es ↔
        cfg.timeout ≤ 5 ∨ Meets (GoBackNTransport.step cfg)
          (fun s e => ¬ s.CreatesEstimator e) GoBackNTransport.init es) ∧
    (∀ es,
      Simulates (SelectiveRepeatTransport.step cfg)
            (SelectiveRepeatTransport.FixedTimeout.step cfg)
            SelectiveRepeatTransport.withoutRto SelectiveRepeatTransport.init es ∧
          Meets (SelectiveRepeatTransport.step cfg)
            (fun s e => s.CreatesEstimator e → newEstimator cfg ≠ none)
            SelectiveRepeatTransport.init es ↔
        cfg.timeout ≤ 5 ∨ Meets (SelectiveRepeatTransport.step cfg)
          (fun s e => ¬ s.CreatesEstimator e) SelectiveRepeatTransport.init
          es) ∧
    (∀ es,
      Simulates (StopAndWaitTransport.Session.step cfg)
            (StopAndWaitTransport.FixedTimeout.step cfg)
            StopAndWaitTransport.Session.withoutRto {} es ∧
          Meets (StopAndWaitTransport.Session.step cfg)
            (fun n e => StopAndWaitTransport.CreatesEstimator cfg n e →
              newEstimator cfg ≠ none) {} es ↔
        cfg.timeout ≤ 5 ∨ Meets (StopAndWaitTransport.Session.step cfg)
          (fun n e => ¬ StopAndWaitTransport.CreatesEstimator cfg n e) {}
          es) := by
  refine ⟨fun es => ?_, fun es => ?_, fun es => ?_⟩
  · exact simulates_iff_timeout_le hpos
      (GoBackNTransport.step_withoutRto_iff hfixed) GoBackNTransport.init es
  · exact simulates_iff_timeout_le hpos
      (SelectiveRepeatTransport.step_withoutRto_iff hfixed)
      SelectiveRepeatTransport.init es
  · exact simulates_iff_timeout_le hpos
      (StopAndWaitTransport.step_withoutRto_iff hfixed) {} es

/-- With the default timeout nothing depends on the estimators. -/
theorem fixedTimeout_agrees_default :
    (∀ es, Simulates (GoBackNTransport.step {})
      (GoBackNTransport.FixedTimeout.step {}) GoBackNTransport.withoutRto
      GoBackNTransport.init es) ∧
    (∀ es, Simulates (SelectiveRepeatTransport.step {})
      (SelectiveRepeatTransport.FixedTimeout.step {})
      SelectiveRepeatTransport.withoutRto SelectiveRepeatTransport.init es) ∧
    (∀ es, Simulates (StopAndWaitTransport.Session.step {})
      (StopAndWaitTransport.FixedTimeout.step {})
      StopAndWaitTransport.Session.withoutRto {} es) := by
  have hle : ({} : Config).timeout ≤ 5 := by norm_num
  obtain ⟨hgbn, hsr, hsw⟩ := fixedTimeout_agrees_iff {} rfl (by norm_num)
  exact ⟨fun es => ((hgbn es).mpr (Or.inl hle)).1,
    fun es => ((hsr es).mpr (Or.inl hle)).1,
    fun es => ((hsw es).mpr (Or.inl hle)).1⟩

/-- A timeout of six seconds.  The thread of a windowed transport dies of the
first item it takes, and a `sendto` of Stop-and-Wait raises at once. -/
theorem longTimeout_disagrees :
    (¬ Simulates (GoBackNTransport.step { timeout := 6 })
      (GoBackNTransport.FixedTimeout.step { timeout := 6 })
      GoBackNTransport.withoutRto GoBackNTransport.init
      [.sendto [7] ("b", 2), .drain]) ∧
    (¬ Simulates (SelectiveRepeatTransport.step { timeout := 6 })
      (SelectiveRepeatTransport.FixedTimeout.step { timeout := 6 })
      SelectiveRepeatTransport.withoutRto SelectiveRepeatTransport.init
      [.sendto [7] ("b", 2), .drain]) ∧
    (¬ Simulates (StopAndWaitTransport.Session.step { timeout := 6 })
      (StopAndWaitTransport.FixedTimeout.step { timeout := 6 })
      StopAndWaitTransport.Session.withoutRto {} [.sendto [7] ("b", 2)]) := by
  refine ⟨fun h => ?_, fun h => ?_, fun h => ?_⟩
  · have hcrashed := congrArg (fun s => s.crashed)
      (h [.sendto [7] ("b", 2), .drain] List.prefix_rfl)
    exact absurd hcrashed (by decide +kernel)
  · have hcrashed := congrArg (fun s => s.crashed)
      (h [.sendto [7] ("b", 2), .drain] List.prefix_rfl)
    exact absurd hcrashed (by decide +kernel)
  · have hended := congrArg (fun n => n.ended)
      (h [.sendto [7] ("b", 2)] List.prefix_rfl)
    exact absurd hended (by decide +kernel)

end UdpArq
