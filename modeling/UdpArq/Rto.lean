import Mathlib.Data.Rat.Defs
import Mathlib.Algebra.Order.Ring.Rat
import Mathlib.Algebra.Order.Group.Unbundled.Abs

/-!
# Retransmission timeouts

The estimator of `rto.py` in exact rational arithmetic.  The bounds that the
constructor checks are fields of the structure, so that every estimator
reachable through `sample` and `onTimeout` satisfies them.
-/

namespace UdpArq

/-- `RTOEstimator`.  `srtt` and `rttvar` are set together by the first sample,
so they are one optional pair here. -/
structure RTOEstimator where
  minRto : ℚ
  maxRto : ℚ
  g : ℚ
  estimate : Option (ℚ × ℚ)
  rto : ℚ
  minPos : 0 < minRto
  minLe : minRto ≤ rto
  leMax : rto ≤ maxRto

namespace RTOEstimator

def ALPHA : ℚ := 1 / 8
def BETA : ℚ := 1 / 4
def K : ℚ := 4

/-- The constructor; `none` is the `ValueError` on bad bounds. -/
def new (initialRto minRto maxRto g : ℚ) : Option RTOEstimator :=
  if h : 0 < minRto ∧ minRto ≤ initialRto ∧ initialRto ≤ maxRto then
    some ⟨minRto, maxRto, g, none, initialRto, h.1, h.2.1, h.2.2⟩
  else none

/-- `sample` for a positive round-trip time. -/
def sample (r : RTOEstimator) (rtt : ℚ) : RTOEstimator :=
  let estimate : ℚ × ℚ :=
    match r.estimate with
    | none => (rtt, rtt / 2)
    | some (srtt, rttvar) =>
        ((1 - ALPHA) * srtt + ALPHA * rtt,
          (1 - BETA) * rttvar + BETA * |srtt - rtt|)
  { r with
    estimate := some estimate
    rto := max r.minRto (min r.maxRto (estimate.1 + max r.g (K * estimate.2)))
    minLe := le_max_left _ _
    leMax := max_le (r.minLe.trans r.leMax) (min_le_left _ _) }

/-- `on_timeout`. -/
def onTimeout (r : RTOEstimator) : RTOEstimator :=
  { r with
    rto := min r.maxRto (r.rto * 2)
    minLe := by
      have hpos : 0 ≤ r.rto := r.minPos.le.trans r.minLe
      have hdouble : r.rto ≤ r.rto * 2 := le_mul_of_one_le_right hpos (by decide)
      exact le_min (r.minLe.trans r.leMax) (r.minLe.trans hdouble)
    leMax := min_le_left _ _ }

end RTOEstimator

end UdpArq
