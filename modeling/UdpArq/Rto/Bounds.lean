import UdpArq.Lib.Run
import UdpArq.Rto
import Mathlib.Analysis.Convex.Basic
import Mathlib.Tactic.Linarith

/-!
# What the estimator stays within

Runs of an estimator are sequences of calls of `sample` and `on_timeout`, in any
order.  A backoff only changes `rto`, and the next sample computes `rto` anew, so
the estimate is a function of the samples alone.  Both of its updates are
weighted means, which keeps it within the range of the samples.
-/

namespace UdpArq

namespace RTOEstimator

/-! ## Calls -/

/-- A call of a method. -/
inductive Call
  | sample (rtt : ℚ)
  | onTimeout

/-- The value that a call returns: both methods return the new `rto`.  `none` is
the `ValueError` of `sample`. -/
def answer (r : RTOEstimator) : Call → Option ℚ
  | .sample rtt => if rtt ≤ 0 then none else some (r.sample rtt).rto
  | .onTimeout => some r.onTimeout.rto

/-- What a call makes of the estimator; the check of `sample` comes before all
assignments. -/
def step (r : RTOEstimator) : Call → RTOEstimator
  | .sample rtt => if rtt ≤ 0 then r else r.sample rtt
  | .onTimeout => r.onTimeout

/-- The sample that a call takes. -/
def Call.taken : Call → Option ℚ
  | .sample rtt => if rtt ≤ 0 then none else some rtt
  | .onTimeout => none

/-- The samples that a sequence of calls takes. -/
def samples (calls : List Call) : List ℚ := calls.filterMap Call.taken

/-! ## Backoffs leave the estimate alone -/

/-- The estimators differ at most in `rto`. -/
structure Alike (r r' : RTOEstimator) : Prop where
  minRto : r.minRto = r'.minRto
  maxRto : r.maxRto = r'.maxRto
  g : r.g = r'.g
  estimate : r.estimate = r'.estimate

/-- A sample does not read `rto`. -/
theorem Alike.sample {r r' : RTOEstimator} (h : Alike r r') (rtt : ℚ) :
    r.sample rtt = r'.sample rtt := by
  obtain ⟨minRto, maxRto, g, estimate, rto, hpos, hmin, hmax⟩ := r
  obtain ⟨minRto', maxRto', g', estimate', rto', hpos', hmin', hmax'⟩ := r'
  obtain ⟨rfl, rfl, rfl, rfl⟩ := h
  rfl

/-- Apart from `rto`, only the samples count. -/
theorem alike_run (r : RTOEstimator) (calls : List Call) :
    Alike (run step r calls) ((samples calls).foldl RTOEstimator.sample r) := by
  induction calls using List.reverseRecOn with
  | nil => exact ⟨rfl, rfl, rfl, rfl⟩
  | append_singleton calls call ih =>
      rw [run_concat, samples, List.filterMap_append, List.foldl_append]
      cases call with
      | sample rtt =>
          by_cases hrtt : rtt ≤ 0
          · have hnone : (Call.sample rtt).taken = none := if_pos hrtt
            rw [List.filterMap_cons_none hnone, step, if_pos hrtt]
            exact ih
          · have hsome : (Call.sample rtt).taken = some rtt := if_neg hrtt
            rw [List.filterMap_cons_some hsome, step, if_neg hrtt, ih.sample rtt]
            exact ⟨rfl, rfl, rfl, rfl⟩
      | onTimeout => exact ⟨ih.minRto, ih.maxRto, ih.g, ih.estimate⟩

/-! ## The estimate -/

/-- A weighted mean lies between the bounds of its terms. -/
theorem mean_mem_Icc {w a b lo hi : ℚ} (hw : 0 ≤ w) (hw' : w ≤ 1)
    (ha : a ∈ Set.Icc lo hi) (hb : b ∈ Set.Icc lo hi) :
    (1 - w) * a + w * b ∈ Set.Icc lo hi := by
  have hconvex : Convex ℚ (Set.Icc lo hi) := convex_Icc lo hi
  exact hconvex ha hb (sub_nonneg.mpr hw') hw (sub_add_cancel 1 w)

/-- The estimate fits samples between `lo` and `hi`, of which the first is
`first`. -/
structure Fits (first lo hi : ℚ) (r : RTOEstimator) (srtt rttvar : ℚ) :
    Prop where
  estimate : r.estimate = some (srtt, rttvar)
  srtt : srtt ∈ Set.Icc lo hi
  rttvar : rttvar ∈ Set.Icc 0 (max (first / 2) (hi - lo))

theorem Fits.sample {first lo hi srtt rttvar : ℚ} {r : RTOEstimator}
    (h : Fits first lo hi r srtt rttvar) (rtt : ℚ) :
    ∃ srtt' rttvar',
      Fits first (min lo rtt) (max hi rtt) (r.sample rtt) srtt' rttvar' := by
  have hold : srtt ∈ Set.Icc (min lo rtt) (max hi rtt) :=
    ⟨(min_le_left _ _).trans h.srtt.1, h.srtt.2.trans (le_max_left _ _)⟩
  have hnew : rtt ∈ Set.Icc (min lo rtt) (max hi rtt) :=
    ⟨min_le_right _ _, le_max_right _ _⟩
  have hwidth : hi - lo ≤ max hi rtt - min lo rtt :=
    sub_le_sub (le_max_left _ _) (min_le_left _ _)
  have hvar : rttvar ∈
      Set.Icc 0 (max (first / 2) (max hi rtt - min lo rtt)) :=
    ⟨h.rttvar.1, h.rttvar.2.trans (max_le_max le_rfl hwidth)⟩
  -- The deviation is taken from the old mean, which the new range contains.
  have hdeviation : |srtt - rtt| ∈
      Set.Icc 0 (max (first / 2) (max hi rtt - min lo rtt)) :=
    ⟨abs_nonneg _, (abs_sub_le_of_le_of_le hold.1 hold.2 hnew.1 hnew.2).trans
      (le_max_right _ _)⟩
  refine ⟨(1 - ALPHA) * srtt + ALPHA * rtt,
    (1 - BETA) * rttvar + BETA * |srtt - rtt|, ?_, ?_, ?_⟩
  · simp [RTOEstimator.sample, h.estimate]
  · exact mean_mem_Icc (by decide +kernel) (by decide +kernel) hold hnew
  · exact mean_mem_Icc (by decide +kernel) (by decide +kernel) hvar hdeviation

theorem fits_foldl {r : RTOEstimator} (hnew : r.estimate = none) {first : ℚ}
    (hfirst : 0 < first) (rest : List ℚ) :
    ∃ srtt rttvar, Fits first (rest.foldl min first) (rest.foldl max first)
      ((first :: rest).foldl RTOEstimator.sample r) srtt rttvar := by
  induction rest using List.reverseRecOn with
  | nil =>
      refine ⟨first, first / 2, ?_, ⟨le_rfl, le_rfl⟩, ?_, le_max_left _ _⟩
      · simp [RTOEstimator.sample, hnew]
      · linarith
  | append_singleton rest rtt ih =>
      obtain ⟨srtt, rttvar, hfits⟩ := ih
      rw [List.foldl_append, List.foldl_append, ← List.cons_append,
        List.foldl_append]
      exact hfits.sample rtt

/-! ## Backoffs -/

theorem timeouts_rto (r : RTOEstimator) (k : ℕ) :
    (run step r (List.replicate k .onTimeout)).rto =
        min r.maxRto (2 ^ k * r.rto) ∧
      (run step r (List.replicate k .onTimeout)).maxRto = r.maxRto := by
  induction k with
  | zero =>
      refine ⟨?_, rfl⟩
      rw [pow_zero, one_mul, min_eq_right r.leMax]
      rfl
  | succ k ih =>
      obtain ⟨hrto, hmax⟩ := ih
      rw [List.replicate_succ', run_concat]
      refine ⟨?_, hmax⟩
      change min _ (_ * 2) = _
      have hpos : 0 ≤ r.maxRto := r.minPos.le.trans (r.minLe.trans r.leMax)
      rw [hrto, hmax, pow_succ, mul_right_comm]
      rcases le_total r.maxRto (2 ^ k * r.rto) with hle | hle
      · rw [min_eq_left hle, min_eq_left (by linarith), min_eq_left (by linarith)]
      · rw [min_eq_right hle]

/-! ## Runs of a new estimator -/

theorem new_eq_some {initialRto minRto maxRto g : ℚ} {r : RTOEstimator}
    (h : new initialRto minRto maxRto g = some r) :
    r.minRto = minRto ∧ r.maxRto = maxRto ∧ r.estimate = none := by
  unfold new at h
  split_ifs at h
  cases h
  exact ⟨rfl, rfl, rfl⟩

theorem foldl_sample_range (r : RTOEstimator) (rtts : List ℚ) :
    (rtts.foldl RTOEstimator.sample r).minRto = r.minRto ∧
      (rtts.foldl RTOEstimator.sample r).maxRto = r.maxRto := by
  induction rtts generalizing r with
  | nil => exact ⟨rfl, rfl⟩
  | cons rtt rtts ih => exact ih (r.sample rtt)

theorem pos_of_mem_samples {calls : List Call} {rtt : ℚ}
    (h : rtt ∈ samples calls) : 0 < rtt := by
  obtain ⟨call, -, htaken⟩ := List.mem_filterMap.mp h
  cases call with
  | sample x =>
      simp only [Call.taken] at htaken
      split_ifs at htaken with hx
      cases htaken
      exact not_le.mp hx
  | onTimeout => cases htaken

end RTOEstimator

open RTOEstimator in
/-- In every run of an estimator `rto` stays within its bounds; the estimate
stays within the range of the samples; `k` backoffs in a row multiply `rto` by
`2 ^ k`, up to the upper bound; and what `sample` returns depends on the samples
before it, and on no backoff. -/
theorem rto_bounded (initialRto minRto maxRto g : ℚ) (r₀ : RTOEstimator)
    (hnew : new initialRto minRto maxRto g = some r₀)
    (calls : List RTOEstimator.Call) :
    let r := run RTOEstimator.step r₀ calls
    (minRto ≤ r.rto ∧ r.rto ≤ maxRto) ∧
    (∀ first rest, samples calls = first :: rest →
      let smallest := rest.foldl min first
      let largest := rest.foldl max first
      ∃ srtt rttvar, r.estimate = some (srtt, rttvar) ∧
        (smallest ≤ srtt ∧ srtt ≤ largest) ∧
        0 ≤ rttvar ∧ rttvar ≤ max (first / 2) (largest - smallest)) ∧
    (∀ k, (run RTOEstimator.step r (List.replicate k .onTimeout)).rto =
      min maxRto (2 ^ k * r.rto)) ∧
    ∀ calls' rtt, samples calls' = samples calls →
      (run RTOEstimator.step r₀ calls').answer (.sample rtt) =
        r.answer (.sample rtt) := by
  intro r
  obtain ⟨hmin, hmax, hnone⟩ := new_eq_some hnew
  have halike := alike_run r₀ calls
  obtain ⟨hminRun, hmaxRun⟩ := foldl_sample_range r₀ (samples calls)
  have hminRto : r.minRto = minRto := halike.minRto.trans (hminRun.trans hmin)
  have hmaxRto : r.maxRto = maxRto := halike.maxRto.trans (hmaxRun.trans hmax)
  refine ⟨⟨hminRto ▸ r.minLe, hmaxRto ▸ r.leMax⟩, ?_, ?_, ?_⟩
  · intro first rest hsamples smallest largest
    have hmem : first ∈ samples calls := by
      rw [hsamples]
      exact List.mem_cons_self
    have hfirst : 0 < first := pos_of_mem_samples hmem
    obtain ⟨srtt, rttvar, hfits⟩ := fits_foldl hnone hfirst rest
    refine ⟨srtt, rttvar, ?_, hfits.srtt, hfits.rttvar⟩
    rw [← hfits.estimate, ← hsamples]
    exact halike.estimate
  · intro k
    rw [← hmaxRto]
    exact (timeouts_rto r k).1
  · intro calls' rtt hsamples
    have halike' := alike_run r₀ calls'
    rw [hsamples] at halike'
    simp only [answer]
    rw [halike'.sample rtt, ← halike.sample rtt]

open RTOEstimator in
/-- Two samples with a backoff between them, a rejected one, and two backoffs
after them. -/
theorem rto_bounded_backoff :
    let r₀ : RTOEstimator :=
      ⟨1 / 10, 5, 1 / 20, none, 2 / 5, by decide +kernel, by decide +kernel,
        by decide +kernel⟩
    let r := run RTOEstimator.step r₀
      [.sample (1 / 5), .onTimeout, .sample (2 / 5), .sample 0]
    (∃ srtt rttvar, r.estimate = some (srtt, rttvar) ∧
      (min (1 / 5) (2 / 5) ≤ srtt ∧ srtt ≤ max (1 / 5) (2 / 5)) ∧
      0 ≤ rttvar ∧ rttvar ≤ max (1 / 5 / 2)
        (max (1 / 5) (2 / 5) - min (1 / 5) (2 / 5))) ∧
    (run RTOEstimator.step r (List.replicate 2 .onTimeout)).rto =
      min 5 (2 ^ 2 * r.rto) := by
  intro r₀ r
  have hnew : new (2 / 5) (1 / 10) 5 (1 / 20) = some r₀ := by
    unfold new
    rw [dif_pos ⟨by decide +kernel, by decide +kernel, by decide +kernel⟩]
  have hbounded := rto_bounded (2 / 5) (1 / 10) 5 (1 / 20) r₀ hnew
    [.sample (1 / 5), .onTimeout, .sample (2 / 5), .sample 0]
  refine ⟨hbounded.2.1 (1 / 5) [2 / 5] ?_, hbounded.2.2.1 2⟩
  decide +kernel

end UdpArq
