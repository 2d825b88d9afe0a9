import UdpArq.Lib.Run
import Mathlib.Algebra.Order.Ring.Rat
import Mathlib.Order.Filter.AtTopBot.Basic
import Mathlib.Order.Filter.Finite
import Mathlib.Order.Interval.Finset.Nat
import Mathlib.Tactic.Common

/-!
# Infinite runs

What has to happen in a run that goes on for ever.  Every finite part of an
infinite run is a run, so that invariants carry over.  The rules below are about
things that happen again and again: what is bounded and never decreases comes to
rest, one of finitely many values recurs, and a timer that nothing but its own
firing moves fires again and again.
-/

namespace UdpArq

open Filter

universe u v

variable {σ : Type u} {ε : Type v} {step : σ → ε → σ} {s : σ} {es : ℕ → ε}

/-- The states of the run that takes in the events `es` one after the other. -/
def stateAt (step : σ → ε → σ) (s : σ) (es : ℕ → ε) : ℕ → σ
  | 0 => s
  | i + 1 => step (stateAt step s es i) (es i)

@[simp] theorem stateAt_zero (step : σ → ε → σ) (s : σ) (es : ℕ → ε) :
    stateAt step s es 0 = s := rfl

theorem stateAt_succ (step : σ → ε → σ) (s : σ) (es : ℕ → ε) (i : ℕ) :
    stateAt step s es (i + 1) = step (stateAt step s es i) (es i) := rfl

/-- The states of an infinite run are those of its finite parts. -/
theorem stateAt_eq_run (step : σ → ε → σ) (s : σ) (es : ℕ → ε) (i : ℕ) :
    stateAt step s es i = run step s ((List.range i).map es) := by
  induction i with
  | zero => rfl
  | succ i ih =>
      rw [List.range_succ, List.map_append, List.map_singleton, run_concat, ← ih,
        stateAt_succ]

/-- Once the run is in a state that its events leave alone, it stays there. -/
theorem stateAt_of_fixed {i₀ : ℕ} {t : σ} (ht : stateAt step s es i₀ = t)
    (hfixed : ∀ i, i₀ ≤ i → step t (es i) = t) {i : ℕ} (hi : i₀ ≤ i) :
    stateAt step s es i = t := by
  induction i, hi using Nat.le_induction with
  | base => exact ht
  | succ i hi ih => rw [stateAt_succ, ih, hfixed i hi]

/-- A run in batches of events takes the events in one after the other. -/
theorem stateAt_run (step : σ → ε → σ) (s : σ) (bs : ℕ → List ε) (i : ℕ) :
    stateAt (run step) s bs i = run step s ((List.range i).flatMap bs) := by
  induction i with
  | zero => rfl
  | succ i ih =>
      rw [List.range_succ, List.flatMap_append, List.flatMap_singleton, run_append,
        ← ih, stateAt_succ]

/-! ## Things that come to rest -/

/-- What each step from `i₀` on keeps, it keeps for ever. -/
theorem holds_of_le {P : ℕ → Prop} {i₀ : ℕ}
    (hstep : ∀ i, i₀ ≤ i → P i → P (i + 1)) (h : P i₀) {i : ℕ} (hi : i₀ ≤ i) :
    P i := by
  induction i, hi using Nat.le_induction with
  | base => exact h
  | succ i hi ih => exact hstep i hi ih

/-- What never decreases and stays bounded comes to rest. -/
theorem exists_rest (f : ℕ → ℕ) (i₀ b : ℕ)
    (hmono : ∀ i, i₀ ≤ i → f i ≤ f (i + 1)) (hbound : ∀ i, i₀ ≤ i → f i ≤ b) :
    ∃ i₁, i₀ ≤ i₁ ∧ ∀ i, i₁ ≤ i → f (i + 1) = f i := by
  by_contra hno
  push Not at hno
  -- Otherwise it would exceed every bound.
  have hexceeds : ∀ k, ∃ i, i₀ ≤ i ∧ k ≤ f i := by
    intro k
    induction k with
    | zero => exact ⟨i₀, le_rfl, Nat.zero_le _⟩
    | succ k ih =>
        obtain ⟨i, hi, hk⟩ := ih
        obtain ⟨j, hij, hmoves⟩ := hno i hi
        have hj : i₀ ≤ j := hi.trans hij
        have hle : f i ≤ f j :=
          Nat.rel_of_forall_rel_succ_of_le_of_le (· ≤ ·) hmono hi hij
        have hlt : f j < f (j + 1) :=
          lt_of_le_of_ne (hmono j hj) (Ne.symm hmoves)
        exact ⟨j + 1, Nat.le_succ_of_le hj, (hk.trans hle).trans_lt hlt⟩
  obtain ⟨i, hi, hlt⟩ := hexceeds (b + 1)
  exact absurd (hbound i hi) (not_le.mpr hlt)

/-! ## Things that recur -/

/-- What recurs happens again at any later time. -/
theorem exists_of_recurs {P : ℕ → Prop} (h : ∃ᶠ i in atTop, P i) (i₀ : ℕ) :
    ∃ i, i₀ ≤ i ∧ P i :=
  frequently_atTop.mp h i₀

/-- If something recurs with a bounded value, it recurs with one value. -/
theorem exists_recurring {P : ℕ → ℕ → Prop} {b : ℕ}
    (h : ∃ᶠ i in atTop, ∃ k, k ≤ b ∧ P i k) :
    ∃ k, k ≤ b ∧ ∃ᶠ i in atTop, P i k := by
  by_contra hno
  push Not at hno
  have hnever : ∀ᶠ i in atTop, ∀ k ∈ Set.Iic b, ¬ P i k :=
    (eventually_all_finite (Set.finite_Iic b)).mpr hno
  apply h
  filter_upwards [hnever] with i hi
  rintro ⟨k, hk, hP⟩
  exact hi k hk hP

/-- A counter that rises again and again exceeds every bound. -/
theorem exists_le_of_rises {f : ℕ → ℕ} (hmono : Monotone f)
    (hrises : ∃ᶠ i in atTop, f i < f (i + 1)) (b : ℕ) : ∃ i, b ≤ f i := by
  induction b with
  | zero => exact ⟨0, Nat.zero_le _⟩
  | succ b ih =>
      obtain ⟨i, hb⟩ := ih
      obtain ⟨j, hij, hlt⟩ := exists_of_recurs hrises i
      have hle := hmono hij
      exact ⟨j + 1, by omega⟩

/-- A counter that keeps up with one that rises again and again does so too. -/
theorem rises_again {f g : ℕ → ℕ} (hf : Monotone f) (hg : Monotone g)
    (hkeeps : ∀ i, ∃ j, f i ≤ g j) (hrises : ∃ᶠ i in atTop, f i < f (i + 1)) :
    ∃ᶠ j in atTop, g j < g (j + 1) := by
  by_contra hno
  push Not at hno
  obtain ⟨j₀, hrest⟩ := eventually_atTop.mp hno
  have hbound : ∀ j, g j ≤ g j₀ := by
    intro j
    rcases le_total j j₀ with hj | hj
    · exact hg hj
    · exact holds_of_le (P := fun j => g j ≤ g j₀)
        (fun k hk hle => (hrest k hk).trans hle) le_rfl hj
  obtain ⟨i, hi⟩ := exists_le_of_rises hf hrises (g j₀ + 1)
  obtain ⟨j, hj⟩ := hkeeps i
  have hle := hbound j
  omega

/-- A timer that always runs, that nothing but its own firing moves, and that
is looked at again and again at ever later times fires again and again. -/
theorem fires_again {δ : Type*} [LinearOrder δ] (deadline : ℕ → Option δ)
    (looks : ℕ → δ → Prop) {fires : ℕ → Prop} (i₀ : ℕ)
    (harmed : ∀ i, i₀ ≤ i → deadline i ≠ none)
    (hkept : ∀ i, i₀ ≤ i → deadline (i + 1) = deadline i ∨ fires i)
    (hdue : ∀ i d now, i₀ ≤ i → deadline i = some d → looks i now → d ≤ now →
      fires i)
    (hlooks : ∀ t, ∃ᶠ i in atTop, ∃ now, looks i now ∧ t ≤ now) :
    ∃ᶠ i in atTop, fires i := by
  rw [frequently_atTop]
  intro i₁
  by_contra hno
  push Not at hno
  have hstart : i₀ ≤ max i₀ i₁ := le_max_left i₀ i₁
  obtain ⟨d, hd⟩ := Option.ne_none_iff_exists'.mp (harmed _ hstart)
  -- Without a firing the deadline stays, and some look comes after it.
  have hstays : ∀ i, max i₀ i₁ ≤ i → deadline i = some d := by
    intro i hi
    apply holds_of_le (P := fun i => deadline i = some d) _ hd hi
    intro j hj hdj
    have hnot := hno j ((le_max_right i₀ i₁).trans hj)
    rw [(hkept j (hstart.trans hj)).resolve_right hnot, hdj]
  obtain ⟨i, hi, now, hlook, hle⟩ := exists_of_recurs (hlooks d) (max i₀ i₁)
  have hfires := hdue i d now (hstart.trans hi) (hstays i hi) hlook hle
  exact hno i ((le_max_right i₀ i₁).trans hi) hfires

/-! ## Turns -/

/-- What lasts until a turn is taken is there when one is. -/
theorem exists_turn {P turn : ℕ → Prop} {i₀ : ℕ} (hturns : ∃ᶠ i in atTop, turn i)
    (hkept : ∀ i, i₀ ≤ i → P i → turn i ∨ P (i + 1)) (h : P i₀) :
    ∃ i, i₀ ≤ i ∧ turn i ∧ P i := by
  by_contra hno
  push Not at hno
  have hstays : ∀ i, i₀ ≤ i → P i := fun i hi =>
    holds_of_le (fun j hj hP =>
      (hkept j hj hP).resolve_left fun hturn => hno j hj hturn hP) h hi
  obtain ⟨i, hi, hturn⟩ := exists_of_recurs hturns i₀
  exact hno i hi hturn (hstays i hi)

/-- What every turn brings nearer, and nothing moves away, is reached. -/
theorem exists_of_variant {P Q turn : ℕ → Prop} (m : ℕ → ℕ) {i₀ : ℕ}
    (hturns : ∃ᶠ i in atTop, turn i)
    (hstep : ∀ i, i₀ ≤ i → P i → Q i ∨
      P (i + 1) ∧ m (i + 1) ≤ m i ∧ (turn i → m (i + 1) < m i)) (h : P i₀) :
    ∃ i, i₀ ≤ i ∧ Q i := by
  induction hm : m i₀ using Nat.strong_induction_on generalizing i₀ with
  | _ b ih =>
      by_contra hno
      push Not at hno
      have hnext : ∀ i, i₀ ≤ i → P i →
          P (i + 1) ∧ m (i + 1) ≤ m i ∧ (turn i → m (i + 1) < m i) :=
        fun i hi hP => (hstep i hi hP).resolve_left (hno i hi)
      have hstays : ∀ i, i₀ ≤ i → P i ∧ m i ≤ b := by
        intro i hi
        apply holds_of_le (P := fun i => P i ∧ m i ≤ b) _ ⟨h, hm.le⟩ hi
        rintro j hj ⟨hP, hle⟩
        exact ⟨(hnext j hj hP).1, (hnext j hj hP).2.1.trans hle⟩
      obtain ⟨i, hi, hturn⟩ := exists_of_recurs hturns i₀
      obtain ⟨hP, hle⟩ := hstays i hi
      obtain ⟨hP', -, hlt⟩ := hnext i hi hP
      obtain ⟨j, hj, hQ⟩ := ih (m (i + 1)) ((hlt hturn).trans_le hle)
        (fun j hj => hstep j (by omega)) hP' rfl
      exact hno j (by omega) hQ

end UdpArq
