import Mathlib.Data.List.Forall2
import Mathlib.Data.List.Infix

/-!
# Runs of a deterministic step function

Everything nondeterministic is part of the event that a step receives, so that
a run is the fold of a step function over a list of events.  The rules below
turn a fact about one step into a fact about whole runs: an invariant, an
invariant that needs a condition on the steps taken, and the exact conditions
under which a property holds in every state of a run.  For two machines there is
a rule that compares what their runs show.
-/

namespace UdpArq

universe u v

variable {σ : Type u} {ε : Type v}

/-- The state reached from `s` after the events `es`. -/
def run (step : σ → ε → σ) (s : σ) (es : List ε) : σ := es.foldl step s

/-- Every step of the run satisfies `C` in the state in which it is taken. -/
def Meets (step : σ → ε → σ) (C : σ → ε → Prop) : σ → List ε → Prop
  | _, [] => True
  | s, e :: es => C s e ∧ Meets step C (step s e) es

instance decidableMeets {step : σ → ε → σ} {C : σ → ε → Prop}
    [∀ s e, Decidable (C s e)] : ∀ s es, Decidable (Meets step C s es)
  | _, [] => isTrue trivial
  | s, e :: es =>
      @instDecidableAnd (C s e) (Meets step C (step s e) es) inferInstance
        (decidableMeets (step s e) es)

/-- `P` holds in every state that the run passes through. -/
def Throughout (step : σ → ε → σ) (P : σ → Prop) (s : σ) (es : List ε) :
    Prop :=
  ∀ pre, pre <+: es → P (run step s pre)

section

variable {step : σ → ε → σ}

@[simp] theorem run_nil (s : σ) : run step s [] = s := rfl

@[simp] theorem run_cons (s : σ) (e : ε) (es : List ε) :
    run step s (e :: es) = run step (step s e) es := rfl

theorem run_append (s : σ) (es es' : List ε) :
    run step s (es ++ es') = run step (run step s es) es' :=
  List.foldl_append

theorem run_concat (s : σ) (es : List ε) (e : ε) :
    run step s (es ++ [e]) = step (run step s es) e := by
  rw [run_append]
  rfl

@[simp] theorem meets_nil {C : σ → ε → Prop} (s : σ) :
    Meets step C s [] := trivial

@[simp] theorem meets_cons {C : σ → ε → Prop} (s : σ) (e : ε) (es : List ε) :
    Meets step C s (e :: es) ↔ C s e ∧ Meets step C (step s e) es := Iff.rfl

theorem meets_append {C : σ → ε → Prop} (s : σ) (es es' : List ε) :
    Meets step C s (es ++ es') ↔
      Meets step C s es ∧ Meets step C (run step s es) es' := by
  induction es generalizing s with
  | nil => simp
  | cons e es ih =>
      rw [List.cons_append, meets_cons, ih, meets_cons, run_cons, and_assoc]

theorem Meets.mono {C D : σ → ε → Prop} (hCD : ∀ s e, C s e → D s e)
    {s : σ} {es : List ε} (h : Meets step C s es) : Meets step D s es := by
  induction es generalizing s with
  | nil => trivial
  | cons e es ih => exact ⟨hCD s e h.1, ih h.2⟩

theorem Meets.and {C D : σ → ε → Prop} {s : σ} {es : List ε}
    (hC : Meets step C s es) (hD : Meets step D s es) :
    Meets step (fun s e => C s e ∧ D s e) s es := by
  induction es generalizing s with
  | nil => trivial
  | cons e es ih => exact ⟨⟨hC.1, hD.1⟩, ih hC.2 hD.2⟩

theorem meets_of_holds {C : σ → ε → Prop} (hC : ∀ s e, C s e) (s : σ)
    (es : List ε) : Meets step C s es := by
  induction es generalizing s with
  | nil => trivial
  | cons e es ih => exact ⟨hC s e, ih (step s e)⟩

/-- A condition on the events alone. -/
theorem meets_of_forall {C : ε → Prop} {s : σ} {es : List ε}
    (h : ∀ e ∈ es, C e) : Meets step (fun _ e => C e) s es := by
  induction es generalizing s with
  | nil => trivial
  | cons e es ih =>
      refine ⟨h e List.mem_cons_self, ih fun e' he' => ?_⟩
      exact h e' (List.mem_cons_of_mem _ he')

theorem Meets.forall {C : ε → Prop} {s : σ} {es : List ε}
    (h : Meets step (fun _ e => C e) s es) : ∀ e ∈ es, C e := by
  induction es generalizing s with
  | nil => exact fun e he => absurd he List.not_mem_nil
  | cons e es ih => exact List.forall_mem_cons.mpr ⟨h.1, ih h.2⟩

/-! ## Invariants -/

/-- A property that every step preserves holds after every run. -/
theorem run_invariant (P : σ → Prop) (hstep : ∀ s e, P s → P (step s e))
    {s : σ} (hs : P s) (es : List ε) : P (run step s es) := by
  induction es generalizing s with
  | nil => exact hs
  | cons e es ih => exact ih (hstep s e hs)

/-- A property that the admitted steps preserve holds after every run whose
steps are all admitted. -/
theorem run_invariant_of_meets (P : σ → Prop) {C : σ → ε → Prop}
    (hstep : ∀ s e, P s → C s e → P (step s e))
    {s : σ} (hs : P s) {es : List ε} (hC : Meets step C s es) :
    P (run step s es) := by
  induction es generalizing s with
  | nil => exact hs
  | cons e es ih => exact ih (hstep s e hs hC.1) hC.2

theorem Meets.take {C : σ → ε → Prop} {s : σ} {es pre : List ε}
    (h : Meets step C s es) (hpre : pre <+: es) : Meets step C s pre := by
  obtain ⟨post, rfl⟩ := hpre
  exact ((meets_append s pre post).mp h).1

/-- What an invariant implies holds throughout every run whose steps are all
admitted. -/
theorem throughout_of_meets {I P : σ → Prop} {C : σ → ε → Prop}
    (hstep : ∀ s e, I s → C s e → I (step s e)) (hP : ∀ s, I s → P s)
    {s : σ} (hs : I s) {es : List ε} (hC : Meets step C s es) :
    Throughout step P s es := by
  intro pre hpre
  exact hP _ (run_invariant_of_meets I hstep hs (hC.take hpre))

theorem throughout_cons {P : σ → Prop} (s : σ) (e : ε) (es : List ε) :
    Throughout step P s (e :: es) ↔ P s ∧ Throughout step P (step s e) es := by
  constructor
  · intro h
    refine ⟨h [] List.nil_prefix, fun pre hpre => ?_⟩
    exact h (e :: pre) (List.cons_prefix_cons.mpr ⟨rfl, hpre⟩)
  · rintro ⟨hs, h⟩ pre hpre
    cases pre with
    | nil => exact hs
    | cons a pre =>
        obtain ⟨rfl, hpre'⟩ := List.cons_prefix_cons.mp hpre
        exact h pre hpre'

/-- If, along states satisfying the invariant `I`, a step keeps `P` exactly
when it satisfies `C`, then `P` holds throughout a run exactly when all its
steps satisfy `C`. -/
theorem throughout_iff_meets (I : σ → Prop) {P : σ → Prop}
    {C : σ → ε → Prop}
    (hI : ∀ s e, I s → I (step s e))
    (hP : ∀ s e, I s → P s → (P (step s e) ↔ C s e))
    {s : σ} (hs : I s) (hPs : P s) (es : List ε) :
    Throughout step P s es ↔ Meets step C s es := by
  induction es generalizing s with
  | nil =>
      refine ⟨fun _ => trivial, fun _ pre hpre => ?_⟩
      rw [List.prefix_nil.mp hpre]
      exact hPs
  | cons e es ih =>
      rw [throughout_cons, meets_cons]
      constructor
      · rintro ⟨-, h⟩
        have hnext : P (step s e) := h [] List.nil_prefix
        exact ⟨(hP s e hs hPs).mp hnext, (ih (hI s e hs) hnext).mp h⟩
      · rintro ⟨hC, h⟩
        have hnext : P (step s e) := (hP s e hs hPs).mpr hC
        exact ⟨hPs, (ih (hI s e hs) hnext).mpr h⟩

/-- If the admitted steps keep the invariant `J`, which implies `P`, and every
other step breaks `P`, then `P` holds throughout a run exactly when all its
steps are admitted. -/
theorem throughout_iff_meets_of_breaks (J : σ → Prop) {P : σ → Prop}
    {C : σ → ε → Prop} (hP : ∀ s, J s → P s)
    (hstep : ∀ s e, J s → C s e → J (step s e))
    (hbreaks : ∀ s e, J s → P (step s e) → C s e)
    {s : σ} (hs : J s) (es : List ε) :
    Throughout step P s es ↔ Meets step C s es := by
  refine ⟨?_, throughout_of_meets hstep hP hs⟩
  induction es generalizing s with
  | nil => exact fun _ => trivial
  | cons e es ih =>
      intro h
      obtain ⟨-, h⟩ := (throughout_cons s e es).mp h
      have hC : C s e := hbreaks s e hs (h [] List.nil_prefix)
      exact ⟨hC, ih (hstep s e hs hC) h⟩

/-- Two conditions that agree along states satisfying the invariant `I` are met
by the same runs. -/
theorem meets_congr (I : σ → Prop) {C D : σ → ε → Prop} {A : ε → Prop}
    (hI : ∀ s e, A e → I s → I (step s e))
    (hCD : ∀ s e, A e → I s → (C s e ↔ D s e)) {s : σ} (hs : I s) {es : List ε}
    (hA : ∀ e ∈ es, A e) : Meets step C s es ↔ Meets step D s es := by
  induction es generalizing s with
  | nil => exact Iff.rfl
  | cons e es ih =>
      have he := hA e List.mem_cons_self
      rw [meets_cons, meets_cons, hCD s e he hs,
        ih (hI s e he hs) fun e' he' => hA e' (List.mem_cons_of_mem _ he')]

/-- A condition on the image of a run is met by the run of the images. -/
theorem meets_map {τ : Type*} {step' : τ → ε → τ} {C : σ → ε → Prop}
    (f : τ → σ) (hf : ∀ t e, f (step' t e) = step (f t) e) (t : τ)
    (es : List ε) :
    Meets step' (fun t e => C (f t) e) t es ↔ Meets step C (f t) es := by
  induction es generalizing t with
  | nil => exact Iff.rfl
  | cons e es ih => rw [meets_cons, meets_cons, ih, hf]

/-! ## Two machines with the same events -/

/-- Along the run `f` maps the states of one machine to those of the other. -/
def Simulates {τ : Type*} (step : σ → ε → σ) (step' : τ → ε → τ) (f : σ → τ)
    (s : σ) (es : List ε) : Prop :=
  ∀ pre, pre <+: es → f (run step s pre) = run step' (f s) pre

/-- If the two machines take the same step exactly when `C` holds, they agree
along a run exactly when all its steps satisfy `C`. -/
theorem simulates_iff_meets {τ : Type*} {step' : τ → ε → τ} {f : σ → τ}
    {C : σ → ε → Prop} (hstep : ∀ s e, f (step s e) = step' (f s) e ↔ C s e)
    (s : σ) (es : List ε) :
    Simulates step step' f s es ↔ Meets step C s es := by
  induction es generalizing s with
  | nil =>
      refine ⟨fun _ => trivial, fun _ pre hpre => ?_⟩
      rw [List.prefix_nil.mp hpre]
      rfl
  | cons e es ih =>
      rw [meets_cons, ← ih]
      constructor
      · intro h
        have hfirst : f (step s e) = step' (f s) e :=
          h [e] (List.cons_prefix_cons.mpr ⟨rfl, List.nil_prefix⟩)
        refine ⟨(hstep s e).mp hfirst, fun pre hpre => ?_⟩
        rw [hfirst]
        exact h (e :: pre) (List.cons_prefix_cons.mpr ⟨rfl, hpre⟩)
      · rintro ⟨hC, h⟩ pre hpre
        rcases pre with _ | ⟨a, pre⟩
        · rfl
        · obtain ⟨rfl, hpre'⟩ := List.cons_prefix_cons.mp hpre
          rw [run_cons, run_cons, h pre hpre', (hstep s a).mpr hC]

/-- If each step of the first machine is matched by steps of the second one that
meet a condition, every run is. -/
theorem exists_run_of_matched {τ ε' : Type*} {step' : τ → ε' → τ}
    (R : σ → τ → Prop) {C : τ → ε' → Prop}
    (hstep : ∀ s t e, R s t →
      ∃ es', Meets step' C t es' ∧ R (step s e) (run step' t es'))
    {s : σ} {t : τ} (h : R s t) (es : List ε) :
    ∃ es', Meets step' C t es' ∧ R (run step s es) (run step' t es') := by
  induction es generalizing s t with
  | nil => exact ⟨[], trivial, h⟩
  | cons e es ih =>
      obtain ⟨xs, hxs, hmatched⟩ := hstep s t e h
      obtain ⟨ys, hys, hrest⟩ := ih hmatched
      refine ⟨xs ++ ys, (meets_append t xs ys).mpr ⟨hxs, hys⟩, ?_⟩
      rw [run_append]
      exact hrest

/-! ## Events that commute -/

/-- An event that is taken in again changes nothing. -/
theorem run_absorb (hcomm : ∀ s a b, step (step s a) b = step (step s b) a)
    (hidem : ∀ s a, step (step s a) a = step s a) {e : ε} {es : List ε}
    (he : e ∈ es) (s : σ) : step (run step s es) e = run step s es := by
  induction es using List.reverseRecOn with
  | nil => cases he
  | append_singleton es a ih =>
      rw [run_concat]
      rcases List.mem_append.mp he with hes | ha
      · rw [hcomm, ih hes]
      · rw [List.mem_singleton.mp ha, hidem]

/-- If events commute and repeating one changes nothing, the state reached
depends only on which events there are. -/
theorem run_eq_of_mem_iff
    (hcomm : ∀ s a b, step (step s a) b = step (step s b) a)
    (hidem : ∀ s a, step (step s a) a = step s a) {es es' : List ε}
    (h : ∀ e, e ∈ es ↔ e ∈ es') (s : σ) : run step s es = run step s es' := by
  have habsorb : ∀ xs ys : List ε, (∀ y ∈ ys, y ∈ xs) →
      run step s (xs ++ ys) = run step s xs := by
    intro xs ys hsub
    induction ys using List.reverseRecOn with
    | nil => rw [List.append_nil]
    | append_singleton ys y ih =>
        have hrest := ih fun a ha => hsub a (List.mem_append_left _ ha)
        have hy := hsub y (List.mem_append_right _ (List.mem_singleton_self y))
        rw [← List.append_assoc, run_concat, hrest]
        exact run_absorb hcomm hidem hy s
  have hperm : run step s (es ++ es') = run step s (es' ++ es) :=
    List.perm_append_comm.foldl_eq' (fun a _ b _ t => hcomm t a b) s
  rw [← habsorb es es' fun e he => (h e).mpr he, hperm]
  exact habsorb es' es fun e he => (h e).mp he

end

/-! ## Sweeps over distinct keys -/

/-- In a sweep that visits distinct keys, a view that only the visit of `b`
changes is what that visit makes of it, in a state with the original view. -/
theorem foldl_view {ι κ α : Type*} (f : σ → ι → σ) (key : ι → κ)
    (view : σ → α) (I : σ → Prop) (b : κ) {xs : List ι}
    (hI : ∀ s, ∀ x ∈ xs, I s → I (f s x))
    (hother : ∀ s, ∀ x ∈ xs, I s → key x ≠ b → view (f s x) = view s)
    (hnodup : (xs.map key).Nodup) (s : σ) (hs : I s) :
    b ∉ xs.map key ∧ view (xs.foldl f s) = view s ∨
      ∃ x ∈ xs, key x = b ∧ ∃ s', I s' ∧ view s' = view s ∧
        view (xs.foldl f s) = view (f s' x) := by
  induction xs generalizing s with
  | nil => exact Or.inl ⟨List.not_mem_nil, rfl⟩
  | cons x xs ih =>
      rw [List.map_cons, List.nodup_cons] at hnodup
      rw [List.foldl_cons]
      have hmem : x ∈ x :: xs := List.mem_cons_self
      rcases ih (fun s y hy => hI s y (List.mem_cons_of_mem _ hy))
        (fun s y hy => hother s y (List.mem_cons_of_mem _ hy))
        hnodup.2 (f s x) (hI s x hmem hs) with
          ⟨hnot, hsame⟩ | ⟨y, hy, hkey, s', hs', hv, h⟩
      · by_cases hx : key x = b
        · exact Or.inr ⟨x, hmem, hx, s, hs, rfl, hsame⟩
        · refine Or.inl ⟨?_, hsame.trans (hother s x hmem hs hx)⟩
          rw [List.map_cons, List.mem_cons, not_or]
          exact ⟨Ne.symm hx, hnot⟩
      · have hx : key x ≠ b := by
          intro hx
          exact hnodup.1 (List.mem_map.mpr ⟨y, hy, hkey.trans hx.symm⟩)
        exact Or.inr ⟨y, List.mem_cons_of_mem _ hy, hkey, s', hs',
          hv.trans (hother s x hmem hs hx), h⟩

/-- Two sweeps that both visit `b`, or both do not, agree in the view of `b`, if
what the visit of `b` makes of the view depends on nothing else. -/
theorem foldl_view_eq {ι κ α : Type*} (f : σ → ι → σ) (key : ι → κ)
    (view : σ → α) (I J : σ → Prop) (b : κ) (xs ys : List ι)
    (hI : ∀ s, ∀ x ∈ xs, I s → I (f s x))
    (hJ : ∀ s, ∀ y ∈ ys, J s → J (f s y))
    (hxs : ∀ s, ∀ x ∈ xs, I s → key x ≠ b → view (f s x) = view s)
    (hys : ∀ s, ∀ y ∈ ys, J s → key y ≠ b → view (f s y) = view s)
    (hself : ∀ s t, I s → J t → view s = view t → ∀ x ∈ xs, ∀ y ∈ ys,
      key x = b → key y = b → view (f s x) = view (f t y))
    (hnodup : (xs.map key).Nodup) (hnodup' : (ys.map key).Nodup)
    (hmem : b ∈ xs.map key ↔ b ∈ ys.map key) {s t : σ} (hs : I s) (ht : J t)
    (h : view s = view t) : view (xs.foldl f s) = view (ys.foldl f t) := by
  have hleft := foldl_view f key view I b hI hxs hnodup s hs
  have hright := foldl_view f key view J b hJ hys hnodup' t ht
  rcases hleft with ⟨hno, hsame⟩ | ⟨x, hx, hkey, s', hs', hview, hfold⟩
  · rcases hright with ⟨-, hsame'⟩ | ⟨y, hy, hkey', -⟩
    · rw [hsame, hsame', h]
    · exact absurd (hmem.mpr (List.mem_map.mpr ⟨y, hy, hkey'⟩)) hno
  · rcases hright with ⟨hno, -⟩ | ⟨y, hy, hkey', t', ht', hview', hfold'⟩
    · exact absurd (hmem.mp (List.mem_map.mpr ⟨x, hx, hkey⟩)) hno
    · rw [hfold, hfold']
      apply hself s' t' hs' ht' _ x hx y hy hkey hkey'
      rw [hview, hview', h]

/-! ## What runs show -/

/-- What the steps of a run show, in their order. -/
def observed {β : Type*} (out : σ → ε → Option β) (step : σ → ε → σ) :
    σ → List ε → List β
  | _, [] => []
  | s, e :: es => (out s e).toList ++ observed out step (step s e) es

section

variable {step : σ → ε → σ} {β : Type*} {out : σ → ε → Option β}

theorem observed_cons_none {s : σ} {e : ε} (h : out s e = none) (es : List ε) :
    observed out step s (e :: es) = observed out step (step s e) es := by
  rw [observed, h, Option.toList_none, List.nil_append]

theorem observed_cons_some {s : σ} {e : ε} {b : β} (h : out s e = some b)
    (es : List ε) :
    observed out step s (e :: es) = b :: observed out step (step s e) es := by
  rw [observed, h, Option.toList_some, List.singleton_append]

theorem observed_append (s : σ) (es es' : List ε) :
    observed out step s (es ++ es') =
      observed out step s es ++ observed out step (run step s es) es' := by
  induction es generalizing s with
  | nil => rfl
  | cons e es ih =>
      rw [List.cons_append, observed, observed, ih, run_cons, List.append_assoc]

/-- Idle steps keep a property and show nothing. -/
theorem observed_idle (I : σ → Prop) {es : List ε}
    (h : ∀ s, ∀ e ∈ es, I s → out s e = none ∧ I (step s e)) {s : σ}
    (hs : I s) : observed out step s es = [] ∧ I (run step s es) := by
  induction es generalizing s with
  | nil => exact ⟨rfl, hs⟩
  | cons e es ih =>
      obtain ⟨hnone, hnext⟩ := h s e List.mem_cons_self hs
      rw [observed_cons_none hnone, run_cons]
      exact ih (fun s e he => h s e (List.mem_cons_of_mem _ he)) hnext

/-- The relational rule.  Two machines run on events that carry the same labels
in the same order, with unlabelled steps of either machine anywhere between
them.  If unlabelled steps show nothing and keep a coupling of the states, and
equally labelled steps keep it and show related things, then the two runs show
related things. -/
theorem forall₂_observed {τ ε' κ γ : Type*} {step' : τ → ε' → τ}
    {out' : τ → ε' → Option γ} (label : ε → Option κ) (label' : ε' → Option κ)
    (I : σ → τ → Prop) {R : β → γ → Prop}
    (hleft : ∀ s t e, I s t → label e = none →
      out s e = none ∧ I (step s e) t)
    (hright : ∀ s t e', I s t → label' e' = none →
      out' t e' = none ∧ I s (step' t e'))
    (hboth : ∀ s t e e' k, I s t → label e = some k → label' e' = some k →
      ∃ b c, out s e = some b ∧ out' t e' = some c ∧ R b c ∧
        I (step s e) (step' t e'))
    {es : List ε} {es' : List ε'}
    (hlabels : es.filterMap label = es'.filterMap label') {s : σ} {t : τ}
    (h : I s t) :
    List.Forall₂ R (observed out step s es) (observed out' step' t es') := by
  induction es generalizing es' s t with
  | nil =>
      have hidle : ∀ e' ∈ es', label' e' = none :=
        List.filterMap_eq_nil_iff.mp hlabels.symm
      rw [(observed_idle (I s) (fun t e' he' ht =>
        hright s t e' ht (hidle e' he')) h).1]
      exact List.Forall₂.nil
  | cons e es ih =>
      cases hlabel : label e with
      | none =>
          obtain ⟨hnone, hnext⟩ := hleft s t e h hlabel
          rw [observed_cons_none hnone]
          rw [List.filterMap_cons_none hlabel] at hlabels
          exact ih hlabels hnext
      | some k =>
          rw [List.filterMap_cons_some hlabel] at hlabels
          obtain ⟨pre, e', post, rfl, hidle, hlabel', hrest⟩ :=
            List.filterMap_eq_cons_iff.mp hlabels.symm
          obtain ⟨hnil, hpre⟩ := observed_idle (I s) (fun t e' he' ht =>
            hright s t e' ht (hidle e' he')) h
          obtain ⟨b, c, hb, hc, hR, hnext⟩ :=
            hboth s _ e e' k hpre hlabel hlabel'
          rw [observed_append, hnil, List.nil_append, observed_cons_some hb,
            observed_cons_some hc]
          exact List.Forall₂.cons hR (ih hrest.symm hnext)

end

end UdpArq
