import UdpArq.Channel.Fate

/-!
# Impairment decisions are aligned

Two channels that are fed the same draws and given the same calls decide the
fates of their packets by the same draws, whatever their clocks read and
whenever their delivery threads run.  An accepted call takes five draws, also if
the packet is dropped, and a rejected call takes none.
-/

namespace UdpArq

namespace Channel

variable {p p' : Impairments} {rng : ℕ → Draw} {c c' : Channel}

/-- The outcomes of the same call of two channels: `R` relates the fates, and
the exceptions are the same, unless one of the channels is already closed. -/
def Agree (R : Fate → Fate → Prop) :
    Except SendError Fate → Except SendError Fate → Prop
  | .ok f, .ok f' => R f f'
  | .ok _, .error e => e = .closed
  | .error e, .ok _ => e = .closed
  | .error e, .error e' => e = e' ∨ e = .closed ∨ e' = .closed

/-- Two channels that have used the same number of draws, as long as neither is
closed. -/
structure Coupled (p p' : Impairments) (c c' : Channel) : Prop where
  left : Balanced p c
  right : Balanced p' c'
  drawn : c.closed = true ∨ c'.closed = true ∨ c.drawn = c'.drawn

theorem coupled_init (p p' : Impairments) : Coupled p p' init init :=
  ⟨balanced_init p, balanced_init p', Or.inr (Or.inr rfl)⟩

/-- The same call of coupled channels, both open, is decided by the same
draws. -/
theorem Coupled.agree (h : Coupled p p' c c') {R : Fate → Fate → Prop}
    (hR : ∀ data addr d, R (decided p data addr d) (decided p' data addr d))
    (rng : ℕ → Draw) (argument : Argument) (addr : Address) (now now' : ℚ) :
    Agree R ((c.sendto p rng argument addr now).map (fate c))
      ((c'.sendto p' rng argument addr now').map (fate c')) := by
  rw [shown_sendto h.left.numbered, shown_sendto h.right.numbered]
  cases argument.check with
  | error e => exact Or.inl rfl
  | ok data =>
      simp only [Except.bind]
      by_cases hclosed : c.closed <;> by_cases hclosed' : c'.closed
      · rw [if_pos hclosed, if_pos hclosed']
        exact Or.inl rfl
      · rw [if_pos hclosed, if_neg hclosed']
        rfl
      · rw [if_neg hclosed, if_pos hclosed']
        rfl
      · rw [if_neg hclosed, if_neg hclosed']
        have hdrawn : c.drawn = c'.drawn :=
          (h.drawn.resolve_left hclosed).resolve_left hclosed'
        rw [hdrawn]
        exact hR data addr _

theorem Coupled.call (h : Coupled p p' c c') (rng : ℕ → Draw)
    (argument : Argument) (addr : Address) (now now' : ℚ) :
    Coupled p p' (step p rng c (.sendto argument addr now))
      (step p' rng c' (.sendto argument addr now')) := by
  obtain ⟨hclosed, hdrawn⟩ := step_sendto_drawn p rng c argument addr now
  obtain ⟨hclosed', hdrawn'⟩ := step_sendto_drawn p' rng c' argument addr now'
  refine ⟨h.left.step rng _, h.right.step rng _, ?_⟩
  rw [hclosed, hclosed']
  rcases Bool.eq_false_or_eq_true c.closed with hc | hc
  · exact Or.inl hc
  rcases Bool.eq_false_or_eq_true c'.closed with hc' | hc'
  · exact Or.inr (Or.inl hc')
  right
  right
  rw [hdrawn hc, hdrawn' hc']
  have hsame := h.drawn
  rw [hc, hc'] at hsame
  simpa using hsame

/-- Two channels that are fed the same draws and given the same calls agree on
every call in what the draws decide. -/
theorem fates_agree (p p' : Impairments) (rng : ℕ → Draw)
    {R : Fate → Fate → Prop}
    (hR : ∀ data addr d, R (decided p data addr d) (decided p' data addr d))
    {es es' : List Event}
    (hcalls : es.filterMap Event.call = es'.filterMap Event.call) :
    List.Forall₂ (Agree R) (fates p rng es) (fates p' rng es') := by
  apply forall₂_observed Event.call Event.call (Coupled p p') _ _ _ hcalls
    (coupled_init p p')
  · intro c c' e h hcall
    have hidle := idle_step hcall p rng c
    refine ⟨shown_eq_none hcall p rng c, h.left.step rng e, h.right, ?_⟩
    rw [hidle.drawn]
    exact h.drawn.imp_left hidle.closed
  · intro c c' e h hcall
    have hidle := idle_step hcall p' rng c'
    refine ⟨shown_eq_none hcall p' rng c', h.left, h.right.step rng e, ?_⟩
    rw [hidle.drawn]
    exact h.drawn.imp_right (Or.imp_left hidle.closed)
  · intro c c' e e' call h hcall hcall'
    obtain ⟨now, rfl⟩ := Event.exists_of_call hcall
    obtain ⟨now', rfl⟩ := Event.exists_of_call hcall'
    exact ⟨_, _, rfl, rfl, h.agree hR rng call.argument call.addr now now',
      h.call rng call.argument call.addr now now'⟩

end Channel

open Channel in
/-- Impairment decisions are aligned: on the same draws and calls, the packets
of two channels meet the same fates if the probabilities are the same; a higher
loss only drops more of them; and the losses do not depend on the other
probabilities. -/
theorem impairments_aligned (p p' : Impairments) (rng : ℕ → Draw)
    (es es' : List Channel.Event)
    (hcalls : es.filterMap Event.call = es'.filterMap Event.call) :
    (p.loss = p'.loss → p.duplication = p'.duplication →
      p.corruption = p'.corruption →
        List.Forall₂ (Agree fun f f' => f = f') (fates p rng es)
          (fates p' rng es')) ∧
    (p.loss ≤ p'.loss → p.duplication = p'.duplication →
      p.corruption = p'.corruption →
        List.Forall₂ (Agree fun f f' => (f.dropped → f'.dropped) ∧
          (¬ f.dropped → ¬ f'.dropped → f.copies = f'.copies)) (fates p rng es)
          (fates p' rng es')) ∧
    (p.loss = p'.loss →
      List.Forall₂ (Agree fun f f' => f.dropped = f'.dropped) (fates p rng es)
        (fates p' rng es')) := by
  refine ⟨fun hloss hduplication hcorruption => ?_,
    fun hloss hduplication hcorruption => ?_, fun hloss => ?_⟩
  · apply fates_agree p p' rng _ hcalls
    intro data addr d
    simp only [decided, hloss, hduplication, hcorruption]
  · apply fates_agree p p' rng _ hcalls
    intro data addr d
    refine ⟨fun hdropped => ?_, fun hkept hkept' => ?_⟩
    · exact decide_eq_true ((of_decide_eq_true hdropped).trans_le hloss)
    · simp only [decided, decide_eq_true_eq] at hkept hkept' ⊢
      rw [if_neg hkept, if_neg hkept', hduplication, hcorruption]
  · apply fates_agree p p' rng _ hcalls
    intro data addr d
    simp only [decided, hloss]

open Channel in
/-- A channel and a slower one that loses more, given the same three calls, of
which the second is rejected. -/
theorem impairments_aligned_lossier :
    let p : Impairments := ⟨{ loss := 1 / 4, corruption := 1 }, by decide +kernel⟩
    let p' : Impairments :=
      ⟨{ loss := 1 / 2, delay := 9, corruption := 1 }, by decide +kernel⟩
    let rng : ℕ → Draw := fun n =>
      if n < 5 then Draw.sixteenths 5
      else Draw.sixteenths 12
    List.Forall₂ (Agree fun f f' => (f.dropped → f'.dropped) ∧
        (¬ f.dropped → ¬ f'.dropped → f.copies = f'.copies))
      (fates p rng [.sendto (.bytesLike [1]) ("b", 2) 0,
        .sendto (.other "str") ("b", 2) 1, .wake 2 false,
        .sendto (.bytesLike [2]) ("b", 2) 3])
      (fates p' rng [.sendto (.bytesLike [1]) ("b", 2) 5,
        .sendto (.other "str") ("b", 2) 6,
        .sendto (.bytesLike [2]) ("b", 2) 7]) := by
  intro p p' rng
  have hloss : (1 / 4 : ℚ) ≤ 1 / 2 := by decide +kernel
  refine (impairments_aligned p p' rng _ _ ?_).2.1 hloss rfl rfl
  rfl

end UdpArq
