import UdpArq.Transport.Effects

/-!
# What the sending half still holds

A datagram is held while it waits or is outstanding.  As long as the transport
drops no datagram that the peer lacks, every datagram up to the newest one in
play is held or is with the peer.
-/

namespace UdpArq

namespace Lane

variable {cfg : Config} {D : Discipline} {fails : SweepInput → Prop}
  {l l' : Lane} {e : Event}

/-- The sending half can still send datagram `q`, again or for the first
time. -/
def Held (l : Lane) (q : ℕ) : Prop :=
  q ∈ l.outstanding.keys ∨ q ∈ l.waiting

instance (l : Lane) (q : ℕ) : Decidable (l.Held q) :=
  inferInstanceAs (Decidable (_ ∨ _))

/-- The event makes the transport drop datagram `q`: it enters the window but
its send raises or it cannot be encoded, or the peer is given up. -/
def Drops (cfg : Config) (fails : SweepInput → Prop) (l : Lane) :
    Event → ℕ → Prop
  | .pump addr input, q => addr = l.peer ∧
      ∃ item, l.nextToSend cfg = some (q, item) ∧
        (input.sendResult ≠ none ∨
          ¬ ∃ packet, Core.dataPacket q item.data = .ok packet)
  | .timeouts input, q =>
      fails input ∧ (q ∈ l.outstanding.keys ∨ q ∈ l.pending.keys)
  | _, _ => False

/-- Up to `m`, which is the counter until the transport is closed, everything
is held or is with the peer, and nothing else is held or completed. -/
structure Retains (has : ℕ → Prop) (l : Lane) (m : ℕ) : Prop where
  le : m ≤ l.nextSeq
  full : l.stopped = false → m = l.nextSeq
  held : ∀ q, l.Held q → q < m
  completed : ∀ q, l.Completed q → q < m ∧ q ∉ l.waiting
  kept : ∀ q < m, has q ∨ l.Held q

theorem Retains.mono {has has' : ℕ → Prop} {m : ℕ} (h : l.Retains has m)
    (hgrow : ∀ q, has q → has' q) : l.Retains has' m :=
  ⟨h.le, h.full, h.held, h.completed,
    fun q hq => (h.kept q hq).imp_left (hgrow q)⟩

/-- An event that loses nothing but what the peer has keeps the bound. -/
theorem Retains.shrink {has : ℕ → Prop} {m : ℕ} (h : l.Retains has m)
    (hnext : l'.nextSeq = l.nextSeq) (hstopped : l'.stopped = l.stopped)
    (hheld : ∀ q, l'.Held q → l.Held q)
    (hwaiting : ∀ q ∈ l'.waiting, q ∈ l.waiting)
    (hcompleted : ∀ q, l'.Completed q → l.Completed q)
    (hlost : ∀ q, l.Held q → has q ∨ l'.Held q) : l'.Retains has m := by
  refine ⟨hnext ▸ h.le, ?_, fun q hq => h.held q (hheld q hq), ?_, ?_⟩
  · rw [hstopped, hnext]
    exact h.full
  · intro q hq
    obtain ⟨hlt, hout⟩ := h.completed q (hcompleted q hq)
    exact ⟨hlt, fun hmem => hout (hwaiting q hmem)⟩
  · intro q hq
    rcases h.kept q hq with hhas | hold
    · exact Or.inl hhas
    · exact hlost q hold

theorem Retains.accept {has : ℕ → Prop} {m : ℕ} (h : l.Retains has m)
    (hopen : l.stopped = false) (data : Bytes) :
    (l.accept data).Retains has (m + 1) := by
  have hm := h.full hopen
  have hwaiting : (l.accept data).waiting = l.waiting ++ [m] := by
    simp [waiting, Lane.accept, hm]
  refine ⟨?_, fun _ => ?_, ?_, ?_, ?_⟩
  · exact Nat.succ_le_succ h.le
  · exact congrArg Nat.succ hm
  · rintro q (hq | hq)
    · exact Nat.lt_succ_of_lt (h.held q (Or.inl hq))
    · rw [hwaiting, List.mem_append, List.mem_singleton] at hq
      rcases hq with hq | rfl
      · exact Nat.lt_succ_of_lt (h.held q (Or.inr hq))
      · exact Nat.lt_succ_self _
  · intro q hq
    obtain ⟨hlt, hout⟩ := h.completed q hq
    refine ⟨Nat.lt_succ_of_lt hlt, ?_⟩
    rw [hwaiting, List.mem_append, List.mem_singleton, not_or]
    exact ⟨hout, hlt.ne⟩
  · intro q hq
    rcases Nat.lt_succ_iff_lt_or_eq.mp hq with hlt | rfl
    · rcases h.kept q hlt with hhas | hout | hin
      · exact Or.inl hhas
      · exact Or.inr (Or.inl hout)
      · refine Or.inr (Or.inr ?_)
        rw [hwaiting]
        exact List.mem_append_left _ hin
    · refine Or.inr (Or.inr ?_)
      rw [hwaiting]
      exact List.mem_append_right _ (List.mem_singleton_self _)

theorem Retains.register {has : ℕ → Prop} {m : ℕ} (h : l.Retains has m)
    (hspan : ∃ lo n, l.Span lo n) {item : Item} {rest : List Item}
    (hqueue : l.queued = item :: rest) :
    (l.register item rest).Retains has m := by
  obtain ⟨lo, n, hspan⟩ := hspan
  have hwaiting : (l.register item rest).waiting = l.waiting :=
    (hspan.register hqueue).waiting_eq.trans hspan.waiting_eq.symm
  refine h.shrink rfl rfl ?_ ?_ (fun _ hq => hq) ?_
  · intro q hq
    rwa [Held, hwaiting] at hq
  · intro q hq
    rwa [hwaiting] at hq
  · intro q hq
    rw [Held, hwaiting]
    exact Or.inr hq

theorem mem_waiting_popPending {seq q : ℕ} :
    q ∈ (l.popPending seq).waiting →
      q ∈ l.waiting := by
  simp only [waiting, Lane.popPending, List.mem_append, Dict.mem_keys_erase]
  rintro (⟨hq, -⟩ | hq)
  · exact Or.inl hq
  · exact Or.inr hq

theorem mem_waiting_of_ne {seq q : ℕ} (hq : q ∈ l.waiting) (hne : q ≠ seq) :
    q ∈ (l.popPending seq).waiting := by
  simp only [waiting, Lane.popPending, List.mem_append,
    Dict.mem_keys_erase] at hq ⊢
  rcases hq with hq | hq
  · exact Or.inl ⟨hq, hne⟩
  · exact Or.inr hq

theorem mem_waiting_of_nextToSend {seq : ℕ} {item : Item}
    (hnext : l.nextToSend cfg = some (seq, item)) : seq ∈ l.waiting :=
  List.mem_append_left _
    (Dict.mem_keys.mpr ⟨item, pending_of_nextToSend hnext⟩)

theorem Retains.send {has : ℕ → Prop} {m : ℕ} (h : l.Retains has m) {seq : ℕ}
    {item : Item} {packet : Bytes}
    (hnext : l.nextToSend cfg = some (seq, item)) :
    (((l.popPending seq).launch seq item packet).transmit packet).Retains
      has m := by
  refine h.shrink rfl rfl ?_ ?_ (fun _ hq => hq) ?_
  · rintro q (hq | hq)
    · rcases Dict.mem_keys_set.mp hq with rfl | hold
      · exact Or.inr (mem_waiting_of_nextToSend hnext)
      · exact Or.inl hold
    · exact Or.inr (mem_waiting_popPending hq)
  · exact fun q hq => mem_waiting_popPending hq
  · rintro q (hq | hq)
    · exact Or.inr (Or.inl (Dict.mem_keys_set.mpr (Or.inr hq)))
    · by_cases hne : q = seq
      · exact Or.inr (Or.inl (Dict.mem_keys_set.mpr (Or.inl hne)))
      · exact Or.inr (Or.inr (mem_waiting_of_ne hq hne))

/-- A waiting packet that the peer has leaves without entering the window. -/
theorem Retains.drop {has : ℕ → Prop} {m : ℕ} (h : l.Retains has m) {seq : ℕ}
    (hseq : has seq) (hnext : l'.nextSeq = l.nextSeq)
    (hstopped : l'.stopped = l.stopped)
    (hwaiting : l'.waiting = (l.popPending seq).waiting)
    (hkeys : ∀ q, q ≠ seq → (q ∈ l'.outstanding.keys ↔ q ∈ l.outstanding.keys))
    (hself : seq ∈ l'.outstanding.keys → seq ∈ l.outstanding.keys)
    (hcompleted : ∀ q, l'.Completed q → l.Completed q) :
    l'.Retains has m := by
  refine h.shrink hnext hstopped ?_ ?_ hcompleted ?_
  · rintro q (hq | hq)
    · by_cases hne : q = seq
      · rw [hne] at hq ⊢
        exact Or.inl (hself hq)
      · exact Or.inl ((hkeys q hne).mp hq)
    · rw [hwaiting] at hq
      exact Or.inr (mem_waiting_popPending hq)
  · intro q hq
    rw [hwaiting] at hq
    exact mem_waiting_popPending hq
  · intro q hq
    by_cases hne : q = seq
    · exact Or.inl (hne ▸ hseq)
    · right
      rcases hq with hq | hq
      · exact Or.inl ((hkeys q hne).mpr hq)
      · right
        rw [hwaiting]
        exact mem_waiting_of_ne hq hne

theorem Retains.close {has : ℕ → Prop} {m : ℕ} (h : l.Retains has m)
    (hspan : ∃ lo n, l.Span lo n)
    (hcompleted : ∀ q, l.close.Completed q → l.Completed q) :
    ∃ m', l.close.Retains has m' := by
  by_cases hstopped : l.stopped
  · rw [Lane.close, if_pos hstopped]
    exact ⟨m, h⟩
  obtain ⟨lo, n, hspan⟩ := hspan
  obtain ⟨k, j, hn, hpending, hqueued⟩ := hspan.split
  have hm : m = lo + n := by
    rw [h.full (by simpa using hstopped),
      ← hspan.full (by simpa using hstopped)]
  have hclose : l.close.outstanding = l.outstanding ∧
      l.close.waiting = List.range' lo k ∧ l.close.nextSeq = l.nextSeq ∧
      l.close.stopped = true := by
    rw [Lane.close, if_neg hstopped]
    exact ⟨rfl, by simpa [waiting] using hpending, rfl, rfl⟩
  obtain ⟨hout, hwaiting, hnext, hstop⟩ := hclose
  have hmem : ∀ q, q ∈ l.waiting ↔ lo ≤ q ∧ q < lo + n := by
    intro q
    rw [hspan.waiting_eq, List.mem_range'_1]
  have hmem' : ∀ q, q ∈ l.close.waiting ↔ lo ≤ q ∧ q < lo + k := by
    intro q
    rw [hwaiting, List.mem_range'_1]
  refine ⟨lo + k, ?_, fun hopen => absurd hopen (by simp [hstop]), ?_, ?_, ?_⟩
  · rw [hnext]
    have hle := h.le
    omega
  · rintro q (hq | hq)
    · rw [hout] at hq
      have hlt := hspan.outstanding_lt q hq
      omega
    · exact ((hmem' q).mp hq).2
  · intro q hq
    obtain ⟨hlt, hnot⟩ := h.completed q (hcompleted q hq)
    rw [hmem] at hnot
    rw [hmem']
    omega
  · intro q hq
    rcases h.kept q (by omega) with hhas | hold | hold
    · exact Or.inl hhas
    · refine Or.inr (Or.inl ?_)
      rwa [hout]
    · refine Or.inr (Or.inr ?_)
      rw [hmem] at hold
      rw [hmem']
      omega

theorem Retains.ack {has : ℕ → Prop} {m : ℕ}
    (h : l.Retains has m) (hspan : ∃ lo n, l.Span lo n) {seqs : List ℕ}
    (hseqs : ∀ q ∈ seqs, q ∈ l.outstanding.keys) (hhas : ∀ q ∈ seqs, has q)
    (base : ℕ) :
    ((l.complete seqs).slideTo base).Retains has m := by
  obtain ⟨lo, n, hspan⟩ := hspan
  refine ⟨h.le, h.full, ?_, ?_, ?_⟩
  · rintro q (hq | hq)
    · exact h.held q (Or.inl (Dict.mem_keys_of_eraseAll hq))
    · exact h.held q (Or.inr hq)
  · intro q hq
    by_cases hmem : q ∈ seqs
    · have hout := hseqs q hmem
      refine ⟨h.held q (Or.inl hout), fun hwaiting => ?_⟩
      have hlt := hspan.outstanding_lt q hout
      have hin : q ∈ l.waiting := hwaiting
      rw [hspan.waiting_eq, List.mem_range'_1] at hin
      omega
    · apply h.completed q
      simpa [Completed, slideTo, Lane.complete, hmem] using hq
  · intro q hq
    rcases h.kept q hq with hhas | hout | hwaiting
    · exact Or.inl hhas
    · by_cases hmem : q ∈ seqs
      · exact Or.inl (hhas q hmem)
      · refine Or.inr (Or.inl ?_)
        obtain ⟨x, hx⟩ := Dict.mem_keys.mp hout
        exact Dict.mem_keys.mpr
          ⟨x, by simpa [slideTo, Lane.complete, hmem] using hx⟩
    · exact Or.inr (Or.inr hwaiting)

/-- Every event that drops nothing the peer lacks, and that acknowledges nothing
the peer lacks, keeps some bound. -/
theorem Retains.step {has : ℕ → Prop} {m : ℕ} (h : l.Retains has m)
    (hwf : l.WellFormed) (hstep : Step cfg D fails l e l')
    (hdrops : ∀ q, Drops cfg fails l e q → has q)
    (hacks : ∀ raw input k seqs base, e = .incoming raw l.peer input →
      IsAck raw k → D.slide l k = some (seqs, base) →
        l' = (l.complete seqs).slideTo base → ∀ q ∈ seqs, has q) :
    ∃ m', l'.Retains has m' := by
  have hcompleted : (∀ raw input, e ≠ .incoming raw l.peer input) →
      ∀ q, l'.Completed q → l.Completed q := by
    intro hne q hq
    rcases hstep.completed hq with hold | ⟨raw, input, k, he, -⟩
    · exact hold
    · exact absurd he (hne raw input)
  have hsame : ∀ {l' : Lane}, l'.nextSeq = l.nextSeq →
      l'.stopped = l.stopped → l'.outstanding = l.outstanding →
      l'.waiting = l.waiting → l'.status = l.status → l'.Retains has m := by
    intro l' hnext hstopped hout hwaiting hstatus
    refine h.shrink hnext hstopped ?_ ?_ ?_ ?_
    · intro q hq
      rwa [Held, hout, hwaiting] at hq
    · intro q hq
      rwa [hwaiting] at hq
    · intro q hq
      rwa [Completed, hstatus] at hq
    · intro q hq
      rw [Held, hout, hwaiting]
      exact Or.inr hq
  cases hstep with
  | accept _ hopen => exact ⟨m + 1, h.accept hopen _⟩
  | register hqueue =>
      have h' := h.register hwf.span hqueue
      exact ⟨m, h'.le, h'.full, h'.held, h'.completed, h'.kept⟩
  | registerCrash hqueue =>
      have h' := h.register hwf.span hqueue
      exact ⟨m, h'.le, h'.full, h'.held, h'.completed, h'.kept⟩
  | send hnext => exact ⟨m, h.send hnext⟩
  | @unsent input seq item packet what hnext hpacket hsend =>
      have hseq := hdrops seq ⟨rfl, item, hnext, Or.inl (by simp [hsend])⟩
      refine ⟨m, h.drop hseq rfl rfl rfl ?_ ?_
        (hcompleted fun _ _ => by simp)⟩
      · intro q hne
        simp [discard, launch, Lane.popPending, Dict.mem_keys, hne]
      · simp [discard, Dict.mem_keys]
  | @unencodable input seq item e hnext hpacket =>
      have hseq := hdrops seq ⟨rfl, item, hnext, Or.inr (by simp [hpacket])⟩
      exact ⟨m, h.drop hseq rfl rfl rfl (fun _ _ => Iff.rfl) (fun hq => hq)
        (hcompleted fun _ _ => by simp)⟩
  | @giveUp input packets e hpackets hfails =>
      refine ⟨m, h.shrink rfl rfl ?_ ?_ (hcompleted fun _ _ => by simp) ?_⟩
      · rintro q (hq | hq)
        · simp [Lane.failPeer] at hq
        · exact Or.inr (List.mem_append_right _ (by
            simpa [waiting, Lane.failPeer, Lane.resend] using hq))
      · intro q hq
        exact List.mem_append_right _ (by
          simpa [waiting, Lane.failPeer, Lane.resend] using hq)
      · rintro q (hq | hq)
        · exact Or.inl (hdrops q ⟨hfails, Or.inl hq⟩)
        · rcases List.mem_append.mp hq with hpending | hqueued
          · exact Or.inl (hdrops q ⟨hfails, Or.inr hpending⟩)
          · exact Or.inr (Or.inr (List.mem_append_right _ hqueued))
  | @ack raw input k base seqs hraw hslide =>
      have hseqs := fun q hq => ((D.slide_sound hslide).covered q hq).1
      exact ⟨m, h.ack hwf.span hseqs
        (hacks raw input k seqs base rfl hraw hslide rfl) base⟩
  | close => exact h.close hwf.span (hcompleted fun _ _ => by simp)
  | _ => exact ⟨m, hsame rfl rfl rfl rfl rfl⟩

end Lane

end UdpArq
