import UdpArq.SelectiveRepeat.Refinement
import UdpArq.Transport.Tally

/-!
# Retries of a Selective Repeat peer

A sweep in which several packets of a peer are due is one retry.  The counter is
cleared by an ACK of an outstanding packet, and by nothing else: `_fail_peer`
leaves it as it is.
-/

namespace UdpArq

namespace SelectiveRepeatTransport

open UdpArq.Core

variable {cfg : Config} {s : SelectiveRepeatTransport}

/-! ## Timeout sweeps -/

/-- The retransmission loop if no send raises. -/
theorem retransmit_core (cfg : Config) {input : SweepInput} {addr : Address}
    (hsend : ∀ seq, input.sendResult addr seq = none) (seqs : List ℕ)
    (s : SelectiveRepeatTransport) (hrun : ¬ s.crashed.isSome)
    (hrto : (s.rto.get? addr).isSome) :
    ∃ s' packets, retransmit cfg input addr seqs s = s' ∧
      s'.retries = s.retries ∧ s'.failures = s.failures ∧
      s'.channel = packets.map (fun packet => (packet, addr)) ++ s.channel ∧
      ((∃ seq ∈ seqs, seq ∈ (sub s.outstanding addr).keys) →
        packets ≠ []) := by
  induction seqs generalizing s with
  | nil => exact ⟨s, [], rfl, rfl, rfl, rfl, fun ⟨_, h, _⟩ => by cases h⟩
  | cons seq rest ih =>
      rcases hget : (sub s.outstanding addr).get? seq with _ | packet
      · obtain ⟨s', packets, hs', hretries, hfailures, hchannel, hne⟩ :=
          ih s hrun hrto
        refine ⟨s', packets, ?_, hretries, hfailures, hchannel, ?_⟩
        · simp only [retransmit, hget]
          exact hs'
        · rintro ⟨q, hq, hout⟩
          rcases List.mem_cons.mp hq with rfl | hrest
          · exact absurd hout (Dict.get?_eq_none_iff.mp hget)
          · exact hne ⟨q, hrest, hout⟩
      · obtain ⟨heap, harm⟩ := armTimer_spec cfg
          { s with
            retransmitted := s.retransmitted.set addr
              (insert seq (s.retransmitted.getD addr ∅))
            retransmissions := s.retransmissions + 1 } hrto seq
          (input.rearmAt addr seq)
        obtain ⟨s', packets, hs', hretries, hfailures, hchannel, -⟩ :=
          ih { s with
            toCore := { s.toCore with
              retransmitted := s.retransmitted.set addr
                (insert seq (s.retransmitted.getD addr ∅)) }.transmit packet addr
            retransmissions := s.retransmissions + 1
            timerHeap := heap } hrun hrto
        refine ⟨s', packets ++ [packet], ?_, hretries, hfailures, ?_, by simp⟩
        · simp only [retransmit, hget, harm, if_neg hrun, hsend]
          exact hs'
        · rw [hchannel]
          simp [transmit]

/-- The visit of a peer with due packets. -/
theorem timeoutPeer_tally (cfg : Config) {input : SweepInput} {addr : Address}
    (hsend : ∀ seq, input.sendResult addr seq = none)
    {s : SelectiveRepeatTransport} (hrun : ¬ s.crashed.isSome)
    (hrto : (s.rto.get? addr).isSome) (seqs : List ℕ) :
    (∀ b, b ≠ addr →
      (timeoutPeer cfg input s addr seqs).tally b = s.tally b) ∧
      ((∃ seq ∈ seqs, seq ∈ (sub s.outstanding addr).keys) →
        Tally.Swept cfg.maxRetries (.noAck addr cfg.maxRetries)
          (s.retries.getD addr 0 + 1 > cfg.maxRetries) (s.tally addr)
          ((timeoutPeer cfg input s addr seqs).tally addr)) := by
  obtain ⟨r, hr⟩ := Option.isSome_iff_exists.mp hrto
  obtain ⟨rto', hrto', hresult⟩ : ∃ rto' : Dict Address RTOEstimator,
      (rto'.get? addr).isSome ∧
      timeoutPeer cfg input s addr seqs =
        if s.retries.getD addr 0 + 1 > cfg.maxRetries then
          failPeer { s with
            retries := s.retries.set addr (s.retries.getD addr 0 + 1)
            rto := rto' } addr (.noAck addr cfg.maxRetries)
        else
          retransmit cfg input addr seqs { s with
            retries := s.retries.set addr (s.retries.getD addr 0 + 1)
            rto := rto' } := by
    by_cases hadaptive : cfg.adaptive
    · refine ⟨s.rto.set addr r.onTimeout, by simp, ?_⟩
      simp only [timeoutPeer, if_pos hadaptive, hr, if_neg hrun]
    · refine ⟨s.rto, hrto, ?_⟩
      simp only [timeoutPeer, if_neg hadaptive, if_neg hrun]
  rw [hresult]
  by_cases hcap : s.retries.getD addr 0 + 1 > cfg.maxRetries
  · rw [if_pos hcap]
    exact ⟨fun b hb => tally_of_ne hb rfl [] rfl (Or.inr ⟨_, rfl⟩),
      fun _ => tally_failed hcap rfl hcap rfl⟩
  · rw [if_neg hcap]
    obtain ⟨s', packets, hs', hretries, hfailures, hchannel, hne⟩ :=
      retransmit_core cfg hsend seqs
        { s with
          retries := s.retries.set addr (s.retries.getD addr 0 + 1)
          rto := rto' } hrun hrto'
    rw [hs']
    exact ⟨fun b hb => tally_of_ne hb hretries packets hchannel (Or.inl hfailures),
      fun hdue => tally_resent hcap hretries (not_lt.mp hcap) (hne hdue) hchannel
        hfailures⟩

/-- A sweep over all peers with due packets. -/
theorem handleTimeouts_tally (h : s.WellFormed) (hrun : ¬ s.crashed.isSome)
    {input : SweepInput} (hsend : ∀ addr seq, input.sendResult addr seq = none)
    (b : Address) :
    Tally.Swept cfg.maxRetries (.noAck b cfg.maxRetries)
      (PeerFails cfg s b input) (s.tally b)
      ((handleTimeouts cfg s input).tally b) := by
  obtain ⟨groups, hgroups⟩ : ∃ groups,
      groupDue s (s.timerHeap.popDue input.now).1 ∅ = groups := ⟨_, rfl⟩
  have hrto : ∀ x ∈ groups.entries, (s.lane x.1).estimator = true :=
    fun x hx => due_estimator h hrun hgroups hx
  have hsweep := foldl_view
    (fun s (x : Address × List ℕ) =>
      if s.crashed.isSome then s else timeoutPeer cfg input s x.1 x.2)
    Prod.fst (fun s => (view b s, s.tally b))
    (fun s => ¬ s.crashed.isSome ∧
      ∀ y ∈ groups.entries, (s.lane y.1).estimator = true) b
    (fun s x hx hs => by
      rw [if_neg hs.1]
      exact timeoutPeer_keeps hs.1 hs.2 input hx)
    (fun s x hx hs hxb => by
      rw [if_neg hs.1]
      exact Prod.ext
        ((timeoutPeer_spec cfg hs.1 input (hs.2 x hx) x.2).1 b (Ne.symm hxb))
        ((timeoutPeer_tally cfg (hsend x.1) hs.1 (hs.2 x hx) x.2).1 b
          (Ne.symm hxb)))
    groups.nodupKeys { s with timerHeap := (s.timerHeap.popDue input.now).2 }
    ⟨hrun, hrto⟩
  rw [handleTimeouts_eq hgroups]
  rcases hsweep with ⟨hnot, hsame⟩ |
    ⟨x, hx, rfl, s', ⟨hrun', hrto'⟩, hview, hfinal⟩
  · refine .idle ?_ (congrArg Prod.snd hsame)
    rintro ⟨seqs, hget, -⟩
    rw [hgroups] at hget
    exact hnot (List.mem_map_of_mem (Dict.mem_entries.mpr hget))
  · have hlane : s'.lane x.1 = s.lane x.1 :=
      congrArg (Prod.fst ∘ Prod.fst) hview
    have hretries : s'.retries.getD x.1 0 = s.retries.getD x.1 0 :=
      congrArg (Prod.snd ∘ Prod.fst) hview
    have htally : s'.tally x.1 = s.tally x.1 := congrArg Prod.snd hview
    have houtstanding : sub s'.outstanding x.1 = sub s.outstanding x.1 :=
      congrArg Lane.outstanding hlane
    have hfails : s'.retries.getD x.1 0 + 1 > cfg.maxRetries ↔
        PeerFails cfg s x.1 input := by
      rw [hretries, PeerFails, hgroups]
      constructor
      · intro hcap
        exact ⟨x.2, Dict.mem_entries.mp hx, Or.inl hcap⟩
      · rintro ⟨seqs, -, hcap | ⟨seq, -, hraise⟩⟩
        · exact hcap
        · exact absurd (hsend x.1 seq) hraise
    have hvisit := (timeoutPeer_tally cfg (hsend x.1) hrun' (hrto' x hx) x.2).2
      (houtstanding ▸ due_outstanding hgroups hx)
    rw [hfails, htally] at hvisit
    rw [if_neg hrun'] at hfinal
    have hlast := congrArg Prod.snd hfinal
    dsimp only at hlast
    rw [hlast]
    exact hvisit

/-! ## Acknowledgements -/

/-- The end of `_handle_ack` clears the counter. -/
theorem finishAck_tally (cfg : Config) (s : SelectiveRepeatTransport)
    {addr : Address} (hrun : ¬ s.crashed.isSome)
    (hrto : (s.rto.get? addr).isSome) (seq : ℕ) (acknowledged : List ℕ)
    (ackedAt : ℚ) (nextSeq base : ℕ) :
    let s₂ : SelectiveRepeatTransport :=
      if cfg.adaptive then
        { s with toCore := s.sampleRtt addr seq acknowledged ackedAt }
      else s
    let s' := if s₂.crashed.isSome then s₂
      else
        { s₂ with
          base := s₂.base.set addr
            (advanceBase (sub s₂.outstanding addr) nextSeq (nextSeq - base) base)
          retries := s₂.retries.set addr 0 }
    s'.retries = s.retries.set addr 0 ∧ s'.failures = s.failures := by
  intro s₂ s'
  obtain ⟨hrun₂, hretries, hfailures⟩ : ¬ s₂.crashed.isSome ∧
      s₂.retries = s.retries ∧ s₂.failures = s.failures := by
    by_cases hadaptive : cfg.adaptive
    · have hs₂ : s₂ = { s with
          toCore := s.sampleRtt addr seq acknowledged ackedAt } :=
        if_pos hadaptive
      have hcrashed : s₂.crashed.isSome = s.crashed.isSome := by
        rw [hs₂]
        exact congrArg Lane.crashed
          (lane_sampleRtt s.toCore ∅ addr addr hrto seq acknowledged ackedAt)
      rw [hcrashed, hs₂]
      exact ⟨hrun, sampleRtt_tally s.toCore addr seq acknowledged ackedAt⟩
    · have hs₂ : s₂ = s := if_neg hadaptive
      rw [hs₂]
      exact ⟨hrun, rfl, rfl⟩
  have hs' : s' = { s₂ with
      base := s₂.base.set addr
        (advanceBase (sub s₂.outstanding addr) nextSeq (nextSeq - base) base)
      retries := s₂.retries.set addr 0 } := if_neg hrun₂
  rw [hs', hretries]
  exact ⟨rfl, hfailures⟩

/-- An ACK clears the counter of its peer, or changes nothing. -/
theorem handleAck_tally (cfg : Config) (h : s.WellFormed)
    (hrun : ¬ s.crashed.isSome) (raw : Bytes) (addr : Address)
    (input : IncomingInput) :
    s.Clears addr (handleAck cfg s raw addr input).toCore := by
  rcases hdecode : decode raw with e | ⟨header, payload⟩
  · simp only [handleAck, hdecode]
    exact .refl addr _
  simp only [handleAck, hdecode]
  by_cases hflag : header.flags &&& FLAG_ACK = 0
  · rw [if_pos hflag]
    exact .refl addr _
  rw [if_neg hflag]
  rcases hbase : s.base.get? addr with _ | base
  · exact .refl addr _
  dsimp only
  by_cases hbeyond : header.ack > s.nextSeq.getD addr base
  · rw [if_pos hbeyond]
    exact .refl addr _
  rw [if_neg hbeyond]
  rcases header.ack with _ | acked
  · exact .refl addr _
  dsimp only
  by_cases hmem : acked ∈ (sub s.outstanding addr).keys
  · have hrto : (s.rto.get? addr).isSome :=
      h.estimator hrun (by simp [hbase])
    rw [if_pos hmem]
    obtain ⟨hretries, hfailures⟩ := finishAck_tally cfg
      { s with
        toCore := s.complete addr [acked]
        timerHeap := s.timerHeap.cancel (addr, acked) } hrun hrto acked [acked]
      input.ackedAt (s.nextSeq.getD addr base) base
    exact ⟨hfailures, Or.inr hretries⟩
  · rw [if_neg hmem]
    exact .refl addr _

end SelectiveRepeatTransport

end UdpArq
