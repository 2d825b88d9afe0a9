import UdpArq.GoBackN.Refinement
import UdpArq.Transport.Tally

/-!
# Retries of a Go-Back-N peer

One timeout is one retry, however many packets are sent again.  The counter is
cleared by an ACK that moves the base, and by nothing else: `_fail_peer` leaves
it as it is.
-/

namespace UdpArq

namespace GoBackNTransport

open UdpArq.Core

variable {cfg : Config} {s : GoBackNTransport}

/-! ## Timeout sweeps -/

/-- The retransmission loop if no send raises. -/
theorem retransmit_core (cfg : Config) {input : SweepInput} {addr : Address}
    (hsend : ∀ seq, input.sendResult addr seq = none)
    (outstanding : Dict ℕ Bytes) (seqs : List ℕ) (s : GoBackNTransport) :
    ∃ s', retransmit cfg input addr outstanding seqs s = s' ∧
      s'.retries = s.retries ∧ s'.failures = s.failures ∧
      s'.channel =
        (seqs.map fun seq => outstanding.getD seq []).reverse.map
          (fun packet => (packet, addr)) ++ s.channel := by
  induction seqs generalizing s with
  | nil => exact ⟨s, rfl, rfl, rfl, rfl⟩
  | cons seq rest ih =>
      obtain ⟨s₁, hs₁, hkeeps⟩ : ∃ s₁ : GoBackNTransport,
          (if cfg.adaptive then
            { s with
              retransmitted := s.retransmitted.set addr
                (insert seq (s.retransmitted.getD addr ∅)) }
          else s) = s₁ ∧ s₁.retries = s.retries ∧ s₁.failures = s.failures ∧
            s₁.channel = s.channel := by
        refine ⟨_, rfl, ?_⟩
        split <;> exact ⟨rfl, rfl, rfl⟩
      obtain ⟨hretries₁, hfailures₁, hchannel₁⟩ := hkeeps
      obtain ⟨s', hs', hretries, hfailures, hchannel⟩ :=
        ih { s₁ with toCore := s₁.transmit (outstanding.getD seq []) addr }
      refine ⟨s', ?_, hretries.trans hretries₁, hfailures.trans hfailures₁, ?_⟩
      · simp only [retransmit, hs₁, hsend]
        exact hs'
      · rw [hchannel]
        simp [transmit, hchannel₁]

/-- The restart of the timer touches no tally. -/
theorem restartTimer_core (cfg : Config) (s : GoBackNTransport) (addr : Address) (now : ℚ) :
    (restartTimer cfg s addr now).retries = s.retries ∧
      (restartTimer cfg s addr now).failures = s.failures ∧
      (restartTimer cfg s addr now).channel = s.channel := by
  unfold restartTimer
  by_cases hempty : (sub s.outstanding addr).keys = []
  · rw [if_pos hempty]
    exact ⟨rfl, rfl, rfl⟩
  · rw [if_neg hempty]
    by_cases hadaptive : cfg.adaptive
    · simp only [if_pos hadaptive]
      rcases s.rto.get? addr with _ | r
      · dsimp only
        split <;> exact ⟨rfl, rfl, rfl⟩
      · dsimp only
        split <;> exact ⟨rfl, rfl, rfl⟩
    · simp only [if_neg hadaptive]
      split <;> exact ⟨rfl, rfl, rfl⟩

/-- The visit of one peer. -/
theorem timeoutPeer_tally (cfg : Config) {input : SweepInput} {addr : Address}
    (hsend : ∀ seq, input.sendResult addr seq = none) (s : GoBackNTransport) :
    (∀ b, b ≠ addr →
      (timeoutPeer cfg input s addr).tally b = s.tally b) ∧
      Tally.Swept cfg.maxRetries (.noAck addr cfg.maxRetries)
        (PeerFails cfg s addr input) (s.tally addr)
        ((timeoutPeer cfg input s addr).tally addr) := by
  rcases htimer : s.timerDeadline.getD addr none with _ | deadline
  · have hidle : timeoutPeer cfg input s addr = s := by
      simp only [timeoutPeer, htimer]
    rw [hidle]
    refine ⟨fun _ _ => rfl, .idle ?_ rfl⟩
    rintro ⟨⟨deadline, hdeadline, -⟩, -⟩
    rw [htimer] at hdeadline
    cases hdeadline
  by_cases hdue : input.now < deadline
  · have hidle : timeoutPeer cfg input s addr = s := by
      simp only [timeoutPeer, htimer, if_pos hdue]
    rw [hidle]
    refine ⟨fun _ _ => rfl, .idle ?_ rfl⟩
    rintro ⟨⟨deadline', hdeadline, hle⟩, -⟩
    rw [htimer, Option.some.injEq] at hdeadline
    exact absurd hle (not_le.mpr (hdeadline ▸ hdue))
  by_cases hempty : (sub s.outstanding addr).keys = []
  · have hclear : timeoutPeer cfg input s addr =
        { s with timerDeadline := s.timerDeadline.set addr none } := by
      simp only [timeoutPeer, htimer, if_neg hdue, if_pos hempty]
    rw [hclear]
    exact ⟨fun _ _ => rfl, .idle (fun h => h.2.1 hempty) rfl⟩
  by_cases hcap : s.retries.getD addr 0 + 1 > cfg.maxRetries
  · have hfail : timeoutPeer cfg input s addr =
        failPeer { s with
          retries := s.retries.set addr (s.retries.getD addr 0 + 1) } addr
          (.noAck addr cfg.maxRetries) := by
      simp only [timeoutPeer, htimer, if_neg hdue, if_neg hempty, if_pos hcap]
    rw [hfail]
    refine ⟨fun b hb => tally_of_ne hb rfl [] rfl
      (Or.inr ⟨_, rfl⟩), tally_failed ?_ rfl hcap rfl⟩
    exact ⟨⟨deadline, htimer, not_lt.mp hdue⟩, hempty, Or.inl hcap⟩
  · obtain ⟨s₁, hs₁, hretries₁, hfailures₁, hchannel₁⟩ :=
      retransmit_core cfg hsend (sub s.outstanding addr)
        ((sub s.outstanding addr).keys.insertionSort fun a b => a ≤ b)
        { s with
          retries := s.retries.set addr (s.retries.getD addr 0 + 1) }
    obtain ⟨hretries₂, hfailures₂, hchannel₂⟩ :=
      restartTimer_core cfg s₁ addr (input.restartAt addr)
    have hresend : timeoutPeer cfg input s addr =
        restartTimer cfg s₁ addr (input.restartAt addr) := by
      simp only [timeoutPeer, htimer, if_neg hdue, if_neg hempty, if_neg hcap]
      rw [← hs₁]
    rw [hresend]
    refine ⟨fun b hb => ?_, ?_⟩
    · exact tally_of_ne hb (hretries₂.trans hretries₁) _
        (hchannel₂.trans hchannel₁) (Or.inl (hfailures₂.trans hfailures₁))
    · refine tally_resent ?_ (hretries₂.trans hretries₁) (not_lt.mp hcap) ?_
        (hchannel₂.trans hchannel₁) (hfailures₂.trans hfailures₁)
      · rintro ⟨-, -, hused | ⟨seq, -, hraise⟩⟩
        · exact hcap hused
        · exact hraise (hsend seq)
      · intro hnil
        apply hempty
        have hlength := congrArg List.length hnil
        simpa using hlength

theorem peerFails_congr {s s' : GoBackNTransport} {addr : Address}
    (hview : view addr s' = view addr s) (input : SweepInput) :
    PeerFails cfg s' addr input ↔ PeerFails cfg s addr input := by
  simp only [view, Prod.mk.injEq] at hview
  obtain ⟨hlane, htimer, hretries⟩ := hview
  have houtstanding : sub s'.outstanding addr = sub s.outstanding addr :=
    congrArg Lane.outstanding hlane
  rw [PeerFails, PeerFails, htimer, hretries, houtstanding]

/-- A sweep over all peers. -/
theorem handleTimeouts_tally (h : s.WellFormed) (hrun : ¬ s.crashed.isSome)
    {input : SweepInput} (hsend : ∀ addr seq, input.sendResult addr seq = none)
    (b : Address) :
    Tally.Swept cfg.maxRetries (.noAck b cfg.maxRetries)
      (PeerFails cfg s b input) (s.tally b)
      ((handleTimeouts cfg s input).tally b) := by
  have hsweep := foldl_view
    (fun s addr => if s.crashed.isSome then s else timeoutPeer cfg input s addr)
    id (fun s => (view b s, s.tally b))
    (fun s => s.WellFormed ∧ ¬ s.crashed.isSome) b
    (fun s addr _ hs => by
      rw [if_neg hs.2]
      exact timeoutPeer_wellFormed hs.1 hs.2 input addr)
    (fun s addr _ hs haddr => by
      rw [if_neg hs.2]
      exact Prod.ext ((timeoutPeer_spec hs.1 hs.2 input addr).1 b (Ne.symm haddr))
        ((timeoutPeer_tally cfg (hsend addr) s).1 b (Ne.symm haddr)))
    (by simpa using s.timerDeadline.nodup_keys) s ⟨h, hrun⟩
  rcases hsweep with ⟨hnot, hsame⟩ | ⟨x, -, rfl, s', ⟨-, hrun'⟩, hview, hfinal⟩
  · refine .idle ?_ (congrArg Prod.snd hsame)
    rintro ⟨⟨deadline, hdeadline, -⟩, -⟩
    have hnone : s.timerDeadline.getD b none = none := by
      rw [List.map_id] at hnot
      rw [Dict.getD, Dict.get?_eq_none_iff.mpr hnot]
      rfl
    rw [hnone] at hdeadline
    cases hdeadline
  · have hview' : view x s' = view x s := congrArg Prod.fst hview
    have htally : s'.tally x = s.tally x := congrArg Prod.snd hview
    have hvisit := (timeoutPeer_tally cfg (hsend x) s').2
    rw [peerFails_congr hview' input, htally] at hvisit
    rw [if_neg hrun'] at hfinal
    have hlast : (handleTimeouts cfg s input).tally x =
        (timeoutPeer cfg input s' x).tally x := congrArg Prod.snd hfinal
    rw [← hlast] at hvisit
    exact hvisit

/-! ## Acknowledgements -/

theorem restartAfterAck_tally (cfg : Config) (s : GoBackNTransport)
    (addr : Address) (ack nextSeq : ℕ) (now : ℚ) :
    (restartAfterAck cfg s addr ack nextSeq now).retries = s.retries ∧
      (restartAfterAck cfg s addr ack nextSeq now).failures = s.failures := by
  unfold restartAfterAck
  split_ifs
  · split <;> exact ⟨rfl, rfl⟩
  · exact ⟨rfl, rfl⟩

/-- The end of `_handle_ack` touches neither counters nor failures. -/
theorem finishAck_tally (cfg : Config) (s : GoBackNTransport) (addr : Address)
    (base : ℕ) (acknowledged : List ℕ) (ackedAt : ℚ) (ack nextSeq : ℕ)
    (now : ℚ) :
    let s₂ : GoBackNTransport :=
      if cfg.adaptive then
        { s with toCore := s.sampleRtt addr base acknowledged ackedAt }
      else s
    let s' := if s₂.crashed.isSome then s₂
      else restartAfterAck cfg s₂ addr ack nextSeq now
    s'.retries = s.retries ∧ s'.failures = s.failures := by
  intro s₂ s'
  have hkeeps : s₂.retries = s.retries ∧ s₂.failures = s.failures := by
    by_cases hadaptive : cfg.adaptive
    · have hs₂ : s₂ = { s with
          toCore := s.sampleRtt addr base acknowledged ackedAt } :=
        if_pos hadaptive
      rw [hs₂]
      exact sampleRtt_tally s.toCore addr base acknowledged ackedAt
    · have hs₂ : s₂ = s := if_neg hadaptive
      rw [hs₂]
      exact ⟨rfl, rfl⟩
  by_cases hrun : s₂.crashed.isSome
  · have hs' : s' = s₂ := if_pos hrun
    rwa [hs']
  · have hs' : s' = restartAfterAck cfg s₂ addr ack nextSeq now := if_neg hrun
    obtain ⟨hretries, hfailures⟩ :=
      restartAfterAck_tally cfg s₂ addr ack nextSeq now
    rw [hs', hretries, hfailures]
    exact hkeeps

/-- An ACK clears the counter of its peer, or changes nothing. -/
theorem handleAck_tally (cfg : Config) (s : GoBackNTransport) (raw : Bytes)
    (addr : Address) (input : IncomingInput) :
    s.Clears addr (handleAck cfg s raw addr input).toCore := by
  rcases hdecode : decode raw with e | ⟨header, payload⟩
  · simp only [handleAck, hdecode]
    exact .refl addr _
  simp only [handleAck, hdecode]
  by_cases hflag : header.flags &&& FLAG_ACK = 0
  · rw [if_pos hflag]
    exact .refl addr _
  rw [if_neg hflag]
  rcases s.base.get? addr with _ | base
  · exact .refl addr _
  dsimp only
  by_cases hstale : header.ack ≤ base
  · rw [if_pos hstale]
    exact .refl addr _
  rw [if_neg hstale]
  by_cases hbeyond : header.ack > s.nextSeq.getD addr base
  · rw [if_pos hbeyond]
    exact .refl addr _
  rw [if_neg hbeyond]
  obtain ⟨hretries, hfailures⟩ := finishAck_tally cfg
    { s with
      toCore := { s.complete addr
          ((sub s.outstanding addr).keys.filter fun q => q < header.ack) with
        base := s.base.set addr header.ack
        retries := s.retries.set addr 0 } } addr base
    ((sub s.outstanding addr).keys.filter fun q => q < header.ack) input.ackedAt
    header.ack (s.nextSeq.getD addr base) input.restartAt
  exact ⟨hfailures, Or.inr hretries⟩

end GoBackNTransport

end UdpArq
