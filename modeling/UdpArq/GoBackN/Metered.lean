import UdpArq.GoBackN.Refinement
import UdpArq.GoBackN.Tally
import UdpArq.Transport.Metered

/-!
# Send times of a Go-Back-N sender

The timeout handler marks a packet as retransmitted before it sends it again, so
a packet that is still unmarked has been sent once.  An acknowledgement samples
the old base, and moves the base beyond it.
-/

namespace UdpArq

namespace GoBackNTransport

open UdpArq.Core

/-! ## The calls of the channel -/

/-- The calls made by the retransmission loop of `_handle_timeouts`, up to the
first one that raises. -/
def resends (input : SweepInput) (addr : Address) (outstanding : Dict ℕ Bytes) :
    List ℕ → List Attempt
  | [] => []
  | seq :: rest =>
      ⟨addr, seq, outstanding.getD seq [], none, input.sendResult addr seq⟩ ::
        match input.sendResult addr seq with
        | some _ => []
        | none => resends input addr outstanding rest

/-- The calls made by `_handle_timeouts` for one peer. -/
def peerAttempts (cfg : Config) (input : SweepInput) (s : GoBackNTransport)
    (addr : Address) : List Attempt :=
  match s.timerDeadline.getD addr none with
  | none => []
  | some deadline =>
      if input.now < deadline then []
      else
        let outstanding := sub s.outstanding addr
        if outstanding.keys = [] then []
        else if s.retries.getD addr 0 + 1 > cfg.maxRetries then []
        else resends input addr outstanding
          (outstanding.keys.insertionSort fun a b => a ≤ b)

/-- One visit of `_handle_timeouts`. -/
def visit (cfg : Config) (input : SweepInput) (s : GoBackNTransport)
    (addr : Address) : GoBackNTransport :=
  if s.crashed.isSome then s else timeoutPeer cfg input s addr

/-- The calls made by one visit. -/
def visitAttempts (cfg : Config) (input : SweepInput) (s : GoBackNTransport)
    (addr : Address) : List Attempt :=
  if s.crashed.isSome then [] else peerAttempts cfg input s addr

/-- The calls made by `_handle_timeouts`. -/
def sweepAttempts (cfg : Config) (s : GoBackNTransport) (input : SweepInput) :
    List Attempt :=
  (s.timerDeadline.keys.foldl
    (sweepStep (visit cfg input) (visitAttempts cfg input)) (s, [])).2

/-- The call made by `_pump_windows` for one packet. -/
def pumpAttempts (cfg : Config) (s : GoBackNTransport) (addr : Address)
    (input : PumpInput) : List Attempt :=
  match s.nextToSend cfg addr with
  | none => []
  | some (seq, item) =>
      match dataPacket seq item.data with
      | .error _ => []
      | .ok packet =>
          let s : GoBackNTransport := { s with
            toCore := (s.popPending addr seq).launch addr seq item packet
              input.sentAt }
          if (armTimer cfg s addr seq input.timerAt).crashed.isSome then []
          else [⟨addr, seq, packet, some input.sentAt, input.sendResult⟩]

/-- The calls of `channel.sendto` for DATA packets that one step makes. -/
def attempts (cfg : Config) (s : GoBackNTransport) : Event → List Attempt
  | .pump addr input =>
      if s.crashed.isSome then [] else pumpAttempts cfg s addr input
  | .timeouts input => if s.crashed.isSome then [] else sweepAttempts cfg s input
  | _ => []

/-- The call of `sample` that `_handle_ack` makes. -/
def ackSample (cfg : Config) (s : GoBackNTransport) (ack : ℕ) (addr : Address)
    (input : IncomingInput) : Option (Address × ℕ × ℚ) :=
  match s.base.get? addr with
  | none => none
  | some base =>
      if ack ≤ base then none
      else if ack > s.nextSeq.getD addr base then none
      else if cfg.adaptive then
        (s.rttSample addr base input.ackedAt).map fun rtt => (addr, base, rtt)
      else none

/-- The call of `sample` that one step makes. -/
def sampled (cfg : Config) (s : GoBackNTransport) :
    Event → Option (Address × ℕ × ℚ)
  | .incoming raw addr input =>
      if s.crashed.isSome then none
      else
        match ackOf raw with
        | none => none
        | some ack => ackSample cfg s ack addr input
  | _ => none

variable {cfg : Config} {s : GoBackNTransport}

/-! ## Timeout sweeps -/

/-- The retransmission loop makes its calls, and in adaptive mode marks what it
sends. -/
theorem retransmit_metered (cfg : Config) (input : SweepInput) (addr : Address)
    (outstanding : Dict ℕ Bytes) (seqs : List ℕ) (s : GoBackNTransport) :
    ∃ s', retransmit cfg input addr outstanding seqs s = s' ∧
      s'.channel = Attempt.taken (resends input addr outstanding seqs) ++
        s.channel ∧
      s'.sendTime = s.sendTime ∧
      (∀ b, b ≠ addr → s'.retransmitted.getD b ∅ = s.retransmitted.getD b ∅) ∧
      s.retransmitted.getD addr ∅ ⊆ s'.retransmitted.getD addr ∅ ∧
      ∀ a ∈ resends input addr outstanding seqs,
        a.addr = addr ∧ a.seq ∈ seqs ∧ (cfg.adaptive = true →
          a.seq ∈ s'.retransmitted.getD addr ∅) := by
  induction seqs generalizing s with
  | nil =>
      exact ⟨s, rfl, rfl, rfl, fun _ _ => rfl, Finset.Subset.refl _,
        fun a ha => by cases ha⟩
  | cons seq rest ih =>
      obtain ⟨s₁, hs₁, hchannel₁, htime₁, hother₁, hmarks₁, hmark₁⟩ :
          ∃ s₁ : GoBackNTransport,
            (if cfg.adaptive then
              { s with
                retransmitted := s.retransmitted.set addr
                  (insert seq (s.retransmitted.getD addr ∅)) }
            else s) = s₁ ∧ s₁.channel = s.channel ∧
              s₁.sendTime = s.sendTime ∧
              (∀ b, b ≠ addr →
                s₁.retransmitted.getD b ∅ = s.retransmitted.getD b ∅) ∧
              s.retransmitted.getD addr ∅ ⊆ s₁.retransmitted.getD addr ∅ ∧
              (cfg.adaptive = true →
                seq ∈ s₁.retransmitted.getD addr ∅) := by
        refine ⟨_, rfl, ?_⟩
        by_cases hadaptive : cfg.adaptive = true
        · simp +contextual [hadaptive, Dict.getD]
        · simp [hadaptive]
      rcases hsend : input.sendResult addr seq with _ | what
      · obtain ⟨s', hs', hchannel, htime, hother, hmarks, hsent⟩ :=
          ih { s₁ with
            toCore := s₁.transmit (outstanding.getD seq []) addr }
        refine ⟨s', ?_, ?_, htime.trans htime₁, fun b hb => ?_,
          hmarks₁.trans hmarks, ?_⟩
        · simp only [retransmit, hs₁, hsend]
          exact hs'
        · rw [hchannel]
          simp [resends, hsend, Attempt.taken, transmit, hchannel₁]
        · exact (hother b hb).trans (hother₁ b hb)
        · intro a ha
          simp only [resends, hsend, List.mem_cons] at ha
          rcases ha with rfl | ha
          · exact ⟨rfl, List.mem_cons_self,
              fun hadaptive => hmarks (hmark₁ hadaptive)⟩
          · obtain ⟨haddr, hmem, hmark⟩ := hsent a ha
            exact ⟨haddr, List.mem_cons_of_mem _ hmem, hmark⟩
      · refine ⟨failPeer s₁ addr (.channel what), ?_, ?_, htime₁, hother₁,
          hmarks₁, ?_⟩
        · simp only [retransmit, hs₁, hsend]
        · simp only [resends, hsend]
          exact hchannel₁
        · intro a ha
          simp only [resends, hsend, List.mem_singleton] at ha
          subst ha
          exact ⟨rfl, List.mem_cons_self, hmark₁⟩

/-- The restart of the timer touches no send time. -/
theorem restartTimer_timing (cfg : Config) (s : GoBackNTransport)
    (addr : Address) (now : ℚ) (b : Address) :
    (restartTimer cfg s addr now).timing b = s.timing b := by
  unfold restartTimer
  split_ifs
  · rfl
  · dsimp only
    split <;> split <;> rfl
  · dsimp only
    split <;> rfl

theorem timeoutPeer_visited (cfg : Config) (input : SweepInput)
    (addr : Address) (s : GoBackNTransport) :
    s.Visited (timeoutPeer cfg input s addr).toCore addr (cfg.adaptive = true)
      (peerAttempts cfg input s addr) := by
  rcases htimer : s.timerDeadline.getD addr none with _ | deadline
  · simp only [timeoutPeer, peerAttempts, htimer]
    exact .idle rfl fun _ => rfl
  by_cases hdue : input.now < deadline
  · simp only [timeoutPeer, peerAttempts, htimer, if_pos hdue]
    exact .idle rfl fun _ => rfl
  by_cases hempty : (sub s.outstanding addr).keys = []
  · simp only [timeoutPeer, peerAttempts, htimer, if_neg hdue, if_pos hempty]
    exact .idle rfl fun _ => rfl
  by_cases hcap : s.retries.getD addr 0 + 1 > cfg.maxRetries
  · simp only [timeoutPeer, peerAttempts, htimer, if_neg hdue, if_neg hempty,
      if_pos hcap]
    exact .idle rfl fun _ => rfl
  simp only [timeoutPeer, peerAttempts, htimer, if_neg hdue, if_neg hempty,
    if_neg hcap]
  obtain ⟨s₁, hs₁, hchannel, htime, hother, hmarks, hsent⟩ :=
    retransmit_metered cfg input addr (sub s.outstanding addr)
      ((sub s.outstanding addr).keys.insertionSort fun a b => a ≤ b)
      { s with
        retries := s.retries.set addr (s.retries.getD addr 0 + 1) }
  rw [hs₁]
  constructor
  · rw [(restartTimer_core cfg s₁ addr (input.restartAt addr)).2.2]
    exact hchannel
  · intro b hb
    rw [restartTimer_timing, timing, timing, htime, hother b hb]
  · intro hadaptive q x hq
    rw [restartTimer_timing] at hq
    obtain ⟨hget, hmark⟩ := hq
    refine ⟨⟨?_, fun hmem => hmark (hmarks hmem)⟩, fun a ha heq => ?_⟩
    · simp only [timing, htime] at hget
      exact hget
    · exact hmark (heq ▸ (hsent a ha).2.2 hadaptive)
  · intro a ha
    obtain ⟨haddr, hmem, -⟩ := hsent a ha
    exact ⟨haddr, (List.mem_insertionSort _).mp hmem⟩

theorem visit_visited (cfg : Config) (input : SweepInput)
    (s : GoBackNTransport) (addr : Address) :
    s.Visited (visit cfg input s addr).toCore addr (cfg.adaptive = true)
      (visitAttempts cfg input s addr) := by
  unfold visit visitAttempts
  split_ifs
  · exact .idle rfl fun _ => rfl
  · exact timeoutPeer_visited cfg input addr s

theorem handleTimeouts_eq_fst (s : GoBackNTransport) (input : SweepInput) :
    handleTimeouts cfg s input =
      (s.timerDeadline.keys.foldl
        (sweepStep (visit cfg input) (visitAttempts cfg input)) (s, [])).1 :=
  (fst_foldl_sweepStep s.timerDeadline.keys (s, [])).symm

theorem handleTimeouts_channel (s : GoBackNTransport) (input : SweepInput) :
    (handleTimeouts cfg s input).channel =
      Attempt.taken (sweepAttempts cfg s input) ++ s.channel := by
  rw [handleTimeouts_eq_fst]
  exact foldl_sweepStep_channel (fun s : GoBackNTransport => s.toCore) id
    (fun _ => True) (fun _ _ _ _ => trivial)
    (fun s addr _ _ => visit_visited cfg input s addr) (s, []) trivial rfl

/-- A sweep over all peers. -/
theorem handleTimeouts_metered (h : s.WellFormed) (hrun : ¬ s.crashed.isSome)
    (hadaptive : cfg.adaptive = true) (input : SweepInput) (b : Address) :
    (s.timing b).Narrows ((handleTimeouts cfg s input).timing b)
        (Attempt.toPeer b (sweepAttempts cfg s input)) ∧
      ∀ a ∈ Attempt.toPeer b (sweepAttempts cfg s input),
        a.seq ∈ (sub s.outstanding b).keys := by
  rw [handleTimeouts_eq_fst]
  refine foldl_sweepStep_narrows (fun s : GoBackNTransport => s.toCore) id
    (fun s => s.WellFormed ∧ ¬ s.crashed.isSome) ?_
    (fun s addr _ _ => visit_visited cfg input s addr) ?_
    (by simpa using s.timerDeadline.nodup_keys) ⟨h, hrun⟩ hadaptive b
  · intro s addr _ hs
    rw [visit, if_neg hs.2]
    exact timeoutPeer_wellFormed hs.1 hs.2 input addr
  · intro s addr _ hs b hb
    rw [visit, if_neg hs.2]
    have hview := (@timeoutPeer_spec cfg s hs.1 hs.2 input addr).1 b hb
    exact congrArg (fun v : Lane × Option ℚ × ℕ => v.1.outstanding) hview

/-! ## Acknowledgements -/

theorem restartAfterAck_metered (cfg : Config) (s : GoBackNTransport)
    (addr : Address) (ack nextSeq : ℕ) (now : ℚ) :
    (restartAfterAck cfg s addr ack nextSeq now).rto = s.rto ∧
      ∀ b, (restartAfterAck cfg s addr ack nextSeq now).timing b =
        s.timing b := by
  unfold restartAfterAck
  split_ifs
  · split <;> exact ⟨rfl, fun _ => rfl⟩
  · exact ⟨rfl, fun _ => rfl⟩

/-- The end of `_handle_ack`: the round-trip sample and the timer. -/
theorem finishAck_metered (cfg : Config) (s : GoBackNTransport)
    (addr : Address) (base : ℕ) (acknowledged : List ℕ) (ackedAt : ℚ)
    (ack nextSeq : ℕ) (now : ℚ) :
    ∃ s' : GoBackNTransport,
      (let s₂ : GoBackNTransport :=
        if cfg.adaptive then
          { s with
            toCore := s.sampleRtt addr base acknowledged ackedAt }
        else s
      if s₂.crashed.isSome then s₂
      else restartAfterAck cfg s₂ addr ack nextSeq now) = s' ∧
      s'.rto = feed s.rto (if cfg.adaptive then
        (s.rttSample addr base ackedAt).map fun rtt => (addr, base, rtt)
      else none) ∧
      ∀ b, (s.timing b).Narrows (s'.timing b) [] := by
  obtain ⟨s₂, hs₂⟩ : ∃ s₂ : GoBackNTransport,
      (if cfg.adaptive then
        { s with toCore := s.sampleRtt addr base acknowledged ackedAt }
      else s) = s₂ := ⟨_, rfl⟩
  have hrto₂ : s₂.rto = feed s.rto (if cfg.adaptive then
      (s.rttSample addr base ackedAt).map fun rtt => (addr, base, rtt)
    else none) := by
    rw [← hs₂]
    split_ifs
    · have hspec := (sampleRtt_spec s.toCore addr addr base acknowledged
        ackedAt).1
      rw [hspec]
      rcases s.rttSample addr base ackedAt with _ | rtt <;> rfl
    · rfl
  have hnarrows₂ : ∀ b, (s.timing b).Narrows (s₂.timing b) [] := by
    intro b
    rw [← hs₂]
    split_ifs
    · exact fun q x hq => ⟨samples_sampleRtt s.toCore addr b base acknowledged
        ackedAt hq, by simp⟩
    · exact .of_eq rfl
  simp only [hs₂]
  refine ⟨_, rfl, ?_⟩
  by_cases hcrashed : s₂.crashed.isSome
  · simp only [if_pos hcrashed]
    exact ⟨hrto₂, hnarrows₂⟩
  · simp only [if_neg hcrashed]
    obtain ⟨hrto, htiming⟩ :=
      restartAfterAck_metered cfg s₂ addr ack nextSeq now
    refine ⟨hrto.trans hrto₂, fun b => ?_⟩
    rw [htiming b]
    exact hnarrows₂ b

theorem handleAck_metered (cfg : Config) (s : GoBackNTransport)
    {raw payload : Bytes} {header : Header}
    (hdecode : decode raw = .ok (header, payload))
    (hflag : header.flags &&& FLAG_ACK ≠ 0) (addr : Address)
    (input : IncomingInput) :
    (handleAck cfg s raw addr input).rto =
        feed s.rto (ackSample cfg s header.ack addr input) ∧
      ∀ b, (s.timing b).Narrows
        ((handleAck cfg s raw addr input).timing b) [] := by
  rcases hget : s.base.get? addr with _ | base
  · simp only [handleAck, hdecode, if_neg hflag, ackSample, hget]
    exact ⟨rfl, fun _ => .of_eq rfl⟩
  by_cases hstale : header.ack ≤ base
  · simp only [handleAck, hdecode, if_neg hflag, ackSample, hget, if_pos hstale]
    exact ⟨rfl, fun _ => .of_eq rfl⟩
  by_cases hbeyond : header.ack > s.nextSeq.getD addr base
  · simp only [handleAck, hdecode, if_neg hflag, ackSample, hget,
      if_neg hstale, if_pos hbeyond]
    exact ⟨rfl, fun _ => .of_eq rfl⟩
  obtain ⟨s', hs', hrto, hnarrows⟩ := finishAck_metered cfg
    { s with
      toCore := { s.complete addr
          ((sub s.outstanding addr).keys.filter fun q => q < header.ack) with
        base := s.base.set addr header.ack
        retries := s.retries.set addr 0 } }
    addr base ((sub s.outstanding addr).keys.filter fun q => q < header.ack)
    input.ackedAt header.ack (s.nextSeq.getD addr base) input.restartAt
  have hack : handleAck cfg s raw addr input = s' := by
    rw [← hs']
    simp only [handleAck, hdecode, hflag, if_false, hget, hstale, hbeyond]
  rw [hack]
  refine ⟨hrto.trans ?_, hnarrows⟩
  simp only [ackSample, hget, if_neg hstale, if_neg hbeyond]
  rfl

/-- The step calls `sample` as `_handle_ack` does. -/
theorem step_incoming_metered (cfg : Config) (s : GoBackNTransport) (raw : Bytes)
    (addr : Address) (input : IncomingInput) :
    (step cfg s (.incoming raw addr input)).rto =
        feed s.rto (sampled cfg s (.incoming raw addr input)) ∧
      ∀ b, (s.timing b).Narrows
        ((step cfg s (.incoming raw addr input)).timing b) [] := by
  refine (handled cfg).incoming_metered (handlesAcks cfg)
    (fun ack => ackSample cfg s ack addr input) ?_
  rintro _ ⟨-, header, payload, hdecode, hflag, rfl⟩
  exact handleAck_metered cfg s hdecode hflag addr input

/-! ## The metered endpoint -/

theorem sampled_spec (h : s.WellFormed) {e : Event} {addr : Address} {seq : ℕ}
    {rtt : ℚ} (hsample : sampled cfg s e = some (addr, seq, rtt)) :
    cfg.adaptive = true ∧ ¬ s.crashed.isSome ∧ s.base.get? addr = some seq ∧
      ∃ raw input sentAt ack, e = .incoming raw addr input ∧ IsAck raw ack ∧
        seq < ack ∧ ack ≤ (s.lane addr).nextSeq ∧
        (s.timing addr).Samples seq sentAt ∧
        rtt = max (1 / 10000) (input.ackedAt - sentAt) := by
  rcases e with _ | _ | _ | _ | _ | _ | ⟨raw, a, input⟩
  · cases hsample
  · cases hsample
  · cases hsample
  · cases hsample
  · cases hsample
  · cases hsample
  simp only [sampled] at hsample
  by_cases hrun : s.crashed.isSome
  · simp only [if_pos hrun] at hsample
    cases hsample
  simp only [if_neg hrun] at hsample
  rcases hack : ackOf raw with _ | ack
  · simp only [hack] at hsample
    cases hsample
  simp only [hack, ackSample] at hsample
  rcases hbase : s.base.get? a with _ | base
  · simp only [hbase] at hsample
    cases hsample
  simp only [hbase] at hsample
  split_ifs at hsample with hstale hbeyond hadaptive
  obtain ⟨rtt', hrtt, heq⟩ := Option.map_eq_some_iff.mp hsample
  cases heq
  obtain ⟨sentAt, hsamples, hvalue⟩ := rttSample_eq_some _ _ _ _ hrtt
  have hnext : s.nextSeq.getD addr seq = (s.lane addr).nextSeq :=
    Dict.getD_of_ne_default ((h addr).ready.base_le seq hbase).2.ne' seq
  exact ⟨hadaptive, hrun, hbase, raw, input, sentAt, ack, rfl,
    ackOf_eq_some_iff.mp hack, not_le.mp hstale,
    (not_lt.mp hbeyond).trans_eq hnext, hsamples, hvalue⟩

theorem meters (cfg : Config) :
    (handled cfg).Meters (attempts cfg) (sweepAttempts cfg) where
  attempts_eq _ e := by cases e <;> rfl
  channel := handleTimeouts_channel
  timeouts _ input b hadaptive h hrun :=
    handleTimeouts_metered h hrun hadaptive input b
  incoming s raw addr input b := (step_incoming_metered cfg s raw addr input).2 b

/-- A Go-Back-N transport with its attempts and samples. -/
def metered (cfg : Config) : Metered cfg where
  toEndpoint := endpoint cfg
  attempts := attempts cfg
  sampled := sampled cfg
  spent s addr q := q < s.base.getD addr 0
  channel_eq _ _ h he := (meters cfg).channel_eq h he
  attempts_incoming _ _ _ _ := rfl
  timing_init _ := rfl
  rto_eq s raw addr input := (step_incoming_metered cfg s raw addr input).1
  timing_step hadaptive _ e b h := (meters cfg).timing_step hadaptive h e b
  sampled_spec s e addr seq rtt h hsample := by
    obtain ⟨hadaptive, hrun, hbase, raw, input, sentAt, ack, rfl, hraw, hlt,
      hle, hsamples, hrtt⟩ := sampled_spec h hsample
    refine ⟨hadaptive, ?_, ?_, raw, input, sentAt, rfl, hsamples, hrtt⟩
    · have hget : s.base.getD addr 0 = seq := by simp [Dict.getD, hbase]
      exact hget.le.not_gt
    · exact hlt.trans_eq (base_of_ack h hrun hraw hbase hlt hle input).symm
  spent_step s e addr seq h hlt :=
    hlt.trans_le (step_refines h e addr).base_le

end GoBackNTransport

end UdpArq
