import UdpArq.SelectiveRepeat.Refinement
import UdpArq.Transport.Metered

/-!
# Send times of a Selective Repeat sender

A packet is marked as retransmitted before its timer is set again and it is
sent.  An acknowledgement samples the packet that it names, which is outstanding
before and never again.
-/

namespace UdpArq

namespace SelectiveRepeatTransport

open UdpArq.Core

/-! ## The calls of the channel -/

/-- The calls made by the retransmission loop of `_handle_timeouts`, up to the
first one that raises. -/
def resends (cfg : Config) (input : SweepInput) (addr : Address) :
    List ℕ → SelectiveRepeatTransport → List Attempt
  | [], _ => []
  | seq :: rest, s =>
      match (sub s.outstanding addr).get? seq with
      | none => resends cfg input addr rest s
      | some packet =>
          let s : SelectiveRepeatTransport :=
            { s with
              retransmitted := s.retransmitted.set addr
                (insert seq (s.retransmitted.getD addr ∅))
              retransmissions := s.retransmissions + 1 }
          let s := armTimer cfg s addr seq (input.rearmAt addr seq)
          if s.crashed.isSome then []
          else
            ⟨addr, seq, packet, none, input.sendResult addr seq⟩ ::
              match input.sendResult addr seq with
              | some _ => []
              | none =>
                  resends cfg input addr rest
                    { s with toCore := s.transmit packet addr }

/-- The calls made by `_handle_timeouts` for one peer with due packets. -/
def peerAttempts (cfg : Config) (input : SweepInput)
    (s : SelectiveRepeatTransport) (addr : Address) (seqs : List ℕ) :
    List Attempt :=
  let retries := s.retries.getD addr 0 + 1
  let s := { s with retries := s.retries.set addr retries }
  let s : SelectiveRepeatTransport :=
    if cfg.adaptive then
      match s.rto.get? addr with
      | none => { s with toCore := s.crash (.keyError addr) }
      | some r => { s with rto := s.rto.set addr r.onTimeout }
    else s
  if s.crashed.isSome then []
  else if retries > cfg.maxRetries then []
  else resends cfg input addr seqs s

/-- One visit of `_handle_timeouts`. -/
def visit (cfg : Config) (input : SweepInput) (s : SelectiveRepeatTransport)
    (group : Address × List ℕ) : SelectiveRepeatTransport :=
  if s.crashed.isSome then s else timeoutPeer cfg input s group.1 group.2

/-- The calls made by one visit. -/
def visitAttempts (cfg : Config) (input : SweepInput)
    (s : SelectiveRepeatTransport) (group : Address × List ℕ) : List Attempt :=
  if s.crashed.isSome then [] else peerAttempts cfg input s group.1 group.2

/-- The calls made by `_handle_timeouts`. -/
def sweepAttempts (cfg : Config) (s : SelectiveRepeatTransport)
    (input : SweepInput) : List Attempt :=
  let popped := s.timerHeap.popDue input.now
  let groups := groupDue s popped.1 ∅
  (groups.entries.foldl
    (sweepStep (visit cfg input) (visitAttempts cfg input))
    ({ s with timerHeap := popped.2 }, [])).2

/-- The call made by `_pump_windows` for one packet. -/
def pumpAttempts (cfg : Config) (s : SelectiveRepeatTransport) (addr : Address)
    (input : PumpInput) : List Attempt :=
  match s.nextToSend cfg addr with
  | none => []
  | some (seq, item) =>
      match dataPacket seq item.data with
      | .error _ => []
      | .ok packet =>
          let s : SelectiveRepeatTransport := { s with
            toCore := (s.popPending addr seq).launch addr seq item packet
              input.sentAt }
          if (armTimer cfg s addr seq input.timerAt).crashed.isSome then []
          else [⟨addr, seq, packet, some input.sentAt, input.sendResult⟩]

/-- The calls of `channel.sendto` for DATA packets that one step makes. -/
def attempts (cfg : Config) (s : SelectiveRepeatTransport) :
    Event → List Attempt
  | .pump addr input =>
      if s.crashed.isSome then [] else pumpAttempts cfg s addr input
  | .timeouts input => if s.crashed.isSome then [] else sweepAttempts cfg s input
  | _ => []

/-- The call of `sample` that `_handle_ack` makes. -/
def ackSample (cfg : Config) (s : SelectiveRepeatTransport) (ack : ℕ)
    (addr : Address) (input : IncomingInput) : Option (Address × ℕ × ℚ) :=
  match s.base.get? addr with
  | none => none
  | some base =>
      if ack > s.nextSeq.getD addr base then none
      else
        match ack with
        | 0 => none
        | acked + 1 =>
            if acked ∈ (sub s.outstanding addr).keys then
              if cfg.adaptive then
                (s.rttSample addr acked input.ackedAt).map
                  fun rtt => (addr, acked, rtt)
              else none
            else none

/-- The call of `sample` that one step makes. -/
def sampled (cfg : Config) (s : SelectiveRepeatTransport) :
    Event → Option (Address × ℕ × ℚ)
  | .incoming raw addr input =>
      if s.crashed.isSome then none
      else
        match ackOf raw with
        | none => none
        | some ack => ackSample cfg s ack addr input
  | _ => none

variable {cfg : Config} {s : SelectiveRepeatTransport}

/-! ## The window pump -/

theorem armTimer_metered (cfg : Config) (s : SelectiveRepeatTransport)
    (addr : Address) (seq : ℕ) (now : ℚ) :
    (armTimer cfg s addr seq now).channel = s.channel ∧
      (armTimer cfg s addr seq now).outstanding = s.outstanding ∧
      ∀ b, (armTimer cfg s addr seq now).timing b = s.timing b := by
  unfold armTimer
  split <;> exact ⟨rfl, rfl, fun _ => rfl⟩

/-! ## Timeout sweeps -/

/-- Giving the peer up leaves nothing to sample. -/
theorem failPeer_visited (s : SelectiveRepeatTransport) (addr : Address)
    (e : Err) : s.Visited (failPeer s addr e).toCore addr True [] where
  channel := rfl
  other b hb := by
    simp [failPeer, Core.failPeer, setStatus, timing, Dict.getD, hb]
  narrows _ := by
    rintro q x ⟨htime, -⟩
    simp [failPeer, Core.failPeer, setStatus, timing] at htime
  attempts a ha := by cases ha

/-- A packet is marked and its timer is set. -/
theorem mark_visited {s₁ : SelectiveRepeatTransport} {addr : Address} {seq : ℕ}
    {now : ℚ}
    (hs₁ : armTimer cfg
      { s with
        retransmitted := s.retransmitted.set addr
          (insert seq (s.retransmitted.getD addr ∅))
        retransmissions := s.retransmissions + 1 } addr seq now = s₁) :
    s.Visited s₁.toCore addr True [] ∧ s₁.outstanding = s.outstanding ∧
      seq ∈ s₁.retransmitted.getD addr ∅ := by
  obtain ⟨hchannel, hout, htiming⟩ := armTimer_metered cfg
    { s with
      retransmitted := s.retransmitted.set addr
        (insert seq (s.retransmitted.getD addr ∅))
      retransmissions := s.retransmissions + 1 } addr seq now
  rw [hs₁] at hchannel hout htiming
  have hmarks : s₁.retransmitted.getD addr ∅ =
      insert seq (s.retransmitted.getD addr ∅) := by
    refine (congrArg Timing.retransmitted (htiming addr)).trans ?_
    simp [timing, Dict.getD]
  refine ⟨⟨hchannel, fun b hb => ?_, fun _ => ?_, ?_⟩, hout, ?_⟩
  · rw [htiming]
    simp [timing, Dict.getD, hb]
  · rintro q x ⟨htime, hmark⟩
    rw [htiming] at htime
    refine ⟨⟨htime, fun hmem => hmark ?_⟩, by simp⟩
    exact hmarks.ge (Finset.mem_insert_of_mem hmem)
  · exact fun a ha => by cases ha
  · exact hmarks.ge (Finset.mem_insert_self _ _)

/-- A marked packet is handed to the channel. -/
theorem sent_visited {c c' : Core} {addr : Address} {seq : ℕ} {packet : Bytes}
    (hget : (sub c.outstanding addr).get? seq = some packet)
    (hmark : seq ∈ c.retransmitted.getD addr ∅) (sendResult : Option String)
    (hchannel : c'.channel =
      Attempt.taken [⟨addr, seq, packet, none, sendResult⟩] ++ c.channel)
    (htiming : ∀ b, c'.timing b = c.timing b) :
    c.Visited c' addr True [⟨addr, seq, packet, none, sendResult⟩] where
  channel := hchannel
  other b _ := htiming b
  narrows _ := by
    intro q x hq
    rw [htiming] at hq
    refine ⟨hq, List.forall_mem_singleton.mpr fun heq => hq.2 ?_⟩
    exact heq ▸ hmark
  attempts :=
    List.forall_mem_singleton.mpr ⟨rfl, Dict.mem_keys.mpr ⟨packet, hget⟩⟩

theorem retransmit_visited (cfg : Config) (input : SweepInput) (addr : Address)
    (seqs : List ℕ) (s : SelectiveRepeatTransport) :
    s.Visited (retransmit cfg input addr seqs s).toCore addr True
      (resends cfg input addr seqs s) := by
  induction seqs generalizing s with
  | nil => exact .idle rfl fun _ => rfl
  | cons seq rest ih =>
      rcases hget : (sub s.outstanding addr).get? seq with _ | packet
      · simp only [retransmit, resends, hget]
        exact ih s
      obtain ⟨s₁, hs₁⟩ : ∃ s₁ : SelectiveRepeatTransport, armTimer cfg
        { s with
          retransmitted := s.retransmitted.set addr
            (insert seq (s.retransmitted.getD addr ∅))
          retransmissions := s.retransmissions + 1 } addr seq
          (input.rearmAt addr seq) = s₁ := ⟨_, rfl⟩
      obtain ⟨hmarked, hout, hmark⟩ := mark_visited hs₁
      have hget₁ : (sub s₁.outstanding addr).get? seq = some packet := by
        rw [hout]
        exact hget
      simp only [retransmit, resends, hget, hs₁]
      by_cases hcrashed : s₁.crashed.isSome
      · simp only [if_pos hcrashed]
        exact hmarked
      simp only [if_neg hcrashed]
      rcases input.sendResult addr seq with _ | what
      · have hsent : s₁.Visited (s₁.transmit packet addr) addr True
            [⟨addr, seq, packet, none, none⟩] :=
          sent_visited hget₁ hmark none rfl fun _ => rfl
        exact hmarked.trans hout (hsent.trans rfl (ih
          { s₁ with toCore := s₁.transmit packet addr }))
      · have hsent : s₁.Visited s₁.toCore addr True
            [⟨addr, seq, packet, none, some what⟩] :=
          sent_visited hget₁ hmark (some what) rfl fun _ => rfl
        exact hmarked.trans hout
          (hsent.trans rfl (failPeer_visited s₁ addr (.channel what)))

/-- What `_handle_timeouts` does for one peer after it has counted the retry and
backed off. -/
theorem timeoutPeer_begin (cfg : Config) (input : SweepInput)
    (s : SelectiveRepeatTransport) (addr : Address) (seqs : List ℕ) :
    ∃ s₁ : SelectiveRepeatTransport,
      (∃ rto crashed, s₁ = { s with
        retries := s.retries.set addr (s.retries.getD addr 0 + 1)
        rto := rto
        crashed := crashed }) ∧
      timeoutPeer cfg input s addr seqs =
        (if s₁.crashed.isSome then s₁
        else if s.retries.getD addr 0 + 1 > cfg.maxRetries then
          failPeer s₁ addr (.noAck addr cfg.maxRetries)
        else retransmit cfg input addr seqs s₁) ∧
      peerAttempts cfg input s addr seqs =
        if s₁.crashed.isSome then []
        else if s.retries.getD addr 0 + 1 > cfg.maxRetries then []
        else resends cfg input addr seqs s₁ := by
  by_cases hadaptive : cfg.adaptive
  · rcases hrto : s.rto.get? addr with _ | r
    · refine ⟨_, ⟨s.rto, some (.keyError addr), rfl⟩, ?_, ?_⟩
      · simp only [timeoutPeer, if_pos hadaptive, hrto]
        rfl
      · simp only [peerAttempts, if_pos hadaptive, hrto]
        rfl
    · refine ⟨_, ⟨s.rto.set addr r.onTimeout, s.crashed, rfl⟩, ?_, ?_⟩
      · simp only [timeoutPeer, if_pos hadaptive, hrto]
      · simp only [peerAttempts, if_pos hadaptive, hrto]
  · refine ⟨_, ⟨s.rto, s.crashed, rfl⟩, ?_, ?_⟩
    · simp only [timeoutPeer, if_neg hadaptive]
    · simp only [peerAttempts, if_neg hadaptive]

theorem timeoutPeer_visited (cfg : Config) (input : SweepInput)
    (s : SelectiveRepeatTransport) (addr : Address) (seqs : List ℕ) :
    s.Visited (timeoutPeer cfg input s addr seqs).toCore addr True
      (peerAttempts cfg input s addr seqs) := by
  obtain ⟨s₁, ⟨rto, crashed, hs₁⟩, hresult, hcalls⟩ :=
    timeoutPeer_begin cfg input s addr seqs
  have hout : s₁.outstanding = s.outstanding := by rw [hs₁]
  have hvisited : s.Visited s₁.toCore addr True [] := by
    rw [hs₁]
    exact .idle rfl fun _ => rfl
  rw [hresult, hcalls]
  split_ifs
  · exact hvisited
  · exact hvisited.trans hout (failPeer_visited s₁ addr _)
  · exact hvisited.trans hout (retransmit_visited cfg input addr seqs s₁)

theorem visit_visited (cfg : Config) (input : SweepInput)
    (s : SelectiveRepeatTransport) (group : Address × List ℕ) :
    s.Visited (visit cfg input s group).toCore group.1 True
      (visitAttempts cfg input s group) := by
  unfold visit visitAttempts
  split_ifs
  · exact .idle rfl fun _ => rfl
  · exact timeoutPeer_visited cfg input s group.1 group.2

theorem handleTimeouts_eq_fst (s : SelectiveRepeatTransport)
    (input : SweepInput) :
    handleTimeouts cfg s input =
      ((groupDue s (s.timerHeap.popDue input.now).1 ∅).entries.foldl
        (sweepStep (visit cfg input) (visitAttempts cfg input))
        ({ s with timerHeap := (s.timerHeap.popDue input.now).2 },
          [])).1 := by
  rw [fst_foldl_sweepStep]
  rfl

theorem handleTimeouts_channel (s : SelectiveRepeatTransport)
    (input : SweepInput) :
    (handleTimeouts cfg s input).channel =
      Attempt.taken (sweepAttempts cfg s input) ++ s.channel := by
  rw [handleTimeouts_eq_fst]
  exact foldl_sweepStep_channel
    (fun s : SelectiveRepeatTransport => s.toCore) Prod.fst
    (fun _ => True) (fun _ _ _ _ => trivial)
    (fun s group _ _ => visit_visited cfg input s group)
    ({ s with timerHeap := (s.timerHeap.popDue input.now).2 }, []) trivial rfl

/-- A sweep over all peers with due packets. -/
theorem handleTimeouts_metered (h : s.WellFormed) (hrun : ¬ s.crashed.isSome)
    (input : SweepInput) (b : Address) :
    (s.timing b).Narrows ((handleTimeouts cfg s input).timing b)
        (Attempt.toPeer b (sweepAttempts cfg s input)) ∧
      ∀ a ∈ Attempt.toPeer b (sweepAttempts cfg s input),
        a.seq ∈ (sub s.outstanding b).keys := by
  obtain ⟨groups, hgroups⟩ : ∃ groups,
      groupDue s (s.timerHeap.popDue input.now).1 ∅ = groups := ⟨_, rfl⟩
  have hrto : ∀ x ∈ groups.entries, (s.lane x.1).estimator = true :=
    fun x hx => due_estimator h hrun hgroups hx
  rw [handleTimeouts_eq_fst, sweepAttempts, hgroups]
  refine foldl_sweepStep_narrows
    (fun s : SelectiveRepeatTransport => s.toCore) Prod.fst
    (fun s => ¬ s.crashed.isSome ∧
      ∀ y ∈ groups.entries, (s.lane y.1).estimator = true) ?_
    (fun s group _ _ => visit_visited cfg input s group) ?_
    groups.nodupKeys
    (s := { s with timerHeap := (s.timerHeap.popDue input.now).2 })
    ⟨hrun, hrto⟩ trivial b
  · intro s x hx hs
    rw [visit, if_neg hs.1]
    exact timeoutPeer_keeps hs.1 hs.2 input hx
  · intro s x hx hs b hb
    rw [visit, if_neg hs.1]
    have hview := (timeoutPeer_spec cfg hs.1 input (hs.2 x hx) x.2).1 b hb
    exact congrArg (fun v : Lane × ℕ => v.1.outstanding) hview

/-! ## Acknowledgements -/

/-- The end of `_handle_ack`: the round-trip sample and the new base. -/
theorem finishAck_metered (cfg : Config) (s : SelectiveRepeatTransport)
    (addr : Address) (acked : ℕ) (ackedAt : ℚ) (nextSeq base : ℕ) :
    ∃ s' : SelectiveRepeatTransport,
      (let s₂ : SelectiveRepeatTransport :=
        if cfg.adaptive then
          { s with toCore := s.sampleRtt addr acked [acked] ackedAt }
        else s
      if s₂.crashed.isSome then s₂
      else
        { s₂ with
          base := s₂.base.set addr
            (advanceBase (sub s₂.outstanding addr) nextSeq (nextSeq - base)
              base)
          retries := s₂.retries.set addr 0 }) = s' ∧
      s'.rto = feed s.rto (if cfg.adaptive then
        (s.rttSample addr acked ackedAt).map fun rtt => (addr, acked, rtt)
      else none) ∧
      ∀ b, (s.timing b).Narrows (s'.timing b) [] := by
  obtain ⟨s₂, hs₂⟩ : ∃ s₂ : SelectiveRepeatTransport,
      (if cfg.adaptive then
        { s with toCore := s.sampleRtt addr acked [acked] ackedAt }
      else s) = s₂ := ⟨_, rfl⟩
  have hrto₂ : s₂.rto = feed s.rto (if cfg.adaptive then
      (s.rttSample addr acked ackedAt).map fun rtt => (addr, acked, rtt)
    else none) := by
    rw [← hs₂]
    split_ifs
    · rw [(sampleRtt_spec s.toCore addr addr acked [acked] ackedAt).1]
      rcases s.rttSample addr acked ackedAt with _ | rtt <;> rfl
    · rfl
  have hnarrows₂ : ∀ b, (s.timing b).Narrows (s₂.timing b) [] := by
    intro b
    rw [← hs₂]
    split_ifs
    · exact fun q x hq =>
        ⟨samples_sampleRtt s.toCore addr b acked [acked] ackedAt hq, by simp⟩
    · exact .of_eq rfl
  simp only [hs₂]
  refine ⟨_, rfl, ?_⟩
  by_cases hcrashed : s₂.crashed.isSome
  · simp only [if_pos hcrashed]
    exact ⟨hrto₂, hnarrows₂⟩
  · simp only [if_neg hcrashed]
    exact ⟨hrto₂, hnarrows₂⟩

theorem handleAck_metered (cfg : Config) (s : SelectiveRepeatTransport)
    {raw payload : Bytes} {header : Header}
    (hdecode : decode raw = .ok (header, payload))
    (hflag : header.flags &&& FLAG_ACK ≠ 0) (addr : Address)
    (input : IncomingInput) :
    (handleAck cfg s raw addr input).rto =
        feed s.rto (ackSample cfg s header.ack addr input) ∧
      ∀ b, (s.timing b).Narrows
        ((handleAck cfg s raw addr input).timing b) [] := by
  rcases hget : s.base.get? addr with _ | base
  · simp only [handleAck, hdecode, if_neg hflag, ackSample, hget]
    exact ⟨rfl, fun _ => .of_eq rfl⟩
  by_cases hbeyond : header.ack > s.nextSeq.getD addr base
  · simp only [handleAck, hdecode, if_neg hflag, ackSample, hget,
      if_pos hbeyond]
    exact ⟨rfl, fun _ => .of_eq rfl⟩
  rcases hnumber : header.ack with _ | acked
  · simp only [handleAck, hdecode, if_neg hflag, ackSample, hget, hnumber,
      Nat.not_lt_zero, gt_iff_lt, if_false]
    exact ⟨rfl, fun _ => .of_eq rfl⟩
  rw [hnumber] at hbeyond
  by_cases hmem : acked ∈ (sub s.outstanding addr).keys
  · obtain ⟨s', hs', hrto, hnarrows⟩ := finishAck_metered cfg
      { s with
        toCore := s.complete addr [acked]
        timerHeap := s.timerHeap.cancel (addr, acked) }
      addr acked input.ackedAt (s.nextSeq.getD addr base) base
    have hack : handleAck cfg s raw addr input = s' := by
      rw [← hs']
      simp only [handleAck, hdecode, hflag, if_false, hget, hnumber, hbeyond,
        hmem, if_true]
    rw [hack]
    refine ⟨hrto.trans ?_, hnarrows⟩
    simp only [ackSample, hget, if_neg hbeyond, if_pos hmem]
    rfl
  · simp only [handleAck, hdecode, if_neg hflag, ackSample, hget, hnumber,
      if_neg hbeyond, if_neg hmem]
    exact ⟨rfl, fun _ => .of_eq rfl⟩

/-- The step calls `sample` as `_handle_ack` does. -/
theorem step_incoming_metered (cfg : Config) (s : SelectiveRepeatTransport) (raw : Bytes)
    (addr : Address) (input : IncomingInput) :
    (step cfg s (.incoming raw addr input)).rto =
        feed s.rto (sampled cfg s (.incoming raw addr input)) ∧
      ∀ b, (s.timing b).Narrows
        ((step cfg s (.incoming raw addr input)).timing b) [] := by
  refine (handled cfg).incoming_metered (handlesAcks cfg)
    (fun ack => ackSample cfg s ack addr input) ?_
  rintro _ ⟨-, header, payload, hdecode, hflag, rfl⟩
  exact handleAck_metered cfg s hdecode hflag addr input

theorem sampled_spec (h : s.WellFormed) {e : Event} {addr : Address} {seq : ℕ}
    {rtt : ℚ} (hsample : sampled cfg s e = some (addr, seq, rtt)) :
    cfg.adaptive = true ∧ ¬ s.crashed.isSome ∧
      seq ∈ (s.lane addr).outstanding.keys ∧
      ∃ raw input sentAt base, e = .incoming raw addr input ∧
        IsAck raw (seq + 1) ∧ s.base.get? addr = some base ∧
        seq + 1 ≤ (s.lane addr).nextSeq ∧
        (s.timing addr).Samples seq sentAt ∧
        rtt = max (1 / 10000) (input.ackedAt - sentAt) := by
  rcases e with _ | _ | _ | _ | _ | _ | ⟨raw, a, input⟩
  · cases hsample
  · cases hsample
  · cases hsample
  · cases hsample
  · cases hsample
  · cases hsample
  simp only [sampled] at hsample
  by_cases hrun : s.crashed.isSome
  · simp only [if_pos hrun] at hsample
    cases hsample
  simp only [if_neg hrun] at hsample
  rcases hack : ackOf raw with _ | ack
  · simp only [hack] at hsample
    cases hsample
  simp only [hack, ackSample] at hsample
  rcases hbase : s.base.get? a with _ | base
  · simp only [hbase] at hsample
    cases hsample
  simp only [hbase] at hsample
  rcases ack with _ | acked
  · split_ifs at hsample
  dsimp only at hsample
  split_ifs at hsample with hbeyond hmem hadaptive
  obtain ⟨rtt', hrtt, heq⟩ := Option.map_eq_some_iff.mp hsample
  cases heq
  obtain ⟨sentAt, hsamples, hvalue⟩ := rttSample_eq_some _ _ _ _ hrtt
  have hnext : s.nextSeq.getD addr base = (s.lane addr).nextSeq :=
    Dict.getD_of_ne_default ((h addr).ready.base_le base hbase).2.ne' base
  exact ⟨hadaptive, hrun, hmem, raw, input, sentAt, base, rfl,
    ackOf_eq_some_iff.mp hack, hbase, (not_lt.mp hbeyond).trans_eq hnext,
    hsamples, hvalue⟩

/-- The sampled packet is not held any more. -/
theorem not_held_of_sampled (h : s.WellFormed) {e : Event} {addr : Address}
    {seq : ℕ} {rtt : ℚ} (hsample : sampled cfg s e = some (addr, seq, rtt)) :
    ¬ ((step cfg s e).lane addr).Held seq := by
  obtain ⟨-, hrun, hmem, raw, input, -, base, rfl, hraw, hbase, hle, -⟩ :=
    sampled_spec h hsample
  have hslide : slide (s.lane addr) (seq + 1) =
      some ([seq], advanceBase ((s.lane addr).outstanding.eraseAll [seq])
        (s.lane addr).nextSeq ((s.lane addr).nextSeq - base) base) := by
    have hlane : (s.lane addr).base = some base := hbase
    simp [slide, hlane, not_lt.mpr hle, hmem]
  have hspec := handleIncoming_ack cfg h hrun hraw addr input addr
  rw [hslide] at hspec
  rw [step, if_neg hrun, hspec]
  simp only [if_true]
  rintro (hout | hwaiting)
  · obtain ⟨x, hx⟩ := Dict.mem_keys.mp hout
    simp [Lane.slideTo, Lane.complete] at hx
  · obtain ⟨lo, n, hspan⟩ := (h addr).span
    have hlow : seq < lo := hspan.outstanding_lt seq hmem
    have hmem' : seq ∈ (s.lane addr).waiting := hwaiting
    rw [hspan.waiting_eq, List.mem_range'_1] at hmem'
    exact hmem'.1.not_gt hlow

/-! ## The metered endpoint -/

theorem meters (cfg : Config) :
    (handled cfg).Meters (attempts cfg) (sweepAttempts cfg) where
  attempts_eq _ e := by cases e <;> rfl
  channel := handleTimeouts_channel
  timeouts _ input b _ h hrun := handleTimeouts_metered h hrun input b
  incoming s raw addr input b := (step_incoming_metered cfg s raw addr input).2 b

/-- A Selective Repeat transport with its attempts and samples. -/
def metered (cfg : Config) : Metered cfg where
  toEndpoint := endpoint cfg
  attempts := attempts cfg
  sampled := sampled cfg
  spent s addr q := q < (s.lane addr).nextSeq ∧ ¬ (s.lane addr).Held q
  channel_eq _ _ h he := (meters cfg).channel_eq h he
  attempts_incoming _ _ _ _ := rfl
  timing_init _ := rfl
  rto_eq s raw addr input := (step_incoming_metered cfg s raw addr input).1
  timing_step hadaptive _ e b h := (meters cfg).timing_step hadaptive h e b
  sampled_spec s e addr seq rtt h hsample := by
    obtain ⟨hadaptive, -, hmem, raw, input, sentAt, -, he, -, -, -, hsamples,
      hrtt⟩ := sampled_spec h hsample
    have hlt : seq < (s.lane addr).nextSeq :=
      Lane.lt_nextSeq_of_held (h addr) (Or.inl hmem)
    refine ⟨hadaptive, fun hspent => hspent.2 (Or.inl hmem),
      ⟨hlt.trans_le (step_refines h e addr).nextSeq_le,
        not_held_of_sampled h hsample⟩,
      raw, input, sentAt, he, hsamples, hrtt⟩
  spent_step s e addr seq h hspent := by
    have hstep := @step_refines cfg s h e addr
    refine ⟨hspent.1.trans_le hstep.nextSeq_le, fun hheld => ?_⟩
    rcases hstep.held (h addr) hheld with hold | rfl
    · exact hspent.2 hold
    · exact absurd hspent.1 (lt_irrefl _)

end SelectiveRepeatTransport

end UdpArq
