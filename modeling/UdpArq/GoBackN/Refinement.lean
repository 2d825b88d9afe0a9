import UdpArq.GoBackN.Transport
import UdpArq.Transport.Acks
import UdpArq.Transport.Loop

/-!
# Go-Back-N follows the sliding-window protocol

The discipline of `go_back_n.py`: cumulative acknowledgements and a receiver
that takes in nothing but the next datagram.  Every event of the transport is a
step of the protocol on every lane.
-/

namespace UdpArq

namespace GoBackNTransport

open UdpArq.Core

/-! ## The discipline -/

/-- An acknowledgement `n` covers everything below `n`. -/
def slide (l : Lane) (n : ℕ) : Option (List ℕ × ℕ) :=
  match l.base with
  | none => none
  | some base =>
      if n ≤ base then none
      else if n > l.nextSeq then none
      else some (l.outstanding.keys.filter fun q => q < n, n)

def receive (l : Lane) (seq : ℕ) (payload : Bytes) : Reception :=
  if seq = l.expected then
    ⟨l.expected + 1, l.buffer, l.expected + 1, [payload]⟩
  else ⟨l.expected, l.buffer, l.expected, []⟩

theorem slide_eq_some {l : Lane} {n base : ℕ} {seqs : List ℕ}
    (h : slide l n = some (seqs, base)) :
    base = n ∧ n ≤ l.nextSeq ∧
      seqs = l.outstanding.keys.filter (fun q => q < n) ∧
      ∃ old, l.base = some old ∧ old < n := by
  unfold slide at h
  cases hold : l.base with
  | none => simp [hold] at h
  | some old =>
      simp only [hold] at h
      split_ifs at h with hle hgt
      cases h
      exact ⟨rfl, not_lt.mp hgt, rfl, old, rfl, not_le.mp hle⟩

theorem slide_sound {l : Lane} {n base : ℕ} {seqs : List ℕ}
    (h : slide l n = some (seqs, base)) :
    l.Slides (fun n q => q < n) n seqs base := by
  obtain ⟨rfl, hle, rfl, old, hold, hlt⟩ := slide_eq_some h
  refine ⟨fun q hq => by simpa using hq, old, hold, hlt.le, ?_, ?_⟩
  · exact hle.trans (le_max_right _ _)
  · exact fun _ => Or.inl hlt

theorem take_add_one_of_getElem? {α : Type} {xs : List α} {n : ℕ} {x : α}
    (h : xs[n]? = some x) : xs.take (n + 1) = xs.take n ++ [x] := by
  rw [List.take_add_one, h]
  rfl

theorem receive_sound {handed : List Bytes} {l : Lane} {seq : ℕ}
    {payload : Bytes} (h : l.Reassembles 1 handed)
    (hseq : handed[seq]? = some payload) :
    l.Receives (fun n q => q < n) 1 handed (receive l seq payload) := by
  have hnone : ∀ q, q ∉ l.buffer.keys := by
    intro q hq
    obtain ⟨x, hx⟩ := Dict.mem_keys.mp hq
    obtain ⟨hlo, hhi, -⟩ := h.buffered q x hx
    omega
  unfold receive
  split_ifs with heq
  · subst heq
    obtain ⟨hlt, -⟩ := List.getElem?_eq_some_iff.mp hseq
    refine ⟨⟨?_, hlt, ?_⟩, ?_, hlt, ?_⟩
    · change l.delivered ++ [payload] = _
      rw [h.delivered]
      exact (take_add_one_of_getElem? hseq).symm
    · intro q x hx
      exact absurd (Dict.mem_keys.mpr ⟨x, hx⟩) (hnone q)
    · rintro q (hq | hq)
      · exact Or.inl (Nat.lt_succ_of_lt hq)
      · exact Or.inr hq
    · exact fun q hq => Or.inl hq
  · refine ⟨⟨?_, h.expected_le, h.buffered⟩, fun q hq => hq, h.expected_le,
      fun q hq => Or.inl hq⟩
    change l.delivered ++ [] = _
    rw [List.append_nil]
    exact h.delivered

/-- Go-Back-N as a discipline. -/
def discipline : Discipline where
  window := 1
  covers n q := q < n
  slide := slide
  receive := receive
  slide_sound := slide_sound
  receive_sound := receive_sound

/-! ## The lanes of a transport -/

variable (cfg : Config)

def lane (s : GoBackNTransport) (addr : Address) : Lane := s.toCore.lane ∅ addr

/-- A sweep gives the peer up: its timer is due for packets that are
outstanding, and the retries are used up or a retransmission raises. -/
def PeerFails (s : GoBackNTransport) (addr : Address) (input : SweepInput) :
    Prop :=
  (∃ deadline, s.timerDeadline.getD addr none = some deadline ∧
      deadline ≤ input.now) ∧
    (sub s.outstanding addr).keys ≠ [] ∧
    (s.retries.getD addr 0 + 1 > cfg.maxRetries ∨
      ∃ seq ∈ (sub s.outstanding addr).keys, input.sendResult addr seq ≠ none)

/-- Every lane is well formed. -/
def WellFormed (s : GoBackNTransport) : Prop := ∀ addr, (s.lane addr).WellFormed

/-- A running thread has an estimator for every peer with sender state. -/
theorem WellFormed.estimator {s : GoBackNTransport} (h : s.WellFormed)
    (hrun : ¬ s.crashed.isSome) {addr : Address}
    (hbase : s.base.get? addr ≠ none) : (s.rto.get? addr).isSome :=
  (h addr).ready.estimator (by simpa [lane, Core.lane] using hrun) hbase

section

variable {cfg} {s : GoBackNTransport} {fails : SweepInput → Prop}

theorem drained (cfg : Config) (s : GoBackNTransport) :
    Drained cfg s.toCore (drainItem cfg s).toCore := by
  rcases hqueue : s.outbound with _ | ⟨item, rest⟩
  · simp only [drainItem, hqueue]
    exact .idle hqueue
  rcases hnew : newEstimator cfg with _ | r
  · simp only [drainItem, hqueue, hnew]
    exact .crash hqueue hnew _ (Or.inl rfl)
  · simp only [drainItem, hqueue, hnew]
    exact .register hqueue hnew

theorem armTimer_cases (cfg : Config) (s : GoBackNTransport) (addr : Address)
    (seq : ℕ) (now : ℚ) :
    (armTimer cfg s addr seq now).toCore = s.toCore ∨
      s.rtoValue cfg addr = none ∧
        (armTimer cfg s addr seq now).toCore = s.crash (.keyError addr) := by
  unfold armTimer
  split_ifs
  · rcases hvalue : s.rtoValue cfg addr with _ | rto
    · exact Or.inr ⟨rfl, rfl⟩
    · exact Or.inl rfl
  · exact Or.inl rfl

theorem shared (cfg : Config) : (handlers cfg).Shared cfg fun _ _ => ∅ where
  drained := drained cfg
  pump_eq _ _ _ := rfl
  core_armTimer := armTimer_cases cfg
  core_stopTimer _ _ _ := rfl
  buffer_withCore _ _ := rfl
  buffer_drain _ := rfl
  buffer_armTimer _ _ _ _ := rfl
  buffer_stopTimer _ _ _ := rfl

/-- A packet that enters the window is sent after its timer has been set. -/
theorem pumpPacket_eq (h : s.WellFormed) (hrun : ¬ s.crashed.isSome)
    {addr : Address} {seq : ℕ} {item : Item} {packet : Bytes}
    (hnext : s.nextToSend cfg addr = some (seq, item))
    (hpacket : dataPacket seq item.data = .ok packet) (input : PumpInput) :
    let s₁ : GoBackNTransport := { s with
      toCore := (s.popPending addr seq).launch addr seq item packet
        input.sentAt }
    let s₂ := armTimer cfg s₁ addr seq input.timerAt
    pumpPacket cfg s addr input =
        sendPacket s₂ addr seq packet input.sendResult ∧
      s₂.toCore = s₁.toCore := by
  intro s₁ s₂
  have hrto := estimator_of_nextToSend cfg (h addr) hrun (by simp [hnext])
  have hcore : s₂.toCore = s₁.toCore :=
    armed_eq (armTimer_cases cfg s₁ addr seq input.timerAt) hrto
  have hrun₂ : ¬ s₂.crashed.isSome := by
    rw [hcore]
    exact hrun
  refine ⟨?_, hcore⟩
  simp only [pumpPacket, hnext, hpacket]
  exact if_neg hrun₂

theorem pumpPacket_step (h : s.WellFormed) (hrun : ¬ s.crashed.isSome)
    (addr : Address) (input : PumpInput) (b : Address) :
    Lane.Step cfg discipline fails (s.lane b) (.pump addr input)
      ((pumpPacket cfg s addr input).lane b) :=
  ((shared cfg).pumped s addr input hrun).lane_step
    (estimator_of_nextToSend cfg (h addr) hrun) ∅ b

theorem restartAfterAck_spec (cfg : Config) (s : GoBackNTransport)
    {addr : Address} (hrto : (s.rto.get? addr).isSome) (ack nextSeq : ℕ)
    (now : ℚ) :
    ∃ at_, restartAfterAck cfg s addr ack nextSeq now =
      { s with
        timerDeadline := s.timerDeadline.set addr
          (if ack < nextSeq then some at_ else none) } := by
  obtain ⟨rto, hvalue⟩ := rtoValue_isSome s.toCore addr cfg hrto
  refine ⟨now + rto, ?_⟩
  unfold restartAfterAck
  split_ifs
  · rw [hvalue]
  · rfl

/-- The end of `_handle_ack`, invisible in the lanes: the round-trip sample and
the new setting of the timer. -/
theorem finishAck_spec (cfg : Config) (s : GoBackNTransport) {addr : Address}
    (hrun : ¬ s.crashed.isSome) (hrto : (s.rto.get? addr).isSome)
    (base : ℕ) (acknowledged : List ℕ) (ackedAt : ℚ) (ack nextSeq : ℕ)
    (now : ℚ) :
    ∃ s' : GoBackNTransport,
      (let s₂ : GoBackNTransport :=
        if cfg.adaptive then
          { s with
            toCore := s.sampleRtt addr base acknowledged ackedAt }
        else s
      if s₂.crashed.isSome then s₂
      else restartAfterAck cfg s₂ addr ack nextSeq now) = s' ∧
      (∀ b, s'.lane b = s.lane b) ∧
      ∃ at_, s'.timerDeadline = s.timerDeadline.set addr
        (if ack < nextSeq then some at_ else none) := by
  obtain ⟨s₂, hs₂⟩ : ∃ s₂ : GoBackNTransport,
      (if cfg.adaptive then
        { s with toCore := s.sampleRtt addr base acknowledged ackedAt }
      else s) = s₂ := ⟨_, rfl⟩
  have hlane₂ : ∀ b, s₂.lane b = s.lane b := by
    intro b
    rw [← hs₂]
    split
    · exact lane_sampleRtt s.toCore ∅ addr b hrto base acknowledged ackedAt
    · rfl
  have htimer₂ : s₂.timerDeadline = s.timerDeadline := by
    rw [← hs₂]
    split <;> rfl
  have hrto₂ : (s₂.rto.get? addr).isSome :=
    (congrArg Lane.estimator (hlane₂ addr)).trans hrto
  have hrun₂ : ¬ s₂.crashed.isSome := by
    have hcrashed : s₂.crashed.isSome = s.crashed.isSome :=
      congrArg Lane.crashed (hlane₂ addr)
    rwa [hcrashed]
  obtain ⟨at_, hrestart⟩ :=
    restartAfterAck_spec cfg s₂ hrto₂ ack nextSeq now
  simp only [hs₂, if_neg hrun₂, hrestart]
  exact ⟨_, rfl, hlane₂, at_, by rw [htimer₂]⟩

/-- What all assignments of `_handle_ack` keep, `_handle_ack` keeps. -/
theorem handleAck_keeps (cfg : Config)
    {R : GoBackNTransport → GoBackNTransport → Prop} {addr : Address}
    (hrefl : ∀ s, R s s) (htrans : ∀ s s' s'', R s s' → R s' s'' → R s s'')
    (hslide : ∀ (s : GoBackNTransport) acknowledged ack,
      R s { s with
        toCore := { s.complete addr acknowledged with
          base := s.base.set addr ack
          retries := s.retries.set addr 0 } })
    (hsample : ∀ (s : GoBackNTransport) base acknowledged now,
      R s { s with toCore := s.sampleRtt addr base acknowledged now })
    (htimer : ∀ (s : GoBackNTransport) deadline,
      R s { s with timerDeadline := s.timerDeadline.set addr deadline })
    (hcrash : ∀ (s : GoBackNTransport) e, R s { s with toCore := s.crash e })
    (s : GoBackNTransport) (raw : Bytes) (input : IncomingInput) :
    R s (handleAck cfg s raw addr input) := by
  have hrestart : ∀ s ack nextSeq now,
      R s (restartAfterAck cfg s addr ack nextSeq now) := by
    intro s ack nextSeq now
    unfold restartAfterAck
    split
    · split
      · exact hcrash s _
      · exact htimer s _
    · exact htimer s none
  have hfinish : ∀ (s : GoBackNTransport) base acknowledged ackedAt ack nextSeq
      now,
      R s (let s₂ : GoBackNTransport :=
          if cfg.adaptive then
            { s with toCore := s.sampleRtt addr base acknowledged ackedAt }
          else s
        if s₂.crashed.isSome then s₂
        else restartAfterAck cfg s₂ addr ack nextSeq now) := by
    intro s base acknowledged ackedAt ack nextSeq now
    have hsampled : R s (if cfg.adaptive then
        { s with toCore := s.sampleRtt addr base acknowledged ackedAt }
        else s) := by
      split
      · exact hsample s base acknowledged ackedAt
      · exact hrefl s
    generalize (if cfg.adaptive then
      { s with toCore := s.sampleRtt addr base acknowledged ackedAt }
      else s) = s₂ at hsampled ⊢
    dsimp only
    split
    · exact hsampled
    · exact htrans s s₂ _ hsampled (hrestart s₂ ack nextSeq now)
  rcases hdecode : decode raw with e | ⟨header, payload⟩
  · simp only [handleAck, hdecode]
    exact hrefl s
  simp only [handleAck, hdecode]
  split
  · exact hrefl s
  split
  · exact hrefl s
  split
  · exact hrefl s
  split
  · exact hrefl s
  rename_i base _ _ _
  exact htrans s _ _ (hslide s
    ((sub s.outstanding addr).keys.filter fun q => q < header.ack) header.ack)
    (hfinish _ base _ _ _ _ _)

/-- An acknowledgement slides the window and restarts or stops the timer, or
changes nothing. -/
theorem handleAck_spec (cfg : Config) (h : s.WellFormed)
    (hrun : ¬ s.crashed.isSome)
    {raw : Bytes} {header : Header} {payload : Bytes}
    (hdecode : decode raw = .ok (header, payload))
    (hflag : header.flags &&& FLAG_ACK ≠ 0) (addr : Address)
    (input : IncomingInput) :
    match slide (s.lane addr) header.ack with
    | none => handleAck cfg s raw addr input = s
    | some (seqs, base) =>
        (∀ b, (handleAck cfg s raw addr input).lane b =
          if b = addr then ((s.lane b).complete seqs).slideTo base
          else s.lane b) ∧
        ∃ at_, (handleAck cfg s raw addr input).timerDeadline =
          s.timerDeadline.set addr
            (if header.ack < (s.lane addr).nextSeq then some at_ else none) := by
  unfold slide
  cases hbase : (s.lane addr).base with
  | none =>
      have hget : s.base.get? addr = none := hbase
      simp [handleAck, hdecode, hflag, hget]
  | some base =>
      have hget : s.base.get? addr = some base := hbase
      obtain ⟨-, hpos⟩ := (h addr).ready.base_le base hbase
      have hnext : s.nextSeq.getD addr base = (s.lane addr).nextSeq :=
        Dict.getD_of_ne_default hpos.ne' base
      by_cases hstale : header.ack ≤ base
      · simp [handleAck, hdecode, hflag, hget, hstale]
      by_cases hbeyond : header.ack > (s.lane addr).nextSeq
      · simp [handleAck, hdecode, hflag, hget, hstale, hnext, hbeyond]
      have hrto : (s.rto.get? addr).isSome :=
        h.estimator hrun (by simp [hget])
      simp only [hstale, hbeyond, if_false]
      obtain ⟨s', hs', hlane, at_, htimer⟩ := finishAck_spec cfg
        { s with
          toCore := { s.complete addr
              ((sub s.outstanding addr).keys.filter fun q => q < header.ack) with
            base := s.base.set addr header.ack
            retries := s.retries.set addr 0 } }
        hrun hrto base
        ((sub s.outstanding addr).keys.filter fun q => q < header.ack)
        input.ackedAt header.ack (s.lane addr).nextSeq input.restartAt
      have hack : handleAck cfg s raw addr input = s' := by
        rw [← hs']
        simp only [handleAck, hdecode, hflag, if_false, hget, hnext, hstale,
          hbeyond]
      rw [hack]
      refine ⟨fun b => (hlane b).trans ?_, at_, htimer⟩
      refine (lane_slideTo (s.complete addr _) ∅ addr b header.ack _).trans ?_
      rw [lane_complete]
      split_ifs with hb
      · subst hb
        rfl
      · rfl

/-- What becomes of a valid acknowledgement. -/
theorem handleIncoming_ack (cfg : Config) (h : s.WellFormed)
    (hrun : ¬ s.crashed.isSome)
    {raw : Bytes} {n : ℕ} (hraw : IsAck raw n) (addr : Address)
    (input : IncomingInput) :
    match slide (s.lane addr) n with
    | none => handleIncoming cfg s raw addr input = s
    | some (seqs, base) =>
        (∀ b, (handleIncoming cfg s raw addr input).lane b =
          if b = addr then ((s.lane b).complete seqs).slideTo base
          else s.lane b) ∧
        ∃ at_, (handleIncoming cfg s raw addr input).timerDeadline =
          s.timerDeadline.set addr
            (if n < (s.lane addr).nextSeq then some at_ else none) := by
  obtain ⟨hverify, header, payload, hdecode, hflag, rfl⟩ := hraw
  have hincoming : handleIncoming cfg s raw addr input =
      handleAck cfg s raw addr input := by
    simp [handleIncoming, hverify, hdecode, hflag]
  rw [hincoming]
  exact handleAck_spec cfg h hrun hdecode hflag addr input

/-- A new acknowledgement becomes the base. -/
theorem base_of_ack (h : s.WellFormed) (hrun : ¬ s.crashed.isSome)
    {raw : Bytes} {n base : ℕ} (hraw : IsAck raw n) {addr : Address}
    (hbase : s.base.get? addr = some base) (hlt : base < n)
    (hle : n ≤ (s.lane addr).nextSeq) (input : IncomingInput) :
    (step cfg s (.incoming raw addr input)).base.getD addr 0 = n := by
  have hslide : slide (s.lane addr) n =
      some ((s.lane addr).outstanding.keys.filter fun q => q < n, n) := by
    have hlane : (s.lane addr).base = some base := hbase
    simp [slide, hlane, not_le.mpr hlt, not_lt.mpr hle]
  have hspec := handleIncoming_ack cfg h hrun hraw addr input
  rw [hslide] at hspec
  have hmoved : ((step cfg s (.incoming raw addr input)).lane addr).base =
      some n := by
    rw [step, if_neg hrun, hspec.1 addr, if_pos rfl]
    rfl
  exact congrArg (fun o => o.getD 0) hmoved

/-- A datagram is taken in if it is the expected one, and acknowledged. -/
theorem handleIncoming_eq_data {raw payload : Bytes} {seq : ℕ}
    (hraw : IsData raw seq payload) (addr : Address) (input : IncomingInput) :
    let r := receive (s.lane addr) seq payload
    ∃ expected : Dict Address ℕ,
      expected.getD addr 0 = r.expected ∧
      (∀ b, b ≠ addr → expected.get? b = s.expected.get? b) ∧
      handleIncoming cfg s raw addr input =
        { s with
          toCore := ({ s.toCore with expected } : Core).acknowledge addr
            r.ackFor r.payloads input.sendResult } := by
  obtain ⟨hverify, header, hdecode, hack, hdata, rfl⟩ := hraw
  by_cases hseq : header.seq = s.expected.getD addr 0
  · have hr : receive (s.lane addr) header.seq payload =
        ⟨s.expected.getD addr 0 + 1, ∅, s.expected.getD addr 0 + 1,
          [payload]⟩ := if_pos hseq
    rw [hr]
    refine ⟨s.expected.set addr (s.expected.getD addr 0 + 1), ?_, ?_, ?_⟩
    · simp [Dict.getD]
    · intro b hb
      rw [Dict.get?_set, if_neg hb]
    · simp [handleIncoming, hverify, hdecode, hack, hdata, hseq]
  · have hr : receive (s.lane addr) header.seq payload =
        ⟨s.expected.getD addr 0, ∅, s.expected.getD addr 0, []⟩ := if_neg hseq
    rw [hr]
    refine ⟨s.expected, rfl, fun _ _ => rfl, ?_⟩
    simp [handleIncoming, hverify, hdecode, hack, hdata, hseq]

theorem handleIncoming_of_isOther (cfg : Config) (s : GoBackNTransport)
    {raw : Bytes} (hraw : IsOther raw) (addr : Address) (input : IncomingInput) :
    handleIncoming cfg s raw addr input = s := by
  unfold handleIncoming
  by_cases hverify : verify raw = false
  · exact if_pos hverify
  rw [if_neg hverify]
  rcases hdecode : decode raw with e | ⟨header, payload⟩
  · rfl
  · obtain ⟨hack, hdata⟩ := hraw.flags (by simpa using hverify) hdecode
    simp [hack, hdata]

/-- What arrives is an acknowledgement, or a datagram, or is dropped. -/
theorem handleIncoming_cases (cfg : Config) (s : GoBackNTransport) (raw : Bytes)
    (addr : Address) (input : IncomingInput) :
    (∃ n, IsAck raw n ∧ handleIncoming cfg s raw addr input =
      handleAck cfg s raw addr input) ∨
    (∃ seq payload expected, IsData raw seq payload ∧
      (∀ b, b ≠ addr → expected.get? b = s.expected.get? b) ∧
      handleIncoming cfg s raw addr input =
        { s with
          toCore := ({ s.toCore with expected } : Core).acknowledge addr
            (receive (s.lane addr) seq payload).ackFor
            (receive (s.lane addr) seq payload).payloads input.sendResult }) ∨
    IsOther raw ∧ handleIncoming cfg s raw addr input = s := by
  rcases isAck_or_isData_or_isOther raw with
    ⟨n, hraw⟩ | ⟨seq, payload, hraw⟩ | hraw
  · obtain ⟨hverify, header, payload, hdecode, hflag, rfl⟩ := hraw
    refine Or.inl ⟨_, ⟨hverify, header, payload, hdecode, hflag, rfl⟩, ?_⟩
    simp [handleIncoming, hverify, hdecode, hflag]
  · obtain ⟨expected, -, hother, heq⟩ := handleIncoming_eq_data hraw addr input
    exact Or.inr (Or.inl ⟨seq, payload, expected, hraw, hother, heq⟩)
  · exact Or.inr (Or.inr ⟨hraw, handleIncoming_of_isOther cfg s hraw addr input⟩)

/-- The lanes after a datagram has been taken in, before it is acknowledged. -/
theorem handleIncoming_data {raw payload : Bytes} {seq : ℕ}
    (hraw : IsData raw seq payload) (addr : Address) (input : IncomingInput) :
    ∃ c : Core,
      (∀ b, c.lane ∅ b =
        if b = addr then
          (s.lane b).advance (receive (s.lane addr) seq payload)
        else s.lane b) ∧
      (handleIncoming cfg s raw addr input).toCore =
        c.acknowledge addr (receive (s.lane addr) seq payload).ackFor
          (receive (s.lane addr) seq payload).payloads input.sendResult := by
  obtain ⟨expected, hself, hother, heq⟩ :=
    handleIncoming_eq_data hraw addr input
  refine ⟨{ s.toCore with expected }, fun b => ?_, by rw [heq]⟩
  split_ifs with hb
  · subst hb
    have hbuffer : (receive (s.lane b) seq payload).buffer = ∅ := by
      unfold receive
      split <;> rfl
    generalize receive (s.lane b) seq payload = r at hself hbuffer
    simp [lane, Core.lane, Lane.advance, hself, hbuffer]
  · simp [lane, Core.lane, Dict.getD, hother b hb]

theorem handleIncoming_step (h : s.WellFormed) (hrun : ¬ s.crashed.isSome)
    (raw : Bytes) (addr : Address) (input : IncomingInput) (b : Address) :
    Lane.Step cfg discipline fails (s.lane b) (.incoming raw addr input)
      ((handleIncoming cfg s raw addr input).lane b) := by
  rcases handleIncoming_cases cfg s raw addr input with
    ⟨n, hraw, -⟩ | ⟨seq, payload, -, hraw, -⟩ | ⟨-, hsame⟩
  · have hspec := handleIncoming_ack cfg h hrun hraw addr input
    rcases hslide : slide (s.lane addr) n with _ | ⟨seqs, base⟩
    · rw [hslide] at hspec
      rw [hspec]
      exact .idle _
    · rw [hslide] at hspec
      rw [hspec.1 b]
      split_ifs with hb
      · subst hb
        exact .ack hraw hslide
      · exact .idle _
  · obtain ⟨c, hlane, hcore⟩ := handleIncoming_data hraw addr input
    have hreceive : b = addr →
        discipline.receive (s.lane b) seq payload =
          receive (s.lane addr) seq payload := by
      rintro rfl
      rfl
    change Lane.Step _ _ _ (s.lane b) _
      ((handleIncoming cfg s raw addr input).toCore.lane ∅ b)
    rw [hcore]
    exact Lane.Step.acknowledge (s.lane b) _ hraw (hlane b) hreceive input
  · rw [hsame]
    exact .idle _

/-! ## Timeout sweeps -/

/-- What a timeout sweep reads and changes for one peer. -/
def view (b : Address) (s : GoBackNTransport) : Lane × Option ℚ × ℕ :=
  (s.lane b, s.timerDeadline.getD b none, s.retries.getD b 0)

theorem view_failPeer (s : GoBackNTransport) (addr : Address) (e : Err)
    {b : Address} (hb : b ≠ addr) : view b (failPeer s addr e) = view b s := by
  have hlane := lane_failPeer s.toCore ∅ addr b e
  rw [if_neg hb] at hlane
  have htimer : (failPeer s addr e).timerDeadline.getD b none =
      s.timerDeadline.getD b none := by
    simp [failPeer, Dict.getD, hb]
  have hretries : (failPeer s addr e).retries.getD b 0 =
      s.retries.getD b 0 := rfl
  simp only [view, htimer, hretries]
  exact Prod.ext hlane rfl

theorem lane_failPeer_self (s : GoBackNTransport) (addr : Address) (e : Err) :
    (failPeer s addr e).lane addr = (s.lane addr).failPeer e :=
  (lane_failPeer s.toCore ∅ addr addr e).trans (if_pos rfl)

theorem view_transmit (s : GoBackNTransport) (addr : Address) (packet : Bytes)
    {b : Address} (hb : b ≠ addr) :
    view b { s with toCore := s.transmit packet addr } = view b s :=
  Prod.ext ((lane_transmit s.toCore ∅ addr b packet).trans (if_neg hb)) rfl

/-- The retransmission loop sends stored packets of one peer again, and gives
the peer up if a send raises. -/
theorem retransmit_spec (cfg : Config) (input : SweepInput) (addr : Address)
    (outstanding : Dict ℕ Bytes) (seqs : List ℕ) (s : GoBackNTransport) :
    ∃ s' packets, retransmit cfg input addr outstanding seqs s = s' ∧
      (∀ b, b ≠ addr → view b s' = view b s) ∧
      (∀ raw ∈ packets, ∃ q ∈ seqs, raw = outstanding.getD q []) ∧
      (s'.lane addr = (s.lane addr).resend packets ∨
        ∃ what, s'.lane addr =
            ((s.lane addr).resend packets).failPeer (.channel what) ∧
          ∃ q ∈ seqs, input.sendResult addr q ≠ none) := by
  induction seqs generalizing s with
  | nil =>
      exact ⟨s, [], rfl, fun _ _ => rfl, by simp, Or.inl rfl⟩
  | cons seq rest ih =>
      obtain ⟨s₁, hs₁⟩ : ∃ s₁ : GoBackNTransport,
          (if cfg.adaptive then
            { s with
              retransmitted := s.retransmitted.set addr
                (insert seq (s.retransmitted.getD addr ∅)) }
          else s) = s₁ := ⟨_, rfl⟩
      have hview₁ : ∀ b, view b s₁ = view b s := by
        intro b
        rw [← hs₁]
        split <;> rfl
      have hlane₁ : s₁.lane addr = s.lane addr :=
        congrArg Prod.fst (hview₁ addr)
      cases hsend : input.sendResult addr seq with
      | some what =>
          refine ⟨failPeer s₁ addr (.channel what), [], ?_, ?_, by simp, ?_⟩
          · simp only [retransmit, hs₁, hsend]
          · intro b hb
            exact (view_failPeer s₁ addr _ hb).trans (hview₁ b)
          · refine Or.inr ⟨what, ?_, seq, List.mem_cons_self, by simp [hsend]⟩
            rw [lane_failPeer_self, hlane₁]
            rfl
      | none =>
          obtain ⟨s', packets, hs', hother, hpackets, hlane⟩ :=
            ih { s₁ with toCore := s₁.transmit (outstanding.getD seq []) addr }
          have hsent : (s₁.toCore.transmit (outstanding.getD seq [])
              addr).lane ∅ addr =
                (s.lane addr).transmit (outstanding.getD seq []) := by
            rw [lane_transmit, if_pos rfl, ← hlane₁]
            rfl
          have hresend : ∀ l : Lane,
              (l.transmit (outstanding.getD seq [])).resend packets =
                l.resend (packets ++ [outstanding.getD seq []]) := by
            intro l
            simp [Lane.transmit, Lane.resend]
          refine ⟨s', packets ++ [outstanding.getD seq []], ?_, ?_, ?_, ?_⟩
          · simp only [retransmit, hs₁, hsend]
            exact hs'
          · intro b hb
            exact (hother b hb).trans
              ((view_transmit s₁ addr _ hb).trans (hview₁ b))
          · intro raw hraw
            rcases List.mem_append.mp hraw with hold | hnew
            · obtain ⟨q, hq, heq⟩ := hpackets raw hold
              exact ⟨q, List.mem_cons_of_mem _ hq, heq⟩
            · exact ⟨seq, List.mem_cons_self, List.mem_singleton.mp hnew⟩
          · rw [← hresend]
            change s'.lane addr = Lane.resend (Core.lane _ ∅ addr) packets ∨ _
              at hlane
            rw [hsent] at hlane
            rcases hlane with hok | ⟨what, hfail, q, hq, hraise⟩
            · exact Or.inl hok
            · refine Or.inr ⟨what, ?_, q, List.mem_cons_of_mem _ hq, hraise⟩
              change s'.lane addr = (Lane.resend (Core.lane _ ∅ addr)
                packets).failPeer _ at hfail
              rwa [hsent] at hfail

theorem restartTimer_spec (cfg : Config) (s : GoBackNTransport)
    {addr : Address} (hrto : (s.rto.get? addr).isSome) (now : ℚ) :
    ∃ s', restartTimer cfg s addr now = s' ∧ s'.lane addr = s.lane addr ∧
      (∀ b, b ≠ addr → view b s' = view b s) ∧
      ((sub s.outstanding addr).keys ≠ [] →
        s'.timerDeadline.getD addr none ≠ none) := by
  by_cases hempty : (sub s.outstanding addr).keys = []
  · refine ⟨s, if_pos hempty, rfl, fun _ _ => rfl, fun h => absurd hempty h⟩
  obtain ⟨r, hr⟩ := Option.isSome_iff_exists.mp hrto
  by_cases hadaptive : cfg.adaptive
  · have hrto₁ : ((s.rto.set addr r.onTimeout).get? addr).isSome := by simp
    obtain ⟨rto, hvalue⟩ := rtoValue_isSome
      { s.toCore with rto := s.rto.set addr r.onTimeout } addr cfg hrto₁
    refine ⟨{ s with
      rto := s.rto.set addr r.onTimeout
      timerDeadline := s.timerDeadline.set addr (some (now + rto)) },
      ?_, ?_, ?_, fun _ => ?_⟩
    · simp only [restartTimer, if_neg hempty, if_pos hadaptive, hr, hvalue]
    · simp [lane, Core.lane, hr]
    · intro b hb
      simp [view, lane, Core.lane, Dict.getD, hb]
    · simp [Dict.getD]
  · obtain ⟨rto, hvalue⟩ := rtoValue_isSome s.toCore addr cfg hrto
    refine ⟨{ s with
      timerDeadline := s.timerDeadline.set addr (some (now + rto)) },
      ?_, rfl, ?_, fun _ => ?_⟩
    · simp only [restartTimer, if_neg hempty, if_neg hadaptive, hvalue]
    · intro b hb
      simp [view, lane, Dict.getD, hb]
    · simp [Dict.getD]

/-- What a timeout sweep makes of one peer. -/
inductive Swept (cfg : Config) (input : SweepInput) (addr : Address)
    (s s' : GoBackNTransport) : Prop
  | idle (hlane : s'.lane addr = s.lane addr)
      (htimer : s'.timerDeadline.getD addr none =
          s.timerDeadline.getD addr none ∨
        (sub s.outstanding addr).keys = [])
  | resent (packets : List Bytes)
      (hpackets : ∀ raw ∈ packets,
        ∃ q, (sub s.outstanding addr).get? q = some raw)
      (hlane : s'.lane addr = (s.lane addr).resend packets)
      (htimer : s'.timerDeadline.getD addr none ≠ none)
  | failed (packets : List Bytes) (e : Err)
      (hpackets : ∀ raw ∈ packets,
        ∃ q, (sub s.outstanding addr).get? q = some raw)
      (hlane : s'.lane addr = ((s.lane addr).resend packets).failPeer e)
      (hfails : PeerFails cfg s addr input)

/-- The retransmission of the window and the restart of its timer. -/
theorem resend_spec (h : s.WellFormed) (hrun : ¬ s.crashed.isSome)
    {input : SweepInput} {addr : Address} {deadline : ℚ}
    (htimer : s.timerDeadline.getD addr none = some deadline)
    (hdue : deadline ≤ input.now) (hempty : (sub s.outstanding addr).keys ≠ [])
    {s₁ : GoBackNTransport} (hlane₁ : ∀ b, s₁.lane b = s.lane b) :
    let s' := restartTimer cfg
      (retransmit cfg input addr (sub s.outstanding addr)
        ((sub s.outstanding addr).keys.insertionSort fun a b => a ≤ b) s₁)
      addr (input.restartAt addr)
    (∀ b, b ≠ addr → view b s' = view b s₁) ∧ Swept cfg input addr s s' := by
  obtain ⟨s₂, packets, hs₂, hother₂, hpackets, hlane₂⟩ :=
    retransmit_spec cfg input addr (sub s.outstanding addr)
      ((sub s.outstanding addr).keys.insertionSort fun a b => a ≤ b) s₁
  have hrto₂ : (s₂.rto.get? addr).isSome := by
    have hbase : s.base.get? addr ≠ none := by
      intro hnone
      have hnil := ((h addr).ready.base_none hnone).2
      exact hempty (Dict.eq_empty_iff.mp hnil)
    have hrto := h.estimator hrun hbase
    have hestimator : (s₂.lane addr).estimator = (s.lane addr).estimator := by
      rw [← hlane₁]
      rcases hlane₂ with hok | ⟨what, hfail, -⟩
      · rw [hok]
        rfl
      · rw [hfail]
        rfl
    exact hestimator.trans hrto
  obtain ⟨s₃, hs₃, hlane₃, hother₃, htimer₃⟩ :=
    restartTimer_spec cfg s₂ hrto₂ (input.restartAt addr)
  have hstored : ∀ raw ∈ packets,
      ∃ q, (sub s.outstanding addr).get? q = some raw := by
    intro raw hraw
    obtain ⟨q, hq, rfl⟩ := hpackets raw hraw
    rw [List.mem_insertionSort] at hq
    obtain ⟨x, hx⟩ := Dict.mem_keys.mp hq
    exact ⟨q, by simp [Dict.getD, hx]⟩
  rw [hs₂, hs₃]
  refine ⟨fun b hb => (hother₃ b hb).trans (hother₂ b hb), ?_⟩
  rw [hlane₁] at hlane₂
  rcases hlane₂ with hok | ⟨what, hfail, q, hq, hraise⟩
  · refine .resent packets hstored (hlane₃.trans hok) (htimer₃ ?_)
    have hkeys : (s₂.lane addr).outstanding = (s.lane addr).outstanding := by
      rw [hok]
      rfl
    exact fun hnil => hempty ((congrArg Dict.keys hkeys).symm.trans hnil)
  · refine .failed packets _ hstored (hlane₃.trans hfail) ?_
    refine ⟨⟨deadline, htimer, hdue⟩, hempty, Or.inr ?_⟩
    exact ⟨q, (List.mem_insertionSort _).mp hq, hraise⟩

theorem timeoutPeer_spec (h : s.WellFormed) (hrun : ¬ s.crashed.isSome)
    (input : SweepInput) (addr : Address) :
    (∀ b, b ≠ addr → view b (timeoutPeer cfg input s addr) = view b s) ∧
      Swept cfg input addr s (timeoutPeer cfg input s addr) := by
  cases htimer : s.timerDeadline.getD addr none with
  | none =>
      have hidle : timeoutPeer cfg input s addr = s := by
        simp only [timeoutPeer, htimer]
      rw [hidle]
      exact ⟨fun _ _ => rfl, .idle rfl (Or.inl rfl)⟩
  | some deadline =>
      by_cases hdue : input.now < deadline
      · have hidle : timeoutPeer cfg input s addr = s := by
          simp only [timeoutPeer, htimer, if_pos hdue]
        rw [hidle]
        exact ⟨fun _ _ => rfl, .idle rfl (Or.inl rfl)⟩
      by_cases hempty : (sub s.outstanding addr).keys = []
      · have hclear : timeoutPeer cfg input s addr =
            { s with timerDeadline := s.timerDeadline.set addr none } := by
          simp only [timeoutPeer, htimer, if_neg hdue, if_pos hempty]
        rw [hclear]
        refine ⟨fun b hb => ?_, .idle rfl (Or.inr hempty)⟩
        simp [view, lane, Dict.getD, hb]
      obtain ⟨s₁, hs₁⟩ : ∃ s₁ : GoBackNTransport,
          { s with
            retries := s.retries.set addr (s.retries.getD addr 0 + 1) } =
            s₁ := ⟨_, rfl⟩
      have hlane₁ : ∀ b, s₁.lane b = s.lane b := by
        intro b
        rw [← hs₁]
        rfl
      have hview₁ : ∀ b, b ≠ addr → view b s₁ = view b s := by
        intro b hb
        rw [← hs₁]
        simp [view, lane, Core.lane, Dict.getD, hb]
      by_cases hcap : s.retries.getD addr 0 + 1 > cfg.maxRetries
      · have hfail : timeoutPeer cfg input s addr =
            failPeer s₁ addr (.noAck addr cfg.maxRetries) := by
          simp only [timeoutPeer, htimer, if_neg hdue, if_neg hempty, hs₁,
            if_pos hcap]
        rw [hfail]
        refine ⟨fun b hb => ?_,
          .failed [] (.noAck addr cfg.maxRetries) (by simp) ?_ ?_⟩
        · exact (view_failPeer s₁ addr _ hb).trans (hview₁ b hb)
        · rw [lane_failPeer_self, hlane₁]
          rfl
        · exact ⟨⟨deadline, htimer, not_lt.mp hdue⟩, hempty, Or.inl hcap⟩
      · have hresend : timeoutPeer cfg input s addr = restartTimer cfg
            (retransmit cfg input addr (sub s.outstanding addr)
              ((sub s.outstanding addr).keys.insertionSort fun a b => a ≤ b) s₁)
            addr (input.restartAt addr) := by
          simp only [timeoutPeer, htimer, if_neg hdue, if_neg hempty, hs₁,
            if_neg hcap]
        obtain ⟨hother, hswept⟩ :=
          resend_spec h hrun htimer (not_lt.mp hdue) hempty hlane₁
        rw [hresend]
        exact ⟨fun b hb => (hother b hb).trans (hview₁ b hb), hswept⟩

theorem Swept.step {input : SweepInput} {addr : Address}
    {s' : GoBackNTransport} (h : Swept cfg input addr s s') :
    Lane.Step cfg discipline (PeerFails cfg s addr) (s.lane addr)
      (.timeouts input) (s'.lane addr) := by
  cases h with
  | idle hlane =>
      rw [hlane]
      exact .idle _
  | resent packets hpackets hlane =>
      rw [hlane]
      exact .resend hpackets
  | failed packets e hpackets hlane hfails =>
      rw [hlane]
      exact .giveUp hpackets hfails

/-- `Swept` depends on nothing but the views of the two states. -/
theorem Swept.congr {input : SweepInput} {addr : Address}
    {s₁ s₁' s' : GoBackNTransport} (hview : view addr s₁ = view addr s)
    (hview' : view addr s' = view addr s₁')
    (h : Swept cfg input addr s₁ s₁') : Swept cfg input addr s s' := by
  simp only [view, Prod.mk.injEq] at hview hview'
  obtain ⟨hlane, htimer, hretries⟩ := hview
  obtain ⟨hlane', htimer', -⟩ := hview'
  have houtstanding : sub s₁.outstanding addr = sub s.outstanding addr :=
    congrArg Lane.outstanding hlane
  cases h with
  | idle hl ht =>
      refine .idle (hlane'.trans (hl.trans hlane)) ?_
      rwa [htimer', ← htimer, ← houtstanding]
  | resent packets hp hl ht =>
      refine .resent packets ?_ ?_ ?_
      · rwa [← houtstanding]
      · rw [hlane', hl, hlane]
      · rwa [htimer']
  | failed packets e hp hl hf =>
      refine .failed packets e ?_ ?_ ?_
      · rwa [← houtstanding]
      · rw [hlane', hl, hlane]
      · unfold PeerFails at hf ⊢
        rwa [← htimer, ← houtstanding, ← hretries]

/-- A visit keeps the thread running and the lanes well formed. -/
theorem timeoutPeer_wellFormed (h : s.WellFormed) (hrun : ¬ s.crashed.isSome)
    (input : SweepInput) (addr : Address) :
    (timeoutPeer cfg input s addr).WellFormed ∧
      ¬ (timeoutPeer cfg input s addr).crashed.isSome := by
  obtain ⟨hother, hself⟩ := timeoutPeer_spec h hrun input addr
  constructor
  · intro a
    by_cases ha : a = addr
    · subst ha
      exact (h a).step hself.step
    · have hlane : (timeoutPeer cfg input s addr).lane a = s.lane a :=
        congrArg Prod.fst (hother a ha)
      rw [hlane]
      exact h a
  · have hcrashed : ((timeoutPeer cfg input s addr).lane addr).crashed =
        (s.lane addr).crashed := by
      cases hself with
      | idle hlane => rw [hlane]
      | resent _ _ hlane =>
          rw [hlane]
          rfl
      | failed _ _ _ hlane =>
          rw [hlane]
          rfl
    exact fun hbad => hrun (hcrashed.symm.trans hbad)

/-- A sweep over all peers makes of each peer what its own visit makes. -/
theorem handleTimeouts_swept (h : s.WellFormed) (hrun : ¬ s.crashed.isSome)
    (input : SweepInput) (b : Address) :
    Swept cfg input b s (handleTimeouts cfg s input) := by
  have hsweep := foldl_view
    (fun s addr => if s.crashed.isSome then s else timeoutPeer cfg input s addr)
    id (view b) (fun s => s.WellFormed ∧ ¬ s.crashed.isSome) b
    (fun s addr _ hs => by
      rw [if_neg hs.2]
      exact timeoutPeer_wellFormed hs.1 hs.2 input addr)
    (fun s addr _ hs haddr => by
      rw [if_neg hs.2]
      exact (timeoutPeer_spec hs.1 hs.2 input addr).1 b (Ne.symm haddr))
    (by simpa using s.timerDeadline.nodup_keys) s ⟨h, hrun⟩
  rcases hsweep with ⟨-, hsame⟩ | ⟨x, -, rfl, s', ⟨hs', hrun'⟩, hview, hfinal⟩
  · simp only [view, Prod.mk.injEq] at hsame
    exact .idle hsame.1 (Or.inl hsame.2.1)
  · rw [if_neg hrun'] at hfinal
    exact (timeoutPeer_spec hs' hrun' input x).2.congr hview hfinal

/-! ## Every event is a step -/

/-- Every event is a step of the protocol on every lane. -/
theorem step_refines (h : s.WellFormed) (e : Event) (b : Address) :
    Lane.Step cfg discipline (PeerFails cfg s b) (s.lane b) e
      ((step cfg s e).lane b) := by
  rw [step_eq]
  exact (shared cfg).lane_step
    (fun hrun addr hnext => estimator_of_nextToSend cfg (h addr) hrun hnext)
    (fun input hrun => (handleTimeouts_swept h hrun input b).step)
    (fun raw addr input hrun => handleIncoming_step h hrun raw addr input b) e

end

/-- A Go-Back-N transport as an endpoint. -/
def endpoint (cfg : Config) : Endpoint cfg where
  State := GoBackNTransport
  init := init
  step := step cfg
  core s := s.toCore
  buffer _ _ := ∅
  discipline := discipline
  PeerFails := PeerFails cfg
  lane_init _ := rfl
  refines _ e b h := step_refines h e b
  pump_pending s addr input seq item hrun hnext := by
    have hrun' : ¬ s.crashed.isSome := Option.not_isSome_iff_eq_none.mpr hrun
    have hstep : step cfg s (.pump addr input) = pumpPacket cfg s addr input :=
      if_neg hrun'
    rw [hstep]
    exact ((shared cfg).pumped s addr input hrun').pending hnext

def handled (cfg : Config) : (endpoint cfg).Handled where
  toHandlers := handlers cfg
  shared := shared cfg
  step_eq := step_eq cfg

theorem ackSteps_handleAck (cfg : Config) (s : GoBackNTransport) (raw : Bytes)
    (addr : Address) (input : IncomingInput) :
    AckSteps addr s.toCore (handleAck cfg s raw addr input).toCore := by
  apply handleAck_keeps cfg (R := fun s s' => AckSteps addr s.toCore s'.toCore)
    (fun s => .refl) (fun _ _ _ h h' => h.trans h')
  · intro s acknowledged ack
    exact .tail (.single (.complete acknowledged)) (.slide ack)
  · exact fun s base acknowledged now => .single (.sample base acknowledged now)
  · exact fun s deadline => .refl
  · exact fun s e => .single (.crash e)

theorem handleAck_other (cfg : Config) (s : GoBackNTransport) {raw : Bytes}
    (hnumber : ackNumber raw = none) (addr : Address)
    (input : IncomingInput) : handleAck cfg s raw addr input = s := by
  rcases hdecode : decode raw with e | ⟨header, payload⟩
  · simp only [handleAck, hdecode]
  · simp only [handleAck, hdecode, if_pos (ackNumber_eq_none hnumber hdecode)]

/-- The cumulative acknowledgement number is at most the next expected one. -/
theorem ackFor_le (cfg : Config) (l : Lane) (seq : ℕ) (payload : Bytes) :
    (receive l seq payload).ackFor ≤ l.expected + cfg.windowSize := by
  have hwindow := cfg.windowPos
  unfold receive
  split_ifs
  · exact Nat.add_le_add_left hwindow _
  · exact Nat.le_add_right _ _

/-- What arrives, on the common state. -/
theorem arrived (cfg : Config) (s : GoBackNTransport) (raw : Bytes)
    (addr : Address) (input : IncomingInput) (hrun : ¬ s.crashed.isSome) :
    Arrived cfg raw addr input (handleAck cfg s raw addr input).toCore s.toCore
      (step cfg s (.incoming raw addr input)).toCore := by
  have hstep : step cfg s (.incoming raw addr input) =
      handleIncoming cfg s raw addr input := if_neg hrun
  rw [hstep]
  rcases handleIncoming_cases cfg s raw addr input with
    ⟨n, hraw, hack⟩ | ⟨seq, payload, expected, hraw, hother, hdata⟩ | ⟨hraw, hsame⟩
  · rw [hack]
    exact .ack hraw
  · rw [hdata]
    exact .data hraw hother _ (ackFor_le cfg (s.lane addr) seq payload)
  · rw [hsame]
    exact .other hraw

def handlesAcks (cfg : Config) : (endpoint cfg).HandlesAcks where
  handle := handleAck cfg
  other s _ addr input hnumber := handleAck_other cfg s hnumber addr input
  lane s raw addr input n h hrun hnumber b := by
    obtain ⟨header, payload, hdecode, hflag, rfl⟩ := ackNumber_eq_some hnumber
    have hspec := handleAck_spec cfg h hrun hdecode hflag addr input
    change (handleAck cfg s raw addr input).lane b =
      if b = addr then (s.lane b).acked slide header.ack else s.lane b
    unfold Lane.acked
    rcases hslide : slide (s.lane addr) header.ack with _ | ⟨seqs, base⟩
    · rw [hslide] at hspec
      dsimp only at hspec
      rw [hspec]
      split_ifs with hb
      · rw [hb, hslide]
      · rfl
    · rw [hslide] at hspec
      rw [hspec.1 b]
      split_ifs with hb
      · rw [hb, hslide]
      · rfl
  steps := ackSteps_handleAck cfg
  arrived := arrived cfg
  ignores s raw addr input hraw := by
    change (if _ then s else handleIncoming cfg s raw addr input) = s
    rw [handleIncoming_of_isOther cfg s hraw, ite_self]

theorem pumpPeer_eq (cfg : Config) (input : Address → ℕ → PumpInput)
    (addr : Address) (n : ℕ) (s : GoBackNTransport) :
    pumpPeer cfg input addr n s = (endpoint cfg).pumpPeer input addr n s :=
  Endpoint.pumpPeer_unique (endpoint cfg) (pumpPacket cfg)
    (fun _ _ _ hrun => if_neg hrun) input addr (pumpPeer cfg input addr)
    (fun _ => rfl) (fun _ _ => rfl) n s

theorem pumpWindows_eq (cfg : Config) (input : Address → ℕ → PumpInput)
    (s : GoBackNTransport) :
    pumpWindows cfg input s = (endpoint cfg).pumpWindows input s := by
  simp only [pumpWindows, pumpPeer_eq]
  rfl

end GoBackNTransport

end UdpArq
