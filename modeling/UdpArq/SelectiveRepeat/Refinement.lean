import UdpArq.SelectiveRepeat.Transport
import UdpArq.Transport.Acks
import UdpArq.Transport.Loop

/-!
# Selective Repeat follows the sliding-window protocol

The discipline of `selective_repeat.py`: individual acknowledgements and a
receiver that buffers what arrives early.  Every event of the transport is a
step of the protocol on every lane.
-/

namespace UdpArq

namespace SelectiveRepeatTransport

open UdpArq.Core

/-! ## Sliding the send window -/

/-- The base moves over numbers that are not outstanding, until it meets one
that is, or the counter. -/
theorem advanceBase_spec (outstanding : Dict ℕ Bytes) (nextSeq n base : ℕ)
    (hn : nextSeq ≤ base + n) :
    let base' := advanceBase outstanding nextSeq n base
    base ≤ base' ∧ base' ≤ max base nextSeq ∧
      (∀ q, base ≤ q → q < base' → q ∉ outstanding.keys) ∧
      (base' < nextSeq → base' ∈ outstanding.keys) := by
  induction n generalizing base with
  | zero =>
      simp only [advanceBase]
      refine ⟨le_rfl, le_max_left _ _, ?_, ?_⟩
      · intro q hlo hhi
        omega
      · intro hlt
        omega
  | succ n ih =>
      by_cases hgo : base < nextSeq ∧ base ∉ outstanding.keys
      · simp only [advanceBase, if_pos hgo]
        obtain ⟨hle, hmax, hskip, hstop⟩ := ih (base + 1) (by omega)
        refine ⟨by omega, by omega, ?_, hstop⟩
        intro q hlo hhi
        by_cases hq : q = base
        · rw [hq]
          exact hgo.2
        · exact hskip q (by omega) hhi
      · simp only [advanceBase, if_neg hgo]
        refine ⟨le_rfl, le_max_left _ _, ?_, ?_⟩
        · intro q hlo hhi
          omega
        · intro hlt
          by_contra hno
          exact hgo ⟨hlt, hno⟩

/-- An acknowledgement `n` covers datagram `n - 1`. -/
def slide (l : Lane) (n : ℕ) : Option (List ℕ × ℕ) :=
  match l.base with
  | none => none
  | some base =>
      if n > l.nextSeq then none
      else
        match n with
        | 0 => none
        | acked + 1 =>
            if acked ∈ l.outstanding.keys then
              some ([acked], advanceBase (l.outstanding.eraseAll [acked])
                l.nextSeq (l.nextSeq - base) base)
            else none

theorem slide_eq_some {l : Lane} {n base : ℕ} {seqs : List ℕ}
    (h : slide l n = some (seqs, base)) :
    ∃ old acked, l.base = some old ∧ n = acked + 1 ∧ n ≤ l.nextSeq ∧
      acked ∈ l.outstanding.keys ∧ seqs = [acked] ∧
      base = advanceBase (l.outstanding.eraseAll [acked]) l.nextSeq
        (l.nextSeq - old) old := by
  unfold slide at h
  cases hold : l.base with
  | none => simp [hold] at h
  | some old =>
      simp only [hold] at h
      cases n with
      | zero => simp at h
      | succ acked =>
          by_cases hgt : acked + 1 > l.nextSeq
          · simp [hgt] at h
          by_cases hmem : acked ∈ l.outstanding.keys
          · simp only [if_neg hgt, if_pos hmem] at h
            cases h
            exact ⟨old, acked, rfl, rfl, not_lt.mp hgt, hmem, rfl, rfl⟩
          · simp [hgt, hmem] at h

theorem slide_sound {l : Lane} {n base : ℕ} {seqs : List ℕ}
    (h : slide l n = some (seqs, base)) :
    l.Slides (fun n q => n = q + 1) n seqs base := by
  obtain ⟨old, acked, hold, rfl, hle, hmem, rfl, rfl⟩ := slide_eq_some h
  obtain ⟨hmove, hmax, -, hstop⟩ := advanceBase_spec
    (l.outstanding.eraseAll [acked]) l.nextSeq (l.nextSeq - old) old (by omega)
  refine ⟨?_, old, hold, hmove, hmax, fun hempty => ?_⟩
  · intro q hq
    rw [List.mem_singleton.mp hq]
    exact ⟨hmem, rfl⟩
  · right
    by_contra hlt
    have hin := hstop (not_le.mp hlt)
    rw [hempty] at hin
    simp at hin

/-! ## Reassembly -/

/-- What `while expected in buffer` does: it takes out the payloads from
`expected` on, up to the first number that the buffer lacks. -/
theorem drainBuffer_eq (n : ℕ) (buffer : Dict ℕ Bytes) (expected : ℕ)
    (hn : buffer.keys.length ≤ n) :
    let left := drainBuffer n buffer expected
    expected ≤ left.2.2 ∧
      left.1.map some =
        (List.range' expected (left.2.2 - expected)).map buffer.get? ∧
      (∀ q, left.2.1.get? q =
        if expected ≤ q ∧ q < left.2.2 then none else buffer.get? q) ∧
      left.2.1.get? left.2.2 = none := by
  induction n generalizing buffer expected with
  | zero =>
      have hnil : buffer = ∅ :=
        Dict.eq_empty_iff.mpr (List.length_eq_zero_iff.mp (by omega))
      subst hnil
      exact ⟨le_rfl, by simp [drainBuffer], fun q => (ite_self _).symm, rfl⟩
  | succ n ih =>
      cases hget : buffer.get? expected with
      | none =>
          have heq : drainBuffer (n + 1) buffer expected =
              ([], buffer, expected) := by simp only [drainBuffer, hget]
          have hnone : ∀ q, ¬ (expected ≤ q ∧ q < expected) := by omega
          rw [heq]
          exact ⟨le_rfl, by simp, fun q => (if_neg (hnone q)).symm, hget⟩
      | some payload =>
          have hlen := Dict.length_keys_erase (Dict.mem_keys.mpr ⟨payload, hget⟩)
          obtain ⟨hmove, htaken, hleft, hstop⟩ :=
            ih (buffer.erase expected) (expected + 1) (by omega)
          simp only [drainBuffer, hget]
          refine ⟨by omega, ?_, ?_, hstop⟩
          · have hcount : (drainBuffer n (buffer.erase expected)
                (expected + 1)).2.2 - expected =
                  (drainBuffer n (buffer.erase expected)
                    (expected + 1)).2.2 - (expected + 1) + 1 := by omega
            rw [List.map_cons, hcount, List.range'_succ, List.map_cons, hget,
              htaken]
            refine congrArg _ (List.map_congr_left fun q hq => ?_)
            rw [List.mem_range'_1] at hq
            exact (Dict.get?_erase _ _ _).trans (if_neg (by omega))
          · intro q
            rw [hleft, Dict.get?_erase]
            by_cases hq : q = expected
            · subst hq
              rw [if_neg (by omega), if_pos rfl, if_pos ⟨le_rfl, by omega⟩]
            · rw [if_neg hq]
              refine if_congr ?_ rfl rfl
              omega

/-- Of a buffer whose entries agree with `handed`, the payloads that follow in
`handed` are taken out, up to the first one that the buffer lacks. -/
theorem drainBuffer_spec {handed : List Bytes} (n : ℕ) (buffer : Dict ℕ Bytes)
    (expected : ℕ) (hn : buffer.keys.length ≤ n)
    (hbuffer : ∀ q p, buffer.get? q = some p →
      expected ≤ q ∧ handed[q]? = some p)
    (hle : expected ≤ handed.length) :
    let left := drainBuffer n buffer expected
    handed.take expected ++ left.1 = handed.take left.2.2 ∧
      expected ≤ left.2.2 ∧ left.2.2 ≤ handed.length ∧
      (∀ q p, left.2.1.get? q = some p →
        buffer.get? q = some p ∧ left.2.2 < q) ∧
      ∀ q, q ∈ buffer.keys → q < left.2.2 ∨ q ∈ left.2.1.keys := by
  have heq := drainBuffer_eq n buffer expected hn
  simp only at heq ⊢
  generalize drainBuffer n buffer expected = left at heq ⊢
  obtain ⟨hmove, htaken, hleft, hstop⟩ := heq
  have hin : ∀ q, expected ≤ q → q < left.2.2 →
      ∃ p, buffer.get? q = some p ∧ handed[q]? = some p := by
    intro q hlo hhi
    have hmem : buffer.get? q ∈ left.1.map some := by
      rw [htaken]
      exact List.mem_map_of_mem (List.mem_range'_1.mpr ⟨hlo, by omega⟩)
    obtain ⟨p, -, hp⟩ := List.mem_map.mp hmem
    exact ⟨p, hp.symm, (hbuffer q p hp.symm).2⟩
  have hbound : left.2.2 ≤ handed.length := by
    by_contra hlt
    obtain ⟨p, -, hp⟩ := hin handed.length hle (not_le.mp hlt)
    simp at hp
  refine ⟨?_, hmove, hbound, ?_, ?_⟩
  · have hdrop : left.1 = (handed.drop expected).take (left.2.2 - expected) := by
      apply List.map_injective_iff.mpr (Option.some_injective Bytes)
      rw [htaken]
      apply List.ext_getElem?
      intro i
      by_cases hi : i < left.2.2 - expected
      · obtain ⟨p, hp, hhanded⟩ := hin (expected + i) (by omega) (by omega)
        simp [hi, hp, hhanded]
      · simp [hi]
    rw [hdrop, ← List.take_add]
    exact congrArg (fun n => handed.take n) (Nat.add_sub_cancel' hmove)
  · intro q p hq
    rw [hleft] at hq
    split_ifs at hq with hrange
    have hlo := (hbuffer q p hq).1
    refine ⟨hq, lt_of_le_of_ne (by omega) ?_⟩
    rintro rfl
    rw [hleft, if_neg (by omega), hq] at hstop
    cases hstop
  · intro q hq
    obtain ⟨p, hp⟩ := Dict.mem_keys.mp hq
    have hlo := (hbuffer q p hp).1
    by_cases hlt : q < left.2.2
    · exact Or.inl hlt
    · exact Or.inr (Dict.mem_keys.mpr
        ⟨p, (hleft q).trans ((if_neg (by omega)).trans hp)⟩)

/-- The buffer after a datagram has been stored, if it lies in the window. -/
def store (window : ℕ) (l : Lane) (seq : ℕ) (payload : Bytes) : Dict ℕ Bytes :=
  if l.expected ≤ seq ∧ seq < l.expected + window then
    l.buffer.set seq payload
  else l.buffer

def receive (window : ℕ) (l : Lane) (seq : ℕ) (payload : Bytes) : Reception :=
  let buffer := store window l seq payload
  let left := drainBuffer buffer.keys.length buffer l.expected
  { expected := left.2.2
    buffer := left.2.1
    ackFor :=
      if (l.expected ≤ seq ∧ seq < l.expected + window) ∨ seq < l.expected
      then seq + 1 else l.expected
    payloads := left.1 }

theorem receive_sound {window : ℕ} {handed : List Bytes} {l : Lane} {seq : ℕ}
    {payload : Bytes} (h : l.Reassembles window handed)
    (hseq : handed[seq]? = some payload) :
    l.Receives (fun n q => n = q + 1) window handed
      (receive window l seq payload) := by
  have hstore : ∀ q p, (store window l seq payload).get? q = some p →
      l.expected ≤ q ∧ q < l.expected + window ∧ handed[q]? = some p := by
    intro q p hq
    unfold store at hq
    split_ifs at hq with hwindow
    · rw [Dict.get?_set] at hq
      by_cases hqs : q = seq
      · rw [if_pos hqs, Option.some.injEq] at hq
        subst hq hqs
        exact ⟨hwindow.1, hwindow.2, hseq⟩
      · rw [if_neg hqs] at hq
        obtain ⟨hlo, hhi, hp⟩ := h.buffered q p hq
        exact ⟨hlo.le, hhi, hp⟩
    · obtain ⟨hlo, hhi, hp⟩ := h.buffered q p hq
      exact ⟨hlo.le, hhi, hp⟩
  have hkeep : ∀ q ∈ l.buffer.keys, q ∈ (store window l seq payload).keys := by
    intro q hq
    unfold store
    split_ifs
    · rw [Dict.mem_keys] at hq ⊢
      obtain ⟨p, hp⟩ := hq
      by_cases hqs : q = seq
      · exact ⟨payload, by simp [hqs]⟩
      · exact ⟨p, by simp [hqs, hp]⟩
    · exact hq
  obtain ⟨htake, hmove, hbound, hleft, hkeys⟩ := drainBuffer_spec
    (store window l seq payload).keys.length (store window l seq payload)
    l.expected le_rfl (fun q p hq => ⟨(hstore q p hq).1, (hstore q p hq).2.2⟩)
    h.expected_le
  obtain ⟨hlt, -⟩ := List.getElem?_eq_some_iff.mp hseq
  refine ⟨⟨?_, hbound, ?_⟩, ?_, ?_, ?_⟩
  · change l.delivered ++ _ = _
    rw [h.delivered]
    exact htake
  · intro q p hq
    obtain ⟨hold, hgt⟩ := hleft q p hq
    obtain ⟨-, hhi, hp⟩ := hstore q p hold
    have hmove' : l.expected ≤ (receive window l seq payload).expected := hmove
    refine ⟨hgt, ?_, hp⟩
    change q < (receive window l seq payload).expected + window
    omega
  · rintro q (hq | hq)
    · exact Or.inl (hq.trans_le hmove)
    · exact hkeys q (hkeep q hq)
  · have hexpected := h.expected_le
    simp only [receive]
    split_ifs
    · exact hlt
    · exact hexpected
  · intro q hq
    simp only [receive] at hq
    split_ifs at hq with hwindow
    · have hqs : q = seq := by omega
      rcases hwindow with hin | hold
      · apply hkeys q
        rw [hqs, store, if_pos hin]
        exact Dict.mem_keys.mpr ⟨payload, by simp⟩
      · exact Or.inl (lt_of_lt_of_le (by omega) hmove)
    · exact Or.inl (lt_of_lt_of_le (by omega) hmove)

/-- Selective Repeat as a discipline. -/
def discipline (cfg : Config) : Discipline where
  window := cfg.windowSize
  covers n q := n = q + 1
  slide := slide
  receive := receive cfg.windowSize
  slide_sound := slide_sound
  receive_sound := receive_sound

/-! ## The lanes of a transport -/

variable (cfg : Config)

def lane (s : SelectiveRepeatTransport) (addr : Address) : Lane :=
  s.toCore.lane (sub s.buffer addr) addr

/-- A sweep gives the peer up: some of its packets are due, and the retries are
used up or a retransmission raises. -/
def PeerFails (s : SelectiveRepeatTransport) (addr : Address)
    (input : SweepInput) : Prop :=
  ∃ seqs, (groupDue s (s.timerHeap.popDue input.now).1 ∅).get? addr =
      some seqs ∧
    (s.retries.getD addr 0 + 1 > cfg.maxRetries ∨
      ∃ seq ∈ seqs, input.sendResult addr seq ≠ none)

def WellFormed (s : SelectiveRepeatTransport) : Prop :=
  ∀ addr, (s.lane addr).WellFormed

/-- A running thread has an estimator for every peer with sender state. -/
theorem WellFormed.estimator {s : SelectiveRepeatTransport} (h : s.WellFormed)
    (hrun : ¬ s.crashed.isSome) {addr : Address}
    (hbase : s.base.get? addr ≠ none) : (s.rto.get? addr).isSome :=
  (h addr).ready.estimator (by simpa [lane, Core.lane] using hrun) hbase

section

variable {cfg} {s : SelectiveRepeatTransport} {fails : SweepInput → Prop}

theorem drained (cfg : Config) (s : SelectiveRepeatTransport) :
    Drained cfg s.toCore (drainItem cfg s).toCore := by
  rcases hqueue : s.outbound with _ | ⟨item, rest⟩
  · simp only [drainItem, hqueue]
    exact .idle hqueue
  rcases hnew : newEstimator cfg with _ | r
  · simp only [drainItem, hqueue, hnew]
    exact .crash hqueue hnew _ (Or.inr rfl)
  · simp only [drainItem, hqueue, hnew]
    exact .register hqueue hnew

theorem sub_buffer_drainItem (cfg : Config) (s : SelectiveRepeatTransport)
    (b : Address) : sub (drainItem cfg s).buffer b = sub s.buffer b := by
  unfold drainItem
  rcases s.outbound with _ | ⟨item, rest⟩
  · rfl
  · rcases newEstimator cfg with _ | r <;> exact sub_setdefault_empty _ _ _

theorem armTimer_spec (cfg : Config) (s : SelectiveRepeatTransport)
    {addr : Address} (hrto : (s.rto.get? addr).isSome) (seq : ℕ) (now : ℚ) :
    ∃ heap, armTimer cfg s addr seq now = { s with timerHeap := heap } := by
  obtain ⟨rto, hvalue⟩ := rtoValue_isSome s.toCore addr cfg hrto
  refine ⟨s.timerHeap.schedule (addr, seq) (now + rto), ?_⟩
  simp only [armTimer, hvalue]

theorem armTimer_cases (cfg : Config) (s : SelectiveRepeatTransport)
    (addr : Address) (seq : ℕ) (now : ℚ) :
    (armTimer cfg s addr seq now).toCore = s.toCore ∨
      s.rtoValue cfg addr = none ∧
        (armTimer cfg s addr seq now).toCore = s.crash (.keyError addr) := by
  unfold armTimer
  rcases hvalue : s.rtoValue cfg addr with _ | rto
  · exact Or.inr ⟨rfl, rfl⟩
  · exact Or.inl rfl

theorem buffer_armTimer (cfg : Config) (s : SelectiveRepeatTransport)
    (addr : Address) (seq : ℕ) (now : ℚ) :
    (armTimer cfg s addr seq now).buffer = s.buffer := by
  unfold armTimer
  split <;> rfl

theorem shared (cfg : Config) :
    (handlers cfg).Shared cfg fun s addr => sub s.buffer addr where
  drained := drained cfg
  pump_eq _ _ _ := rfl
  core_armTimer := armTimer_cases cfg
  core_stopTimer _ _ _ := rfl
  buffer_withCore _ _ := rfl
  buffer_drain s := funext (sub_buffer_drainItem cfg s)
  buffer_armTimer s addr seq now := by
    change (fun b => sub (armTimer cfg s addr seq now).buffer b) = _
    rw [buffer_armTimer]
  buffer_stopTimer _ _ _ := rfl

/-! ## Incoming packets -/

/-- The end of `_handle_ack`: the round-trip sample is invisible in the lanes,
then the base moves over what is not outstanding. -/
theorem finishAck_spec (cfg : Config) (s : SelectiveRepeatTransport)
    {addr : Address} (hrun : ¬ s.crashed.isSome)
    (hrto : (s.rto.get? addr).isSome) (seq : ℕ) (acknowledged : List ℕ)
    (ackedAt : ℚ) (nextSeq base : ℕ) (b : Address) :
    (let s₂ : SelectiveRepeatTransport :=
      if cfg.adaptive then
        { s with toCore := s.sampleRtt addr seq acknowledged ackedAt }
      else s
    if s₂.crashed.isSome then s₂
    else
      { s₂ with
        base := s₂.base.set addr
          (advanceBase (sub s₂.outstanding addr) nextSeq (nextSeq - base) base)
        retries := s₂.retries.set addr 0 }).lane b =
      if b = addr then
        (s.lane b).slideTo (advanceBase (s.lane addr).outstanding nextSeq
          (nextSeq - base) base)
      else s.lane b := by
  obtain ⟨s₂, hs₂⟩ : ∃ s₂ : SelectiveRepeatTransport,
      (if cfg.adaptive then
        { s with toCore := s.sampleRtt addr seq acknowledged ackedAt }
      else s) = s₂ := ⟨_, rfl⟩
  have hlane₂ : ∀ a, s₂.lane a = s.lane a := by
    intro a
    rw [← hs₂]
    split
    · exact lane_sampleRtt s.toCore _ addr a hrto seq acknowledged ackedAt
    · rfl
  have hrun₂ : ¬ s₂.crashed.isSome := by
    have hcrashed : s₂.crashed.isSome = s.crashed.isSome :=
      congrArg Lane.crashed (hlane₂ addr)
    rwa [hcrashed]
  have houtstanding : sub s₂.outstanding addr = (s.lane addr).outstanding :=
    congrArg Lane.outstanding (hlane₂ addr)
  simp only [hs₂, if_neg hrun₂, houtstanding, ← hlane₂ b]
  exact lane_slideTo s₂.toCore (sub s₂.buffer b) addr b _ _

/-- What all assignments of `_handle_ack` keep, `_handle_ack` keeps. -/
theorem handleAck_keeps (cfg : Config)
    {R : SelectiveRepeatTransport → SelectiveRepeatTransport → Prop}
    {addr : Address}
    (hrefl : ∀ s, R s s) (htrans : ∀ s s' s'', R s s' → R s' s'' → R s s'')
    (hcomplete : ∀ (s : SelectiveRepeatTransport) acked,
      R s { s with
        toCore := s.complete addr [acked]
        timerHeap := s.timerHeap.cancel (addr, acked) })
    (hsample : ∀ (s : SelectiveRepeatTransport) seq acknowledged now,
      R s { s with toCore := s.sampleRtt addr seq acknowledged now })
    (hbase : ∀ (s : SelectiveRepeatTransport) base,
      R s { s with
        base := s.base.set addr base
        retries := s.retries.set addr 0 })
    (s : SelectiveRepeatTransport) (raw : Bytes) (input : IncomingInput) :
    R s (handleAck cfg s raw addr input) := by
  have hfinish : ∀ (s : SelectiveRepeatTransport) seq acknowledged ackedAt
      (newBase : Core → ℕ),
      R s (let s₂ : SelectiveRepeatTransport :=
          if cfg.adaptive then
            { s with toCore := s.sampleRtt addr seq acknowledged ackedAt }
          else s
        if s₂.crashed.isSome then s₂
        else
          { s₂ with
            base := s₂.base.set addr (newBase s₂.toCore)
            retries := s₂.retries.set addr 0 }) := by
    intro s seq acknowledged ackedAt newBase
    have hsampled : R s (if cfg.adaptive then
        { s with toCore := s.sampleRtt addr seq acknowledged ackedAt }
        else s) := by
      split
      · exact hsample s seq acknowledged ackedAt
      · exact hrefl s
    generalize (if cfg.adaptive then
      { s with toCore := s.sampleRtt addr seq acknowledged ackedAt }
      else s) = s₂ at hsampled ⊢
    dsimp only
    split
    · exact hsampled
    · exact htrans s s₂ _ hsampled (hbase s₂ _)
  rcases hdecode : decode raw with e | ⟨header, payload⟩
  · simp only [handleAck, hdecode]
    exact hrefl s
  simp only [handleAck, hdecode]
  split
  · exact hrefl s
  split
  · exact hrefl s
  rename_i base _
  split
  · exact hrefl s
  split
  · exact hrefl s
  rename_i acked _
  split
  · exact htrans s _ _ (hcomplete s acked) (hfinish _ acked [acked] _
      fun c => advanceBase (sub c.outstanding addr) (s.nextSeq.getD addr base)
        (s.nextSeq.getD addr base - base) base)
  · exact hrefl s

/-- An acknowledgement slides the window or changes nothing. -/
theorem handleAck_spec (cfg : Config) (h : s.WellFormed)
    (hrun : ¬ s.crashed.isSome) {raw : Bytes} {header : Header}
    {payload : Bytes} (hdecode : decode raw = .ok (header, payload))
    (hflag : header.flags &&& FLAG_ACK ≠ 0) (addr : Address)
    (input : IncomingInput) (b : Address) :
    (handleAck cfg s raw addr input).lane b =
      match slide (s.lane addr) header.ack with
      | none => s.lane b
      | some (seqs, base) =>
          if b = addr then ((s.lane b).complete seqs).slideTo base
          else s.lane b := by
  unfold slide
  cases hbase : (s.lane addr).base with
  | none =>
      have hget : s.base.get? addr = none := hbase
      simp [handleAck, hdecode, hflag, hget]
  | some base =>
      have hget : s.base.get? addr = some base := hbase
      obtain ⟨-, hpos⟩ := (h addr).ready.base_le base hbase
      have hnext : s.nextSeq.getD addr base = (s.lane addr).nextSeq :=
        Dict.getD_of_ne_default hpos.ne' base
      by_cases hbeyond : header.ack > (s.lane addr).nextSeq
      · simp [handleAck, hdecode, hflag, hget, hnext, hbeyond]
      cases hnumber : header.ack with
      | zero => simp [handleAck, hdecode, hflag, hget, hnumber]
      | succ acked =>
          rw [hnumber] at hbeyond
          by_cases hmem : acked ∈ (s.lane addr).outstanding.keys
          · have hmem' : acked ∈ (sub s.outstanding addr).keys := hmem
            have hrto : (s.rto.get? addr).isSome :=
              h.estimator hrun (by simp [hget])
            have hfinish := finishAck_spec cfg
              { s with
                toCore := s.complete addr [acked]
                timerHeap := s.timerHeap.cancel (addr, acked) }
              hrun hrto acked [acked] input.ackedAt (s.lane addr).nextSeq base b
            have hcomplete : ∀ a, ({ s with
                toCore := s.complete addr [acked]
                timerHeap := s.timerHeap.cancel (addr, acked) } :
                  SelectiveRepeatTransport).lane a =
                if a = addr then (s.lane a).complete [acked] else s.lane a :=
              fun a => lane_complete s.toCore (sub s.buffer a) addr a [acked]
            rw [hcomplete b, hcomplete addr, if_pos rfl] at hfinish
            simp only [hbeyond, if_false, hmem, if_true]
            refine Eq.trans ?_ (hfinish.trans ?_)
            · simp only [handleAck, hdecode, hflag, if_false, hget, hnext,
                hnumber, hbeyond, hmem', if_true]
            · split_ifs <;> rfl
          · have hmem' : acked ∉ (sub s.outstanding addr).keys := hmem
            simp [handleAck, hdecode, hflag, hget, hnumber, hmem, hmem']

/-- What becomes of a valid acknowledgement. -/
theorem handleIncoming_ack (cfg : Config) (h : s.WellFormed)
    (hrun : ¬ s.crashed.isSome) {raw : Bytes} {n : ℕ} (hraw : IsAck raw n)
    (addr : Address) (input : IncomingInput) (b : Address) :
    (handleIncoming cfg s raw addr input).lane b =
      match slide (s.lane addr) n with
      | none => s.lane b
      | some (seqs, base) =>
          if b = addr then ((s.lane b).complete seqs).slideTo base
          else s.lane b := by
  obtain ⟨hverify, header, payload, hdecode, hflag, rfl⟩ := hraw
  have hincoming : handleIncoming cfg s raw addr input =
      handleAck cfg s raw addr input := by
    simp [handleIncoming, hverify, hdecode, hflag]
  rw [hincoming]
  exact handleAck_spec cfg h hrun hdecode hflag addr input b

theorem handleData_eq (cfg : Config) (s : SelectiveRepeatTransport) (seq : ℕ)
    (payload : Bytes) (addr : Address) (input : IncomingInput) :
    let r := receive cfg.windowSize (s.lane addr) seq payload
    handleData cfg s seq payload addr input =
      { s with
        toCore := ({ s.toCore with
          expected := s.expected.set addr r.expected } : Core).acknowledge addr
            r.ackFor r.payloads input.sendResult
        buffer := s.buffer.set addr r.buffer } := rfl

theorem handleIncoming_data {raw payload : Bytes} {seq : ℕ}
    (hraw : IsData raw seq payload) (addr : Address) (input : IncomingInput) :
    handleIncoming cfg s raw addr input =
      handleData cfg s seq payload addr input := by
  obtain ⟨hverify, header, hdecode, hack, hdata, rfl⟩ := hraw
  have hverify' : ¬ verify raw = false := by simp [hverify]
  simp only [handleIncoming, if_neg hverify', hdecode, if_neg (not_not.mpr hack),
    if_neg hdata]

theorem handleIncoming_of_isOther (cfg : Config) (s : SelectiveRepeatTransport)
    {raw : Bytes} (hraw : IsOther raw) (addr : Address) (input : IncomingInput) :
    handleIncoming cfg s raw addr input = s := by
  unfold handleIncoming
  by_cases hverify : verify raw = false
  · exact if_pos hverify
  rw [if_neg hverify]
  rcases hdecode : decode raw with e | ⟨header, payload⟩
  · rfl
  · obtain ⟨hack, hdata⟩ := hraw.flags (by simpa using hverify) hdecode
    simp [hack, hdata]

/-- What arrives is an acknowledgement, or a datagram, or is dropped. -/
theorem handleIncoming_cases (cfg : Config) (s : SelectiveRepeatTransport)
    (raw : Bytes) (addr : Address) (input : IncomingInput) :
    (∃ n, IsAck raw n ∧ handleIncoming cfg s raw addr input =
      handleAck cfg s raw addr input) ∨
    (∃ seq payload, IsData raw seq payload ∧
      handleIncoming cfg s raw addr input =
        handleData cfg s seq payload addr input) ∨
    IsOther raw ∧ handleIncoming cfg s raw addr input = s := by
  rcases isAck_or_isData_or_isOther raw with
    ⟨n, hraw⟩ | ⟨seq, payload, hraw⟩ | hraw
  · obtain ⟨hverify, header, payload, hdecode, hflag, rfl⟩ := hraw
    refine Or.inl ⟨_, ⟨hverify, header, payload, hdecode, hflag, rfl⟩, ?_⟩
    simp [handleIncoming, hverify, hdecode, hflag]
  · exact Or.inr (Or.inl ⟨seq, payload, hraw,
      handleIncoming_data hraw addr input⟩)
  · exact Or.inr (Or.inr ⟨hraw, handleIncoming_of_isOther cfg s hraw addr input⟩)

theorem handleIncoming_step (h : s.WellFormed) (hrun : ¬ s.crashed.isSome)
    (raw : Bytes) (addr : Address) (input : IncomingInput) (b : Address) :
    Lane.Step cfg (discipline cfg) fails (s.lane b) (.incoming raw addr input)
      ((handleIncoming cfg s raw addr input).lane b) := by
  rcases handleIncoming_cases cfg s raw addr input with
    ⟨n, hraw, -⟩ | ⟨seq, payload, hraw, hdata⟩ | ⟨-, hsame⟩
  · rw [handleIncoming_ack cfg h hrun hraw addr input b]
    cases hslide : slide (s.lane addr) n with
    | none => exact .idle _
    | some p =>
        simp only
        split_ifs with hb
        · subst hb
          exact .ack hraw hslide
        · exact .idle _
  · have hreceive : b = addr →
        (discipline cfg).receive (s.lane b) seq payload =
          receive cfg.windowSize (s.lane addr) seq payload := by
      rintro rfl
      rfl
    rw [hdata, handleData_eq]
    refine Lane.Step.acknowledge (s.lane b) _ hraw ?_ hreceive input
    change Core.lane _ (sub (s.buffer.set addr _) b) b =
      if b = addr then _ else _
    rw [lane_expected, sub_set]
    split_ifs <;> rfl
  · rw [hsame]
    exact .idle _

/-! ## Timeout sweeps -/

/-- What a timeout sweep reads and changes for one peer. -/
def view (b : Address) (s : SelectiveRepeatTransport) : Lane × ℕ :=
  (s.lane b, s.retries.getD b 0)

theorem lane_failPeer' (s : SelectiveRepeatTransport) (addr b : Address)
    (e : Err) :
    (failPeer s addr e).lane b =
      if b = addr then (s.lane b).failPeer e else s.lane b :=
  lane_failPeer s.toCore (sub s.buffer b) addr b e

theorem view_failPeer (s : SelectiveRepeatTransport) (addr : Address) (e : Err)
    {b : Address} (hb : b ≠ addr) : view b (failPeer s addr e) = view b s :=
  Prod.ext ((lane_failPeer' s addr b e).trans (if_neg hb)) rfl

theorem view_transmit (s : SelectiveRepeatTransport) (addr : Address)
    (packet : Bytes) {b : Address} (hb : b ≠ addr) :
    view b { s with toCore := s.transmit packet addr } = view b s :=
  Prod.ext ((lane_transmit s.toCore (sub s.buffer b) addr b packet).trans
    (if_neg hb)) rfl

/-- Marking a packet as retransmitted and rescheduling its timer is invisible in
the lanes. -/
theorem rearm_spec (cfg : Config) {s : SelectiveRepeatTransport}
    {addr : Address} (hrun : ¬ s.crashed.isSome)
    (hrto : (s.rto.get? addr).isSome) (seq : ℕ) (now : ℚ) :
    ∃ s₁, armTimer cfg
        { s with
          retransmitted := s.retransmitted.set addr
            (insert seq (s.retransmitted.getD addr ∅))
          retransmissions := s.retransmissions + 1 } addr seq now = s₁ ∧
      (∀ b, view b s₁ = view b s) ∧ ¬ s₁.crashed.isSome ∧
      (s₁.rto.get? addr).isSome := by
  obtain ⟨heap, harm⟩ := armTimer_spec cfg
    { s with
      retransmitted := s.retransmitted.set addr
        (insert seq (s.retransmitted.getD addr ∅))
      retransmissions := s.retransmissions + 1 } hrto seq now
  exact ⟨_, harm, fun _ => rfl, hrun, hrto⟩

/-- The retransmission loop sends stored packets of one peer again, and gives
the peer up if a send raises. -/
theorem retransmit_spec (cfg : Config) (input : SweepInput) (addr : Address)
    (seqs : List ℕ) (s : SelectiveRepeatTransport)
    (hrun : ¬ s.crashed.isSome) (hrto : (s.rto.get? addr).isSome) :
    ∃ s' packets, retransmit cfg input addr seqs s = s' ∧
      (∀ b, b ≠ addr → view b s' = view b s) ∧
      (∀ raw ∈ packets, ∃ q, (s.lane addr).outstanding.get? q = some raw) ∧
      (s'.lane addr = (s.lane addr).resend packets ∨
        ∃ what, s'.lane addr =
            ((s.lane addr).resend packets).failPeer (.channel what) ∧
          ∃ q ∈ seqs, input.sendResult addr q ≠ none) := by
  induction seqs generalizing s with
  | nil =>
      exact ⟨s, [], rfl, fun _ _ => rfl, by simp, Or.inl rfl⟩
  | cons seq rest ih =>
      cases hget : (sub s.outstanding addr).get? seq with
      | none =>
          obtain ⟨s', packets, hs', hother, hpackets, hlane⟩ := ih s hrun hrto
          refine ⟨s', packets, ?_, hother, hpackets, ?_⟩
          · simp only [retransmit, hget]
            exact hs'
          · rcases hlane with hok | ⟨what, hfail, q, hq, hraise⟩
            · exact Or.inl hok
            · exact Or.inr ⟨what, hfail, q, List.mem_cons_of_mem _ hq, hraise⟩
      | some packet =>
          obtain ⟨s₁, hs₁, hview₁, hrun₁, hrto₁⟩ :=
            rearm_spec cfg hrun hrto seq (input.rearmAt addr seq)
          have hlane₁ : s₁.lane addr = s.lane addr :=
            congrArg Prod.fst (hview₁ addr)
          cases hsend : input.sendResult addr seq with
          | some what =>
              refine ⟨failPeer s₁ addr (.channel what), [], ?_, ?_, by simp, ?_⟩
              · simp only [retransmit, hget, hs₁, if_neg hrun₁, hsend]
              · intro b hb
                exact (view_failPeer s₁ addr _ hb).trans (hview₁ b)
              · refine Or.inr ⟨what, ?_, seq, List.mem_cons_self, ?_⟩
                · rw [lane_failPeer', if_pos rfl, hlane₁]
                  rfl
                · simp [hsend]
          | none =>
              obtain ⟨s₂, hs₂⟩ : ∃ s₂ : SelectiveRepeatTransport,
                  { s₁ with toCore := s₁.transmit packet addr } = s₂ := ⟨_, rfl⟩
              have hlane₂ : s₂.lane addr = (s.lane addr).transmit packet := by
                rw [← hs₂, ← hlane₁]
                exact (lane_transmit s₁.toCore (sub s₁.buffer addr) addr addr
                  packet).trans (if_pos rfl)
              obtain ⟨s', packets, hs', hother, hpackets, hlane⟩ := ih s₂
                (by rw [← hs₂]; exact hrun₁) (by rw [← hs₂]; exact hrto₁)
              have hresend : (s₂.lane addr).resend packets =
                  (s.lane addr).resend (packets ++ [packet]) := by
                rw [hlane₂]
                simp [Lane.transmit, Lane.resend]
              rw [hlane₂] at hpackets
              rw [hresend] at hlane
              refine ⟨s', packets ++ [packet], ?_, ?_, ?_, ?_⟩
              · simp only [retransmit, hget, hs₁, if_neg hrun₁, hsend, hs₂]
                exact hs'
              · intro b hb
                rw [hother b hb, ← hs₂]
                exact (view_transmit s₁ addr packet hb).trans (hview₁ b)
              · intro raw hraw
                rcases List.mem_append.mp hraw with hold | hnew
                · exact hpackets raw hold
                · exact ⟨seq, List.mem_singleton.mp hnew ▸ hget⟩
              · rcases hlane with hok | ⟨what, hfail, q, hq, hraise⟩
                · exact Or.inl hok
                · exact Or.inr ⟨what, hfail, q, List.mem_cons_of_mem _ hq,
                    hraise⟩

/-- What a timeout sweep makes of a peer with the due packets `seqs`. -/
inductive Swept (cfg : Config) (input : SweepInput) (addr : Address)
    (seqs : List ℕ) (s s' : SelectiveRepeatTransport) : Prop
  | resent (packets : List Bytes)
      (hpackets : ∀ raw ∈ packets,
        ∃ q, (s.lane addr).outstanding.get? q = some raw)
      (hlane : s'.lane addr = (s.lane addr).resend packets)
  | failed (packets : List Bytes) (e : Err)
      (hpackets : ∀ raw ∈ packets,
        ∃ q, (s.lane addr).outstanding.get? q = some raw)
      (hlane : s'.lane addr = ((s.lane addr).resend packets).failPeer e)
      (hfails : s.retries.getD addr 0 + 1 > cfg.maxRetries ∨
        ∃ seq ∈ seqs, input.sendResult addr seq ≠ none)

theorem Swept.estimator {input : SweepInput} {addr : Address} {seqs : List ℕ}
    {s' : SelectiveRepeatTransport} (h : Swept cfg input addr seqs s s') :
    (s'.lane addr).estimator = (s.lane addr).estimator ∧
      (s'.lane addr).crashed = (s.lane addr).crashed := by
  cases h with
  | resent packets hpackets hlane =>
      rw [hlane]
      exact ⟨rfl, rfl⟩
  | failed packets e hpackets hlane hfails =>
      rw [hlane]
      exact ⟨rfl, rfl⟩

theorem timeoutPeer_spec (cfg : Config) (hrun : ¬ s.crashed.isSome)
    (input : SweepInput)
    {addr : Address} (hrto : (s.rto.get? addr).isSome) (seqs : List ℕ) :
    (∀ b, b ≠ addr → view b (timeoutPeer cfg input s addr seqs) = view b s) ∧
      Swept cfg input addr seqs s (timeoutPeer cfg input s addr seqs) := by
  obtain ⟨r, hr⟩ := Option.isSome_iff_exists.mp hrto
  obtain ⟨s₁, hresult, hlane₁, hview₁⟩ : ∃ s₁ : SelectiveRepeatTransport,
      timeoutPeer cfg input s addr seqs =
        (if s₁.crashed.isSome then s₁
        else if s.retries.getD addr 0 + 1 > cfg.maxRetries then
          failPeer s₁ addr (.noAck addr cfg.maxRetries)
        else retransmit cfg input addr seqs s₁) ∧
      s₁.lane addr = s.lane addr ∧
      ∀ b, b ≠ addr → view b s₁ = view b s := by
    by_cases hadaptive : cfg.adaptive
    · refine ⟨{ s with
        retries := s.retries.set addr (s.retries.getD addr 0 + 1)
        rto := s.rto.set addr r.onTimeout }, ?_, ?_, ?_⟩
      · simp only [timeoutPeer, if_pos hadaptive, hr]
      · simp [lane, Core.lane, hr]
      · intro b hb
        simp [view, lane, Core.lane, Dict.getD, hb]
    · refine ⟨{ s with
        retries := s.retries.set addr (s.retries.getD addr 0 + 1) },
        ?_, rfl, ?_⟩
      · simp only [timeoutPeer, if_neg hadaptive]
      · intro b hb
        simp [view, lane, Core.lane, Dict.getD, hb]
  have hrun₁ : ¬ s₁.crashed.isSome := by
    have hcrashed : s₁.crashed.isSome = s.crashed.isSome :=
      congrArg Lane.crashed hlane₁
    rwa [hcrashed]
  have hrto₁ : (s₁.rto.get? addr).isSome :=
    (congrArg Lane.estimator hlane₁).trans hrto
  rw [hresult, if_neg hrun₁]
  by_cases hcap : s.retries.getD addr 0 + 1 > cfg.maxRetries
  · rw [if_pos hcap]
    refine ⟨fun b hb => ?_,
      .failed [] (.noAck addr cfg.maxRetries) (by simp) ?_ (Or.inl hcap)⟩
    · exact (view_failPeer s₁ addr _ hb).trans (hview₁ b hb)
    · rw [lane_failPeer', if_pos rfl, hlane₁]
      rfl
  · rw [if_neg hcap]
    obtain ⟨s₂, packets, hs₂, hother, hpackets, hlane₂⟩ :=
      retransmit_spec cfg input addr seqs s₁ hrun₁ hrto₁
    rw [hlane₁] at hpackets hlane₂
    rw [hs₂]
    refine ⟨fun b hb => (hother b hb).trans (hview₁ b hb), ?_⟩
    rcases hlane₂ with hok | ⟨what, hfail, hraise⟩
    · exact .resent packets hpackets hok
    · exact .failed packets _ hpackets hfail (Or.inr hraise)

/-- One of the due packets of a peer is outstanding. -/
theorem groupDue_outstanding (s : SelectiveRepeatTransport)
    (due : List (Address × ℕ)) (groups : Dict Address (List ℕ))
    (hgroups : ∀ a seqs, groups.get? a = some seqs →
      ∃ seq ∈ seqs, seq ∈ (sub s.outstanding a).keys) :
    ∀ a seqs, (groupDue s due groups).get? a = some seqs →
      ∃ seq ∈ seqs, seq ∈ (sub s.outstanding a).keys := by
  induction due generalizing groups with
  | nil => exact hgroups
  | cons p due ih =>
      obtain ⟨addr, seq⟩ := p
      by_cases hmem : seq ∈ (sub s.outstanding addr).keys
      · rw [groupDue, if_pos hmem]
        apply ih
        intro a seqs ha
        rw [Dict.get?_set] at ha
        by_cases hb : a = addr
        · rw [if_pos hb, Option.some.injEq] at ha
          subst hb ha
          exact ⟨seq, List.mem_append_right _ (List.mem_singleton_self _), hmem⟩
        · rw [if_neg hb] at ha
          exact hgroups a seqs ha
      · rw [groupDue, if_neg hmem]
        exact ih groups hgroups

/-- Everyone with due packets has one that is outstanding. -/
theorem due_outstanding {now : ℚ} {groups : Dict Address (List ℕ)}
    (hgroups : groupDue s (s.timerHeap.popDue now).1 ∅ = groups)
    {x : Address × List ℕ} (hx : x ∈ groups.entries) :
    ∃ seq ∈ x.2, seq ∈ (sub s.outstanding x.1).keys :=
  groupDue_outstanding s (s.timerHeap.popDue now).1 ∅ (by simp) x.1 x.2
    (hgroups ▸ Dict.mem_entries.mp hx)

/-- Everyone with due packets has an estimator. -/
theorem due_estimator (h : s.WellFormed) (hrun : ¬ s.crashed.isSome) {now : ℚ}
    {groups : Dict Address (List ℕ)}
    (hgroups : groupDue s (s.timerHeap.popDue now).1 ∅ = groups)
    {x : Address × List ℕ} (hx : x ∈ groups.entries) :
    (s.lane x.1).estimator = true := by
  obtain ⟨seq, -, hseq⟩ := due_outstanding hgroups hx
  refine h.estimator hrun fun hnone => ?_
  have hempty : sub s.outstanding x.1 = ∅ := ((h x.1).ready.base_none hnone).2
  rw [hempty] at hseq
  exact absurd hseq List.not_mem_nil

theorem handleTimeouts_eq {input : SweepInput} {groups : Dict Address (List ℕ)}
    (hgroups : groupDue s (s.timerHeap.popDue input.now).1 ∅ = groups) :
    handleTimeouts cfg s input = groups.entries.foldl
      (fun s x =>
        if s.crashed.isSome then s else timeoutPeer cfg input s x.1 x.2)
      { s with timerHeap := (s.timerHeap.popDue input.now).2 } := by
  rw [← hgroups]
  rfl

/-- The visit of a peer with due packets keeps the thread running and every
estimator. -/
theorem timeoutPeer_keeps {groups : Dict Address (List ℕ)}
    {s : SelectiveRepeatTransport} (hrun : ¬ s.crashed.isSome)
    (hrto : ∀ y ∈ groups.entries, (s.lane y.1).estimator = true)
    (input : SweepInput) {x : Address × List ℕ} (hx : x ∈ groups.entries) :
    ¬ (timeoutPeer cfg input s x.1 x.2).crashed.isSome ∧
      ∀ y ∈ groups.entries,
        ((timeoutPeer cfg input s x.1 x.2).lane y.1).estimator = true := by
  obtain ⟨hother, hself⟩ := timeoutPeer_spec cfg hrun input (hrto x hx) x.2
  refine ⟨?_, fun y hy => ?_⟩
  · have hcrashed := hself.estimator.2
    exact fun hbad => hrun (hcrashed.symm.trans hbad)
  · by_cases hyx : y.1 = x.1
    · rw [hyx, hself.estimator.1]
      exact hrto x hx
    · have hlane : (timeoutPeer cfg input s x.1 x.2).lane y.1 = s.lane y.1 :=
        congrArg Prod.fst (hother y.1 hyx)
      rw [hlane]
      exact hrto y hy

theorem handleTimeouts_step (h : s.WellFormed) (hrun : ¬ s.crashed.isSome)
    (input : SweepInput) (b : Address) :
    Lane.Step cfg (discipline cfg) (PeerFails cfg s b) (s.lane b)
      (.timeouts input) ((handleTimeouts cfg s input).lane b) := by
  obtain ⟨groups, hgroups⟩ : ∃ groups,
      groupDue s (s.timerHeap.popDue input.now).1 ∅ = groups := ⟨_, rfl⟩
  -- No visit raises, because everyone who is due has an estimator.
  have hrto : ∀ x ∈ groups.entries, (s.lane x.1).estimator = true :=
    fun x hx => due_estimator h hrun hgroups hx
  have hsweep := foldl_view
    (fun s (x : Address × List ℕ) =>
      if s.crashed.isSome then s else timeoutPeer cfg input s x.1 x.2)
    Prod.fst (view b)
    (fun s => ¬ s.crashed.isSome ∧
      ∀ y ∈ groups.entries, (s.lane y.1).estimator = true) b
    (fun s x hx hs => by
      rw [if_neg hs.1]
      exact timeoutPeer_keeps hs.1 hs.2 input hx)
    (fun s x hx hs hxb => by
      rw [if_neg hs.1]
      exact (timeoutPeer_spec cfg hs.1 input (hs.2 x hx) x.2).1 b (Ne.symm hxb))
    groups.nodupKeys { s with timerHeap := (s.timerHeap.popDue input.now).2 }
    ⟨hrun, hrto⟩
  rw [handleTimeouts_eq hgroups]
  rcases hsweep with ⟨-, hsame⟩ |
    ⟨x, hx, rfl, s', ⟨hrun', hrto'⟩, hview, hfinal⟩
  · have hlane : _ = s.lane b := congrArg Prod.fst hsame
    simp only [view] at hlane
    rw [hlane]
    exact .idle _
  · rw [if_neg hrun'] at hfinal
    have hlane : s'.lane x.1 = s.lane x.1 := congrArg Prod.fst hview
    have hretries : s'.retries.getD x.1 0 = s.retries.getD x.1 0 :=
      congrArg Prod.snd hview
    have hlane' := congrArg Prod.fst hfinal
    simp only [view] at hlane'
    rw [hlane']
    cases (timeoutPeer_spec cfg hrun' input (hrto' x hx) x.2).2 with
    | resent packets hpackets hswept =>
        rw [hlane] at hpackets hswept
        rw [hswept]
        exact .resend hpackets
    | failed packets e hpackets hswept hfails =>
        rw [hlane] at hpackets hswept
        rw [hretries] at hfails
        rw [hswept]
        refine .giveUp hpackets ⟨x.2, ?_, hfails⟩
        rw [hgroups]
        exact Dict.mem_entries.mp hx

/-! ## Every event is a step -/

/-- Every event is a step of the protocol on every lane. -/
theorem step_refines (h : s.WellFormed) (e : Event) (b : Address) :
    Lane.Step cfg (discipline cfg) (PeerFails cfg s b) (s.lane b) e
      ((step cfg s e).lane b) := by
  rw [step_eq]
  exact (shared cfg).lane_step
    (fun hrun addr hnext => estimator_of_nextToSend cfg (h addr) hrun hnext)
    (fun input hrun => handleTimeouts_step h hrun input b)
    (fun raw addr input hrun => handleIncoming_step h hrun raw addr input b) e

end

/-- A Selective Repeat transport as an endpoint. -/
def endpoint (cfg : Config) : Endpoint cfg where
  State := SelectiveRepeatTransport
  init := init
  step := step cfg
  core s := s.toCore
  buffer s addr := sub s.buffer addr
  discipline := discipline cfg
  PeerFails := PeerFails cfg
  lane_init _ := rfl
  refines _ e b h := step_refines h e b
  pump_pending s addr input seq item hrun hnext := by
    have hrun' : ¬ s.crashed.isSome := Option.not_isSome_iff_eq_none.mpr hrun
    have hstep : step cfg s (.pump addr input) = pumpPacket cfg s addr input :=
      if_neg hrun'
    rw [hstep]
    exact ((shared cfg).pumped s addr input hrun').pending hnext

def handled (cfg : Config) : (endpoint cfg).Handled where
  toHandlers := handlers cfg
  shared := shared cfg
  step_eq := step_eq cfg

theorem ackSteps_handleAck (cfg : Config) (s : SelectiveRepeatTransport)
    (raw : Bytes) (addr : Address) (input : IncomingInput) :
    AckSteps addr s.toCore (handleAck cfg s raw addr input).toCore := by
  apply handleAck_keeps cfg (R := fun s s' => AckSteps addr s.toCore s'.toCore)
    (fun s => .refl) (fun _ _ _ h h' => h.trans h')
  · exact fun s acked => .single (.complete [acked])
  · exact fun s seq acknowledged now => .single (.sample seq acknowledged now)
  · exact fun s base => .single (.slide base)

theorem handleAck_other (cfg : Config) (s : SelectiveRepeatTransport)
    {raw : Bytes} (hnumber : ackNumber raw = none) (addr : Address)
    (input : IncomingInput) : handleAck cfg s raw addr input = s := by
  rcases hdecode : decode raw with e | ⟨header, payload⟩
  · simp only [handleAck, hdecode]
  · simp only [handleAck, hdecode, if_pos (ackNumber_eq_none hnumber hdecode)]

/-- The acknowledgement number lies in the window or at its end. -/
theorem ackFor_le (window : ℕ) (l : Lane) (seq : ℕ) (payload : Bytes) :
    (receive window l seq payload).ackFor ≤ l.expected + window := by
  change (if (l.expected ≤ seq ∧ seq < l.expected + window) ∨ seq < l.expected
    then seq + 1 else l.expected) ≤ _
  split_ifs <;> omega

/-- What arrives, on the common state. -/
theorem arrived (cfg : Config) (s : SelectiveRepeatTransport) (raw : Bytes)
    (addr : Address) (input : IncomingInput) (hrun : ¬ s.crashed.isSome) :
    Arrived cfg raw addr input (handleAck cfg s raw addr input).toCore s.toCore
      (step cfg s (.incoming raw addr input)).toCore := by
  have hstep : step cfg s (.incoming raw addr input) =
      handleIncoming cfg s raw addr input := if_neg hrun
  rw [hstep]
  rcases handleIncoming_cases cfg s raw addr input with
    ⟨n, hraw, hack⟩ | ⟨seq, payload, hraw, hdata⟩ | ⟨hraw, hsame⟩
  · rw [hack]
    exact .ack hraw
  · rw [hdata, handleData_eq]
    exact .data hraw (fun b hb => by rw [Dict.get?_set, if_neg hb]) _
      (ackFor_le cfg.windowSize (s.lane addr) seq payload)
  · rw [hsame]
    exact .other hraw

def handlesAcks (cfg : Config) : (endpoint cfg).HandlesAcks where
  handle := handleAck cfg
  other s _ addr input hnumber := handleAck_other cfg s hnumber addr input
  lane s raw addr input n h hrun hnumber b := by
    obtain ⟨header, payload, hdecode, hflag, rfl⟩ := ackNumber_eq_some hnumber
    have hspec := handleAck_spec cfg h hrun hdecode hflag addr input b
    change (handleAck cfg s raw addr input).lane b =
      if b = addr then (s.lane b).acked slide header.ack else s.lane b
    rw [hspec]
    unfold Lane.acked
    by_cases hb : b = addr
    · rw [if_pos hb, hb]
      rcases slide (s.lane addr) header.ack with _ | ⟨seqs, base⟩
      · rfl
      · exact if_pos rfl
    · rw [if_neg hb]
      rcases slide (s.lane addr) header.ack with _ | ⟨seqs, base⟩
      · rfl
      · exact if_neg hb
  steps := ackSteps_handleAck cfg
  arrived := arrived cfg
  ignores s raw addr input hraw := by
    change (if _ then s else handleIncoming cfg s raw addr input) = s
    rw [handleIncoming_of_isOther cfg s hraw, ite_self]

theorem pumpPeer_eq (cfg : Config) (input : Address → ℕ → PumpInput)
    (addr : Address) (n : ℕ) (s : SelectiveRepeatTransport) :
    pumpPeer cfg input addr n s = (endpoint cfg).pumpPeer input addr n s :=
  Endpoint.pumpPeer_unique (endpoint cfg) (pumpPacket cfg)
    (fun _ _ _ hrun => if_neg hrun) input addr (pumpPeer cfg input addr)
    (fun _ => rfl) (fun _ _ => rfl) n s

theorem pumpWindows_eq (cfg : Config) (input : Address → ℕ → PumpInput)
    (s : SelectiveRepeatTransport) :
    pumpWindows cfg input s = (endpoint cfg).pumpWindows input s := by
  simp only [pumpWindows, pumpPeer_eq]
  rfl

end SelectiveRepeatTransport

end UdpArq
