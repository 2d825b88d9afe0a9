import UdpArq.GoBackN.Refinement
import UdpArq.Transport.Partition

/-!
# Go-Back-N peers do not interfere

The operations for one peer leave the entries and the timer of every other peer
alone, and what they do to the entries of their own peer depends on these
entries only.  Hence a sweep over many peers treats each of them as if there
were no others.
-/

namespace UdpArq

namespace GoBackNTransport

open UdpArq.Core

/-- What the transport holds for one peer. -/
structure Peer extends Holding where
  timer : Option (Option ℚ)

/-- The entries of `b`, with its timer. -/
def peer (s : GoBackNTransport) (b : Address) : Peer :=
  ⟨s.toCore.holding b, s.timerDeadline.get? b⟩

/-- The same transport, if `b` is its only peer. -/
def only (s : GoBackNTransport) (b : Address) : GoBackNTransport where
  toCore := s.toCore.only b
  timerDeadline := s.timerDeadline.restrict fun a => a = b

/-- Nothing changes for the peers other than `a`. -/
def Apart (a : Address) (s s' : GoBackNTransport) : Prop :=
  ∀ b, b ≠ a → s'.peer b = s.peer b

/-- For `b`, and for the thread, the two states are the same. -/
structure Alike (b : Address) (s t : GoBackNTransport) : Prop where
  peer : s.peer b = t.peer b
  crashed : s.crashed = t.crashed

variable {cfg : Config} {s s' s'' t : GoBackNTransport} {a b : Address}

@[simp] theorem peer_only (s : GoBackNTransport) (b : Address) :
    (s.only b).peer b = s.peer b := by
  simp [peer, only]

theorem peer_eq (hheld : s.toCore.holding b = t.toCore.holding b)
    (htimer : s.timerDeadline.get? b = t.timerDeadline.get? b) :
    s.peer b = t.peer b := by
  rw [peer, peer, hheld, htimer]

/-! ## Timers -/

theorem Apart.refl (a : Address) (s : GoBackNTransport) : Apart a s s :=
  fun _ _ => rfl

theorem Apart.trans (h : Apart a s s') (h' : Apart a s' s'') : Apart a s s'' :=
  fun b hb => (h' b hb).trans (h b hb)

theorem Apart.core {c : Core}
    (h : ∀ b, b ≠ a → c.holding b = s.toCore.holding b) :
    Apart a s { s with toCore := c } :=
  fun b hb => peer_eq (h b hb) rfl

theorem Apart.timer (deadline : Option ℚ) :
    Apart a s { s with timerDeadline := s.timerDeadline.set a deadline } := by
  intro b hb
  simp only [peer, Dict.get?_set, if_neg hb]

theorem apart_armTimer (seq : ℕ) (now : ℚ) :
    Apart a s (armTimer cfg s a seq now) := by
  unfold armTimer
  split
  · split
    · exact .core fun _ _ => rfl
    · exact .timer _
  · exact .refl a s

theorem alike_of_running (hs : ¬ s.crashed.isSome) (ht : ¬ t.crashed.isSome)
    (h : s.peer b = t.peer b) : Alike b s t := by
  rw [Option.not_isSome_iff_eq_none] at hs ht
  exact ⟨h, hs.trans ht.symm⟩

theorem Alike.held (h : Alike b s t) :
    s.toCore.holding b = t.toCore.holding b :=
  congrArg Peer.toHolding h.peer

theorem Alike.timer (h : Alike b s t) :
    s.timerDeadline.get? b = t.timerDeadline.get? b :=
  congrArg Peer.timer h.peer

theorem Alike.outstanding (h : Alike b s t) :
    sub s.outstanding b = sub t.outstanding b :=
  sub_eq_of_holding (congrArg Holding.outstanding h.held)

theorem Alike.withCore (h : Alike b s t) {c c' : Core}
    (hheld : c.holding b = c'.holding b) (hcrashed : c.crashed = c'.crashed) :
    Alike b { s with toCore := c } { t with toCore := c' } :=
  ⟨peer_eq hheld h.timer, hcrashed⟩

theorem peer_withTimer (h : s.peer b = t.peer b) (deadline : Option ℚ) :
    ({ s with timerDeadline := s.timerDeadline.set b deadline } :
        GoBackNTransport).peer b =
      ({ t with timerDeadline := t.timerDeadline.set b deadline } :
        GoBackNTransport).peer b :=
  peer_eq (congrArg Peer.toHolding h) (by simp only [Dict.get?_set, if_true])

theorem Alike.withTimer (h : Alike b s t) (deadline : Option ℚ) :
    Alike b { s with timerDeadline := s.timerDeadline.set b deadline }
      { t with timerDeadline := t.timerDeadline.set b deadline } :=
  ⟨peer_withTimer h.peer deadline, h.crashed⟩

theorem Alike.crash (h : Alike b s t) (e : Err) :
    Alike b { s with toCore := s.crash e } { t with toCore := t.crash e } :=
  h.withCore h.held rfl

theorem Alike.transmit (h : Alike b s t) (packet : Bytes) :
    Alike b { s with toCore := s.transmit packet b }
      { t with toCore := t.transmit packet b } := by
  refine h.withCore ?_ h.crashed
  rw [holding_transmit, holding_transmit, h.held]

theorem Alike.armTimer (cfg : Config) (h : Alike b s t) (seq : ℕ) (now : ℚ) :
    Alike b (GoBackNTransport.armTimer cfg s b seq now)
      (GoBackNTransport.armTimer cfg t b seq now) := by
  have hbase : s.base.get? b = t.base.get? b := congrArg Holding.base h.held
  unfold GoBackNTransport.armTimer
  rw [hbase, Dict.getD, Dict.getD, h.timer, rtoValue_of_holding cfg h.held]
  split
  · split
    · exact h.crash _
    · exact h.withTimer _
  · exact h

/-! ## The transport with one peer -/

theorem WellFormed.only (h : s.WellFormed) (b : Address) :
    (s.only b).WellFormed := by
  intro a
  by_cases ha : a = b
  · subst ha
    have hlane : (s.only a).lane a = s.lane a := lane_only_self s.toCore a ∅
    rw [hlane]
    exact h a
  · have hlane : (s.only b).lane a = _ := lane_only_of_ne s.toCore ha
    rw [hlane]
    exact Lane.wellFormed_blank a _ _

def partition (cfg : Config) : (endpoint cfg).Partition (handled cfg) where
  Peer := Peer
  peer := peer
  only := only
  core_only _ _ := rfl
  peer_only := peer_only
  wellFormed_only _ b h := WellFormed.only h b
  holding _ _ _ h := congrArg Peer.toHolding h
  withCore _ _ _ _ _ h hheld := peer_eq hheld (congrArg Peer.timer h)
  armTimer_apart _ _ b seq now hb := apart_armTimer seq now b hb
  armTimer_alike s t _ seq now h hcrashed :=
    let harm := Alike.armTimer cfg (s := s) (t := t) ⟨h, hcrashed⟩ seq now
    ⟨harm.peer, harm.crashed⟩
  stopTimer_apart _ _ b _ hb := Apart.timer none b hb
  stopTimer_alike _ _ _ _ h := peer_withTimer h none

/-! ## The other peers -/

theorem apart_failPeer (e : Err) : Apart a s (failPeer s a e) := by
  have hcore : Apart a s { s with toCore := s.toCore.failPeer a e } :=
    .core fun b hb => by rw [holding_failPeer, if_neg hb]
  exact hcore.trans (.timer none)

theorem apart_retransmit (input : SweepInput) (outstanding : Dict ℕ Bytes)
    (seqs : List ℕ) : Apart a s (retransmit cfg input a outstanding seqs s) := by
  induction seqs generalizing s with
  | nil => exact .refl a s
  | cons seq seqs ih =>
      have hmark : Apart a s (if cfg.adaptive then
          { s with
            retransmitted := s.retransmitted.set a
              (insert seq (s.retransmitted.getD a ∅)) }
          else s) := by
        split
        · exact .core fun b hb => by simp [holding, hb]
        · exact .refl a s
      simp only [retransmit]
      split
      · exact hmark.trans (apart_failPeer _)
      · refine hmark.trans (.trans (.core fun b hb => ?_) ih)
        rw [holding_transmit, if_neg hb]

theorem apart_rearm (now : ℚ) :
    Apart a s
      (match s.rtoValue cfg a with
      | none => { s with toCore := s.crash (.keyError a) }
      | some rto =>
          { s with
            timerDeadline := s.timerDeadline.set a (some (now + rto)) }) := by
  split
  · exact .core fun _ _ => rfl
  · exact .timer _

theorem apart_restartTimer (now : ℚ) : Apart a s (restartTimer cfg s a now) := by
  simp only [restartTimer]
  split
  · exact .refl a s
  by_cases hadaptive : cfg.adaptive
  · simp only [if_pos hadaptive]
    rcases s.rto.get? a with _ | r
    · have hcrash : Apart a s { s with toCore := s.crash (.keyError a) } :=
        .core fun _ _ => rfl
      exact hcrash.trans (apart_rearm now)
    · have hbackoff : Apart a s { s with rto := s.rto.set a r.onTimeout } :=
        .core fun b hb => by simp [holding, hb]
      exact hbackoff.trans (apart_rearm now)
  · simp only [if_neg hadaptive]
    exact apart_rearm now

theorem apart_timeoutPeer (input : SweepInput) :
    Apart a s (timeoutPeer cfg input s a) := by
  have hcount : Apart a s
      { s with retries := s.retries.set a (s.retries.getD a 0 + 1) } :=
    .core fun b hb => by simp [holding, hb]
  simp only [timeoutPeer]
  split
  · exact .refl a s
  · split
    · exact .refl a s
    · split
      · exact .timer none
      · split
        · exact hcount.trans (apart_failPeer _)
        · exact (hcount.trans (apart_retransmit input _ _)).trans
            (apart_restartTimer _)

theorem apart_handleAck (raw : Bytes) (input : IncomingInput) :
    Apart a s (handleAck cfg s raw a input) := by
  apply handleAck_keeps cfg (Apart.refl a) (fun _ _ _ h h' => h.trans h')
  · intro s acknowledged ack
    refine .core fun b hb => ?_
    have hkeep := holding_complete (c := s.toCore) hb acknowledged
    simp only [holding, Holding.mk.injEq, Dict.get?_set, if_neg hb] at hkeep ⊢
    tauto
  · exact fun s base acknowledged now =>
      .core fun b hb => holding_sampleRtt hb _ _ _
  · exact fun s deadline => .timer deadline
  · exact fun s e => .core fun _ _ => rfl

theorem apart_handleIncoming (raw : Bytes) (input : IncomingInput) :
    Apart a s (handleIncoming cfg s raw a input) := by
  rcases handleIncoming_cases cfg s raw a input with
    ⟨n, -, hack⟩ | ⟨seq, payload, expected, -, hother, hdata⟩ | ⟨-, hsame⟩
  · rw [hack]
    exact apart_handleAck raw input
  · rw [hdata]
    refine .core fun b hb => ?_
    rw [holding_acknowledge hb]
    simp [holding, hother b hb]
  · rw [hsame]
    exact .refl a s

theorem apart_drainItem {item : Item} {rest : List Item}
    (hqueue : s.outbound = item :: rest) :
    Apart item.addr s (drainItem cfg s) := by
  have hregister : Apart item.addr s
      { toCore := s.register item rest
        timerDeadline := s.timerDeadline.setdefault item.addr none } := by
    intro b hb
    simp only [peer, holding_register hqueue hb, Dict.get?_setdefault,
      if_neg hb]
  simp only [drainItem, hqueue]
  split
  · exact hregister.trans (.core fun _ _ => rfl)
  · exact hregister.trans (.core fun b hb => by simp [holding, hb])

/-- What can happen because of the peer `a`. -/
inductive ActsOn (cfg : Config) (a : Address) (s : GoBackNTransport) :
    GoBackNTransport → Prop
  | sendto (data : Bytes) : ActsOn cfg a s (step cfg s (.sendto data a))
  | drain {item : Item} {rest : List Item} (hqueue : s.outbound = item :: rest)
      (haddr : item.addr = a) : ActsOn cfg a s (step cfg s .drain)
  | pump (input : PumpInput) : ActsOn cfg a s (step cfg s (.pump a input))
  | incoming (raw : Bytes) (input : IncomingInput) :
      ActsOn cfg a s (step cfg s (.incoming raw a input))
  | visit (input : SweepInput) : ActsOn cfg a s (timeoutPeer cfg input s a)
  | fail (e : Err) : ActsOn cfg a s (failPeer s a e)

/-- What happens because of one peer changes nothing for the others. -/
theorem ActsOn.apart (h : ActsOn cfg a s s') : Apart a s s' := by
  cases h with
  | sendto data => exact fun b hb => (partition cfg).apart_sendto hb data
  | drain hqueue haddr =>
      subst haddr
      unfold step
      dsimp only
      split_ifs
      · exact .refl _ s
      · exact apart_drainItem hqueue
  | pump input => exact fun b hb => (partition cfg).apart_pump hb input
  | incoming raw input =>
      unfold step
      dsimp only
      split_ifs
      · exact .refl a s
      · exact apart_handleIncoming raw input
  | visit input => exact apart_timeoutPeer input
  | fail e => exact apart_failPeer e

/-! ## The peer itself -/

theorem Alike.failPeer (h : Alike b s t) (e : Err) :
    Alike b (GoBackNTransport.failPeer s b e)
      (GoBackNTransport.failPeer t b e) := by
  have hcore : Alike b { s with toCore := s.toCore.failPeer b e }
      { t with toCore := t.toCore.failPeer b e } := by
    refine h.withCore ?_ h.crashed
    rw [holding_failPeer, holding_failPeer, h.held]
  exact hcore.withTimer none

theorem Alike.retransmit (h : Alike b s t) (input : SweepInput)
    (outstanding : Dict ℕ Bytes) (seqs : List ℕ) :
    Alike b (GoBackNTransport.retransmit cfg input b outstanding seqs s)
      (GoBackNTransport.retransmit cfg input b outstanding seqs t) := by
  induction seqs generalizing s t with
  | nil => exact h
  | cons seq seqs ih =>
      have hmark : Alike b
          (if cfg.adaptive then
            { s with
              retransmitted := s.retransmitted.set b
                (insert seq (s.retransmitted.getD b ∅)) }
            else s)
          (if cfg.adaptive then
            { t with
              retransmitted := t.retransmitted.set b
                (insert seq (t.retransmitted.getD b ∅)) }
            else t) := by
        split
        · refine h.withCore ?_ h.crashed
          have hheld := h.held
          simp only [holding, Holding.mk.injEq] at hheld ⊢
          simp [hheld, Dict.getD]
        · exact h
      simp only [GoBackNTransport.retransmit]
      split
      · exact hmark.failPeer _
      · exact ih (hmark.transmit _)

theorem Alike.rearm (h : Alike b s t) (now : ℚ) :
    Alike b
      (match s.rtoValue cfg b with
        | none => { s with toCore := s.crash (.keyError b) }
        | some rto =>
            { s with timerDeadline := s.timerDeadline.set b (some (now + rto)) })
      (match t.rtoValue cfg b with
        | none => { t with toCore := t.crash (.keyError b) }
        | some rto =>
            { t with
              timerDeadline := t.timerDeadline.set b (some (now + rto)) }) := by
  rw [rtoValue_of_holding cfg h.held]
  split
  · exact h.crash _
  · exact h.withTimer _

theorem Alike.restartTimer (h : Alike b s t) (now : ℚ) :
    Alike b (GoBackNTransport.restartTimer cfg s b now)
      (GoBackNTransport.restartTimer cfg t b now) := by
  have hrto : s.rto.get? b = t.rto.get? b := congrArg Holding.rto h.held
  simp only [GoBackNTransport.restartTimer]
  rw [h.outstanding, hrto]
  split
  · exact h
  by_cases hadaptive : cfg.adaptive
  · simp only [if_pos hadaptive]
    rcases t.rto.get? b with _ | r
    · exact (h.crash _).rearm now
    · have hbackoff : Alike b { s with rto := s.rto.set b r.onTimeout }
          { t with rto := t.rto.set b r.onTimeout } := by
        refine h.withCore ?_ h.crashed
        have hheld := h.held
        simp only [holding, Holding.mk.injEq] at hheld ⊢
        simp [hheld]
      exact hbackoff.rearm now
  · simp only [if_neg hadaptive]
    exact h.rearm now

theorem Alike.timeoutPeer (h : Alike b s t) (input : SweepInput) :
    Alike b (GoBackNTransport.timeoutPeer cfg input s b)
      (GoBackNTransport.timeoutPeer cfg input t b) := by
  have htimer : s.timerDeadline.getD b none = t.timerDeadline.getD b none := by
    rw [Dict.getD, Dict.getD, h.timer]
  have hretries : s.retries.getD b 0 = t.retries.getD b 0 :=
    congrArg (fun x => x.retries.getD 0) h.held
  have hcount : Alike b
      { s with retries := s.retries.set b (t.retries.getD b 0 + 1) }
      { t with retries := t.retries.set b (t.retries.getD b 0 + 1) } := by
    refine h.withCore ?_ h.crashed
    have hheld := h.held
    simp only [holding, Holding.mk.injEq] at hheld ⊢
    simp [hheld]
  simp only [GoBackNTransport.timeoutPeer]
  rw [htimer, hretries, h.outstanding]
  split
  · exact h
  · split
    · exact h
    · split
      · exact h.withTimer none
      · split
        · exact hcount.failPeer _
        · exact (hcount.retransmit input _ _).restartTimer _

/-! ## Sweeps -/

/-- One sweep over the timers of many peers. -/
theorem handleTimeouts_only (h : s.WellFormed) (hrun : ¬ s.crashed.isSome)
    (input : SweepInput) (b : Address) :
    (handleTimeouts cfg (s.only b) input).peer b =
      (handleTimeouts cfg s input).peer b := by
  have hkeep : ∀ (s : GoBackNTransport) (a : Address),
      s.WellFormed ∧ ¬ s.crashed.isSome →
      (if s.crashed.isSome then s else timeoutPeer cfg input s a).WellFormed ∧
      ¬ (if s.crashed.isSome then s
        else timeoutPeer cfg input s a).crashed.isSome := by
    intro s a hs
    rw [if_neg hs.2]
    exact timeoutPeer_wellFormed hs.1 hs.2 input a
  have hother : ∀ (s : GoBackNTransport) (a : Address),
      s.WellFormed ∧ ¬ s.crashed.isSome → a ≠ b →
      (if s.crashed.isSome then s else timeoutPeer cfg input s a).peer b =
        s.peer b := by
    intro s a hs ha
    rw [if_neg hs.2]
    exact apart_timeoutPeer input b (Ne.symm ha)
  exact foldl_view_eq
    (fun s a => if s.crashed.isSome then s else timeoutPeer cfg input s a)
    id (fun s => s.peer b) (fun s => s.WellFormed ∧ ¬ s.crashed.isSome)
    (fun s => s.WellFormed ∧ ¬ s.crashed.isSome) b
    (s.only b).timerDeadline.keys s.timerDeadline.keys
    (fun s a _ => hkeep s a) (fun s a _ => hkeep s a)
    (fun s a _ hs ha => hother s a hs ha)
    (fun s a _ hs ha => hother s a hs ha)
    (fun s t hs ht hst x _ y _ hx hy => by
      obtain rfl : x = b := hx
      obtain rfl : y = x := hy
      rw [if_neg hs.2, if_neg ht.2]
      exact ((alike_of_running hs.2 ht.2 hst).timeoutPeer input).peer)
    (by simpa using (s.only b).timerDeadline.nodup_keys)
    (by simpa using s.timerDeadline.nodup_keys)
    (by
      rw [List.map_id, List.map_id]
      exact (mem_keys_only s.timerDeadline b).symm)
    ⟨h.only b, hrun⟩ ⟨h, hrun⟩ (peer_only s b)

/-! ## Isolation -/

/-- The peers do not interfere: what one of them causes changes nothing for the
others, and a sweep does with each peer what it would do if this were the only
one. -/
structure Isolated (cfg : Config) (s : GoBackNTransport) : Prop where
  acts : ∀ a b s', ActsOn cfg a s s' → b ≠ a → s'.peer b = s.peer b
  timeouts : ∀ b input, (step cfg (s.only b) (.timeouts input)).peer b =
    (step cfg s (.timeouts input)).peer b
  pump : s.Encodable → ∀ b input,
    (pumpWindows cfg input (s.only b)).peer b =
      (pumpWindows cfg input s).peer b

theorem WellFormed.isolated (h : s.WellFormed) : Isolated cfg s where
  acts _ b _ hacts hb := hacts.apart b hb
  timeouts b input := by
    by_cases hcrashed : s.crashed.isSome
    · have hdead : step cfg s (.timeouts input) = s := if_pos hcrashed
      have hdead' : step cfg (s.only b) (.timeouts input) = s.only b :=
        if_pos hcrashed
      rw [hdead, hdead', peer_only]
    · have hsweep : step cfg s (.timeouts input) = handleTimeouts cfg s input :=
        if_neg hcrashed
      have hsweep' : step cfg (s.only b) (.timeouts input) =
          handleTimeouts cfg (s.only b) input := if_neg hcrashed
      rw [hsweep, hsweep', handleTimeouts_only h hcrashed]
  pump hencodable b input := by
    rw [pumpWindows_eq, pumpWindows_eq]
    exact (partition cfg).pump_only h hencodable b input

end GoBackNTransport

end UdpArq
