import UdpArq.SelectiveRepeat.Armed
import UdpArq.Transport.Partition

/-!
# Selective Repeat peers do not interfere

As in Go-Back-N, with one heap for the timers of all peers.  What a sweep pops
for one peer is what it would pop from a heap without the entries of the others:
these come in the order of their deadlines, and the loop stops at the first one
that is valid and not yet due.
-/

namespace UdpArq

namespace SelectiveRepeatTransport

open UdpArq.Core

/-- What the transport holds for one peer. -/
structure Peer extends Holding where
  timers : ℕ → Option ℚ
  buffer : Option (Dict ℕ Bytes)

/-- The entries of `b`, with the deadlines of its packets. -/
def peer (s : SelectiveRepeatTransport) (b : Address) : Peer :=
  ⟨s.toCore.holding b, fun q => s.timerHeap.keyToDeadline.get? (b, q),
    s.buffer.get? b⟩

/-- The same transport, if `b` is its only peer. -/
def only (s : SelectiveRepeatTransport) (b : Address) :
    SelectiveRepeatTransport where
  toCore := s.toCore.only b
  timerHeap := s.timerHeap.restrict fun k => k.1 = b
  retransmissions := s.retransmissions
  buffer := s.buffer.restrict fun a => a = b

/-- Nothing changes for the peers other than `a`. -/
def Apart (a : Address) (s s' : SelectiveRepeatTransport) : Prop :=
  ∀ b, b ≠ a → s'.peer b = s.peer b

/-- For `b`, and for the thread, the two states are the same. -/
structure Alike (b : Address) (s t : SelectiveRepeatTransport) : Prop where
  peer : s.peer b = t.peer b
  crashed : s.crashed = t.crashed

variable {cfg : Config} {s s' s'' t : SelectiveRepeatTransport} {a b : Address}

@[simp] theorem peer_only (s : SelectiveRepeatTransport) (b : Address) :
    (s.only b).peer b = s.peer b := by
  simp [peer, only, TimerHeap.restrict]

theorem peer_eq (hheld : s.toCore.holding b = t.toCore.holding b)
    (htimers : ∀ q, s.timerHeap.keyToDeadline.get? (b, q) =
      t.timerHeap.keyToDeadline.get? (b, q))
    (hbuffer : s.buffer.get? b = t.buffer.get? b) : s.peer b = t.peer b := by
  rw [peer, peer, hheld, funext htimers, hbuffer]

/-! ## Timers -/

theorem Apart.refl (a : Address) (s : SelectiveRepeatTransport) : Apart a s s :=
  fun _ _ => rfl

theorem Apart.trans (h : Apart a s s') (h' : Apart a s' s'') : Apart a s s'' :=
  fun b hb => (h' b hb).trans (h b hb)

theorem Apart.core {c : Core}
    (h : ∀ b, b ≠ a → c.holding b = s.toCore.holding b) :
    Apart a s { s with toCore := c } :=
  fun b hb => peer_eq (h b hb) (fun _ => rfl) rfl

/-- The heap after calls for packets of `a`. -/
theorem Apart.heap {heap : TimerHeap (Address × ℕ)}
    (h : ∀ b q, b ≠ a → heap.keyToDeadline.get? (b, q) =
      s.timerHeap.keyToDeadline.get? (b, q)) :
    Apart a s { s with timerHeap := heap } :=
  fun b hb => peer_eq rfl (fun q => h b q hb) rfl

theorem Apart.schedule (seq : ℕ) (deadline : ℚ) :
    Apart a s
      { s with timerHeap := s.timerHeap.schedule (a, seq) deadline } := by
  refine .heap fun b q hb => ?_
  rw [TimerHeap.get?_schedule, if_neg fun h => hb (Prod.mk.inj h).1]

theorem Apart.cancel (seq : ℕ) :
    Apart a s { s with timerHeap := s.timerHeap.cancel (a, seq) } := by
  refine .heap fun b q hb => ?_
  rw [TimerHeap.get?_cancel, if_neg fun h => hb (Prod.mk.inj h).1]

theorem apart_armTimer (cfg : Config) (seq : ℕ) (now : ℚ) :
    Apart a s (armTimer cfg s a seq now) := by
  unfold armTimer
  split
  · exact .core fun _ _ => rfl
  · exact .schedule seq _

theorem alike_of_running (hs : ¬ s.crashed.isSome) (ht : ¬ t.crashed.isSome)
    (h : s.peer b = t.peer b) : Alike b s t := by
  rw [Option.not_isSome_iff_eq_none] at hs ht
  exact ⟨h, hs.trans ht.symm⟩

theorem Alike.held (h : Alike b s t) :
    s.toCore.holding b = t.toCore.holding b :=
  congrArg Peer.toHolding h.peer

theorem Alike.timers (h : Alike b s t) (q : ℕ) :
    s.timerHeap.keyToDeadline.get? (b, q) =
      t.timerHeap.keyToDeadline.get? (b, q) :=
  congrFun (congrArg Peer.timers h.peer) q

theorem Alike.buffer (h : Alike b s t) : s.buffer.get? b = t.buffer.get? b :=
  congrArg Peer.buffer h.peer

theorem Alike.outstanding (h : Alike b s t) :
    sub s.outstanding b = sub t.outstanding b :=
  sub_eq_of_holding (congrArg Holding.outstanding h.held)

theorem Alike.withCore (h : Alike b s t) {c c' : Core}
    (hheld : c.holding b = c'.holding b) (hcrashed : c.crashed = c'.crashed) :
    Alike b { s with toCore := c } { t with toCore := c' } :=
  ⟨peer_eq hheld h.timers h.buffer, hcrashed⟩

theorem Alike.withHeap (h : Alike b s t) {heap heap' : TimerHeap (Address × ℕ)}
    (htimers : ∀ q, heap.keyToDeadline.get? (b, q) =
      heap'.keyToDeadline.get? (b, q)) :
    Alike b { s with timerHeap := heap } { t with timerHeap := heap' } :=
  ⟨peer_eq h.held htimers h.buffer, h.crashed⟩

theorem Alike.schedule (h : Alike b s t) (seq : ℕ) (deadline : ℚ) :
    Alike b { s with timerHeap := s.timerHeap.schedule (b, seq) deadline }
      { t with timerHeap := t.timerHeap.schedule (b, seq) deadline } := by
  refine h.withHeap fun q => ?_
  rw [TimerHeap.get?_schedule, TimerHeap.get?_schedule, h.timers]

theorem peer_cancel (h : s.peer b = t.peer b) (seq : ℕ) :
    ({ s with timerHeap := s.timerHeap.cancel (b, seq) } :
        SelectiveRepeatTransport).peer b =
      ({ t with timerHeap := t.timerHeap.cancel (b, seq) } :
        SelectiveRepeatTransport).peer b := by
  refine peer_eq (congrArg Peer.toHolding h) (fun q => ?_)
    (congrArg Peer.buffer h)
  have htimers : s.timerHeap.keyToDeadline.get? (b, q) =
      t.timerHeap.keyToDeadline.get? (b, q) :=
    congrFun (congrArg Peer.timers h) q
  rw [TimerHeap.get?_cancel, TimerHeap.get?_cancel, htimers]

theorem Alike.crash (h : Alike b s t) (e : Err) :
    Alike b { s with toCore := s.crash e } { t with toCore := t.crash e } :=
  h.withCore h.held rfl

theorem Alike.transmit (h : Alike b s t) (packet : Bytes) :
    Alike b { s with toCore := s.transmit packet b }
      { t with toCore := t.transmit packet b } := by
  refine h.withCore ?_ h.crashed
  rw [holding_transmit, holding_transmit, h.held]

theorem Alike.armTimer (cfg : Config) (h : Alike b s t) (seq : ℕ) (now : ℚ) :
    Alike b (SelectiveRepeatTransport.armTimer cfg s b seq now)
      (SelectiveRepeatTransport.armTimer cfg t b seq now) := by
  unfold SelectiveRepeatTransport.armTimer
  rw [rtoValue_of_holding cfg h.held]
  split
  · exact h.crash _
  · exact h.schedule seq _

/-! ## The transport with one peer -/

theorem WellFormed.only (h : s.WellFormed) (b : Address) :
    (s.only b).WellFormed := by
  intro a
  have hlane : (s.only b).lane a =
      (s.toCore.only b).lane (sub (s.only b).buffer a) a := rfl
  have hbuffer : sub (s.only b).buffer a =
      if a = b then sub s.buffer a else ∅ := sub_only b s.buffer a
  rw [hlane, hbuffer]
  by_cases ha : a = b
  · subst ha
    rw [lane_only_self, if_pos rfl]
    exact h a
  · rw [if_neg ha, lane_only_of_ne s.toCore ha]
    exact Lane.wellFormed_blank a _ _

def partition (cfg : Config) : (endpoint cfg).Partition (handled cfg) where
  Peer := Peer
  peer := peer
  only := only
  core_only _ _ := rfl
  peer_only := peer_only
  wellFormed_only _ b h := WellFormed.only h b
  holding _ _ _ h := congrArg Peer.toHolding h
  withCore _ _ _ _ _ h hheld := peer_eq hheld
    (congrFun (congrArg Peer.timers h)) (congrArg Peer.buffer h)
  armTimer_apart _ _ b seq now hb := apart_armTimer cfg seq now b hb
  armTimer_alike s t _ seq now h hcrashed :=
    let harm := Alike.armTimer cfg (s := s) (t := t) ⟨h, hcrashed⟩ seq now
    ⟨harm.peer, harm.crashed⟩
  stopTimer_apart _ _ b seq hb := Apart.cancel seq b hb
  stopTimer_alike _ _ _ seq h := peer_cancel h seq

/-! ## The other peers -/

theorem get?_failPeer_timerHeap (e : Err) {q : ℕ} (hb : b ≠ a) :
    (failPeer s a e).timerHeap.keyToDeadline.get? (b, q) =
      s.timerHeap.keyToDeadline.get? (b, q) := by
  have hheap : (failPeer s a e).timerHeap =
      ((sub s.outstanding a).keys.map fun seq => (a, seq)).foldl
        TimerHeap.cancel s.timerHeap := by
    rw [List.foldl_map]
    rfl
  rw [hheap, TimerHeap.get?_cancels]
  simp [hb.symm]

theorem apart_failPeer (e : Err) : Apart a s (failPeer s a e) := by
  intro b hb
  refine peer_eq ?_ (fun q => get?_failPeer_timerHeap e hb) rfl
  have hfail := (holding_failPeer s.toCore a b e).trans (if_neg hb)
  simp only [holding, Holding.mk.injEq] at hfail ⊢
  simp only [failPeer, Dict.get?_modify, if_neg hb]
  tauto

theorem apart_retransmit (input : SweepInput) (seqs : List ℕ) :
    Apart a s (retransmit cfg input a seqs s) := by
  induction seqs generalizing s with
  | nil => exact .refl a s
  | cons seq seqs ih =>
      rcases hget : (sub s.outstanding a).get? seq with _ | packet
      · simp only [retransmit, hget]
        exact ih
      have hmark : Apart a s
          { s with
            retransmitted := s.retransmitted.set a
              (insert seq (s.retransmitted.getD a ∅))
            retransmissions := s.retransmissions + 1 } :=
        fun b hb => peer_eq (by simp [holding, hb]) (fun _ => rfl) rfl
      have harm := hmark.trans
        (apart_armTimer cfg seq (input.rearmAt a seq))
      simp only [retransmit, hget]
      split
      · exact harm
      · split
        · exact harm.trans (apart_failPeer _)
        · refine harm.trans (.trans (.core fun b hb => ?_) ih)
          rw [holding_transmit, if_neg hb]

theorem apart_finishTimeout (input : SweepInput) (seqs : List ℕ)
    (retries : ℕ) :
    Apart a s
      (if s.crashed.isSome then s
      else if retries > cfg.maxRetries then
        failPeer s a (.noAck a cfg.maxRetries)
      else retransmit cfg input a seqs s) := by
  split
  · exact .refl a s
  · split
    · exact apart_failPeer _
    · exact apart_retransmit input seqs

theorem apart_timeoutPeer (input : SweepInput) (seqs : List ℕ) :
    Apart a s (timeoutPeer cfg input s a seqs) := by
  have hcount : Apart a s
      { s with retries := s.retries.set a (s.retries.getD a 0 + 1) } :=
    .core fun b hb => by simp [holding, hb]
  by_cases hadaptive : cfg.adaptive
  · rcases hget : s.rto.get? a with _ | r
    · have hcrash : Apart a
          { s with retries := s.retries.set a (s.retries.getD a 0 + 1) }
          { s with
            toCore := ({ s.toCore with
              retries := s.retries.set a
                (s.retries.getD a 0 + 1) } : Core).crash (.keyError a) } :=
        .core fun _ _ => rfl
      simp only [timeoutPeer, if_pos hadaptive, hget]
      exact (hcount.trans hcrash).trans (apart_finishTimeout input seqs _)
    · have hbackoff : Apart a s
          { s with
            retries := s.retries.set a (s.retries.getD a 0 + 1)
            rto := s.rto.set a r.onTimeout } :=
        .core fun b hb => by simp [holding, hb]
      simp only [timeoutPeer, if_pos hadaptive, hget]
      exact hbackoff.trans (apart_finishTimeout input seqs _)
  · simp only [timeoutPeer, if_neg hadaptive]
    exact hcount.trans (apart_finishTimeout input seqs _)

theorem apart_handleAck (raw : Bytes) (input : IncomingInput) :
    Apart a s (handleAck cfg s raw a input) := by
  apply handleAck_keeps cfg (Apart.refl a) (fun _ _ _ h h' => h.trans h')
  · intro s acked
    have hcomplete : Apart a s { s with toCore := s.complete a [acked] } :=
      .core fun b hb => holding_complete hb [acked]
    exact hcomplete.trans (.cancel acked)
  · exact fun s seq acknowledged now =>
      .core fun b hb => holding_sampleRtt hb _ _ _
  · exact fun s base => .core fun b hb => by simp [holding, hb]

theorem apart_handleData (seq : ℕ) (payload : Bytes) (input : IncomingInput) :
    Apart a s (handleData cfg s seq payload a input) := by
  have hdata : ∀ (expected ackFor : ℕ) (buffer : Dict ℕ Bytes)
      (payloads : List Bytes), Apart a s { s with
        toCore := ({ s.toCore with
          expected := s.expected.set a expected } : Core).acknowledge a ackFor
            payloads input.sendResult
        buffer := s.buffer.set a buffer } := by
    intro expected ackFor buffer payloads b hb
    refine peer_eq ?_ (fun _ => rfl) ?_
    · rw [holding_acknowledge hb]
      simp [holding, hb]
    · rw [Dict.get?_set, if_neg hb]
  exact hdata _ _ _ _

theorem apart_handleIncoming (raw : Bytes) (input : IncomingInput) :
    Apart a s (handleIncoming cfg s raw a input) := by
  rcases handleIncoming_cases cfg s raw a input with
    ⟨n, -, hack⟩ | ⟨seq, payload, -, hdata⟩ | ⟨-, hsame⟩
  · rw [hack]
    exact apart_handleAck raw input
  · rw [hdata]
    exact apart_handleData seq payload input
  · rw [hsame]
    exact .refl a s

theorem apart_drainItem {item : Item} {rest : List Item}
    (hqueue : s.outbound = item :: rest) :
    Apart item.addr s (drainItem cfg s) := by
  have hregister : Apart item.addr s { s with
      toCore := { s.register item rest with
        retransmitted := s.retransmitted.setdefault item.addr ∅ }
      buffer := s.buffer.setdefault item.addr ∅ } := by
    intro b hb
    refine peer_eq ?_ (fun _ => rfl) ?_
    · have hold := holding_register hqueue hb
      simp only [holding, Holding.mk.injEq, Dict.get?_setdefault,
        if_neg hb] at hold ⊢
      tauto
    · rw [Dict.get?_setdefault, if_neg hb]
  simp only [drainItem, hqueue]
  split
  · exact hregister.trans (.core fun _ _ => rfl)
  · exact hregister.trans (.core fun b hb => by simp [holding, register, hb])

/-- What can happen because of the peer `a`. -/
inductive ActsOn (cfg : Config) (a : Address) (s : SelectiveRepeatTransport) :
    SelectiveRepeatTransport → Prop
  | sendto (data : Bytes) : ActsOn cfg a s (step cfg s (.sendto data a))
  | drain {item : Item} {rest : List Item} (hqueue : s.outbound = item :: rest)
      (haddr : item.addr = a) : ActsOn cfg a s (step cfg s .drain)
  | pump (input : PumpInput) : ActsOn cfg a s (step cfg s (.pump a input))
  | incoming (raw : Bytes) (input : IncomingInput) :
      ActsOn cfg a s (step cfg s (.incoming raw a input))
  | visit (input : SweepInput) (seqs : List ℕ) :
      ActsOn cfg a s (timeoutPeer cfg input s a seqs)
  | fail (e : Err) : ActsOn cfg a s (failPeer s a e)

/-- What happens because of one peer changes nothing for the others. -/
theorem ActsOn.apart (h : ActsOn cfg a s s') : Apart a s s' := by
  cases h with
  | sendto data => exact fun b hb => (partition cfg).apart_sendto hb data
  | drain hqueue haddr =>
      subst haddr
      unfold step
      dsimp only
      split_ifs
      · exact .refl _ s
      · exact apart_drainItem hqueue
  | pump input => exact fun b hb => (partition cfg).apart_pump hb input
  | incoming raw input =>
      unfold step
      dsimp only
      split_ifs
      · exact .refl a s
      · exact apart_handleIncoming raw input
  | visit input seqs => exact apart_timeoutPeer input seqs
  | fail e => exact apart_failPeer e

/-! ## The peer itself -/

theorem Alike.failPeer (h : Alike b s t) (e : Err) :
    Alike b (SelectiveRepeatTransport.failPeer s b e)
      (SelectiveRepeatTransport.failPeer t b e) := by
  have hcancels : ∀ (seqs : List ℕ) (heap heap' : TimerHeap (Address × ℕ)),
      (∀ q, heap.keyToDeadline.get? (b, q) =
        heap'.keyToDeadline.get? (b, q)) → ∀ q,
      (seqs.foldl (fun heap seq => heap.cancel (b, seq))
          heap).keyToDeadline.get? (b, q) =
        (seqs.foldl (fun heap seq => heap.cancel (b, seq))
          heap').keyToDeadline.get? (b, q) := by
    intro seqs
    induction seqs with
    | nil => exact fun _ _ hsame => hsame
    | cons seq seqs ih =>
        intro heap heap' hsame
        apply ih
        intro q
        rw [TimerHeap.get?_cancel, TimerHeap.get?_cancel, hsame]
  refine ⟨peer_eq ?_ ?_ h.buffer, h.crashed⟩
  · have hfail : (s.toCore.failPeer b e).holding b =
        (t.toCore.failPeer b e).holding b := by
      rw [holding_failPeer, holding_failPeer, h.held]
    have hheld := h.held
    simp only [holding, Holding.mk.injEq] at hfail hheld ⊢
    simp only [SelectiveRepeatTransport.failPeer, Dict.get?_modify, if_true,
      hheld]
    tauto
  · simp only [SelectiveRepeatTransport.failPeer]
    rw [h.outstanding]
    exact hcancels _ _ _ h.timers

theorem Alike.retransmit (h : Alike b s t) (input : SweepInput)
    (seqs : List ℕ) :
    Alike b (SelectiveRepeatTransport.retransmit cfg input b seqs s)
      (SelectiveRepeatTransport.retransmit cfg input b seqs t) := by
  induction seqs generalizing s t with
  | nil => exact h
  | cons seq seqs ih =>
      have hout := h.outstanding
      rcases hget : (sub t.outstanding b).get? seq with _ | packet
      · simp only [SelectiveRepeatTransport.retransmit, hout, hget]
        exact ih h
      have hmark : Alike b
          { s with
            retransmitted := s.retransmitted.set b
              (insert seq (s.retransmitted.getD b ∅))
            retransmissions := s.retransmissions + 1 }
          { t with
            retransmitted := t.retransmitted.set b
              (insert seq (t.retransmitted.getD b ∅))
            retransmissions := t.retransmissions + 1 } := by
        refine ⟨peer_eq ?_ h.timers h.buffer, h.crashed⟩
        have hheld := h.held
        simp only [holding, Holding.mk.injEq] at hheld ⊢
        simp [hheld, Dict.getD]
      have harm := hmark.armTimer cfg seq (input.rearmAt b seq)
      simp only [SelectiveRepeatTransport.retransmit, hout, hget]
      rw [harm.crashed]
      split
      · exact harm
      · split
        · exact harm.failPeer _
        · exact ih (harm.transmit packet)

/-- The end of a visit, after the retry has been counted. -/
theorem Alike.finishTimeout (h : Alike b s t) (input : SweepInput)
    (seqs : List ℕ) (retries : ℕ) :
    Alike b
      (if s.crashed.isSome then s
      else if retries > cfg.maxRetries then
        SelectiveRepeatTransport.failPeer s b (.noAck b cfg.maxRetries)
      else SelectiveRepeatTransport.retransmit cfg input b seqs s)
      (if t.crashed.isSome then t
      else if retries > cfg.maxRetries then
        SelectiveRepeatTransport.failPeer t b (.noAck b cfg.maxRetries)
      else SelectiveRepeatTransport.retransmit cfg input b seqs t) := by
  rw [h.crashed]
  split
  · exact h
  · split
    · exact h.failPeer _
    · exact h.retransmit input seqs

theorem Alike.timeoutPeer (h : Alike b s t) (input : SweepInput)
    (seqs : List ℕ) :
    Alike b (SelectiveRepeatTransport.timeoutPeer cfg input s b seqs)
      (SelectiveRepeatTransport.timeoutPeer cfg input t b seqs) := by
  have hretries : s.retries.getD b 0 = t.retries.getD b 0 :=
    congrArg (fun x => x.retries.getD 0) h.held
  have hrto : s.rto.get? b = t.rto.get? b := congrArg Holding.rto h.held
  have hheld := h.held
  simp only [holding, Holding.mk.injEq] at hheld
  have hcount : Alike b
      { s with retries := s.retries.set b (t.retries.getD b 0 + 1) }
      { t with retries := t.retries.set b (t.retries.getD b 0 + 1) } := by
    refine h.withCore ?_ h.crashed
    simp [holding, hheld]
  by_cases hadaptive : cfg.adaptive
  · rcases hget : t.rto.get? b with _ | r
    · simp only [SelectiveRepeatTransport.timeoutPeer, if_pos hadaptive,
        hretries, hrto, hget]
      exact (hcount.crash _).finishTimeout input seqs _
    · have hbackoff : Alike b
          { s with
            retries := s.retries.set b (t.retries.getD b 0 + 1)
            rto := s.rto.set b r.onTimeout }
          { t with
            retries := t.retries.set b (t.retries.getD b 0 + 1)
            rto := t.rto.set b r.onTimeout } := by
        refine h.withCore ?_ h.crashed
        simp [holding, hheld]
      simp only [SelectiveRepeatTransport.timeoutPeer, if_pos hadaptive,
        hretries, hrto, hget]
      exact hbackoff.finishTimeout input seqs _
  · simp only [SelectiveRepeatTransport.timeoutPeer, if_neg hadaptive, hretries]
    exact hcount.finishTimeout input seqs _

/-! ## Sweeps -/

/-- The due packets of `b` are the same without the other peers. -/
theorem get?_groupDue_filter (hout : sub s.outstanding b = sub t.outstanding b)
    (due : List (Address × ℕ)) {groups groups' : Dict Address (List ℕ)}
    (hgroups : groups.get? b = groups'.get? b) :
    (groupDue s (due.filter fun k => k.1 = b) groups).get? b =
      (groupDue t due groups').get? b := by
  induction due generalizing groups groups' with
  | nil => exact hgroups
  | cons k due ih =>
      obtain ⟨addr, seq⟩ := k
      by_cases haddr : addr = b
      · subst haddr
        rw [List.filter_cons_of_pos (by simp), groupDue, groupDue, hout]
        split_ifs
        · apply ih
          rw [Dict.get?_set, Dict.get?_set, if_pos rfl, if_pos rfl, Dict.getD,
            Dict.getD, hgroups]
        · exact ih hgroups
      · rw [List.filter_cons_of_neg (by simpa using haddr), groupDue]
        split_ifs
        · apply ih
          rw [Dict.get?_set, if_neg (Ne.symm haddr), hgroups]
        · exact ih hgroups

/-- One sweep over the timers of many peers. -/
theorem handleTimeouts_only (h : s.WellFormed) (hrun : ¬ s.crashed.isSome)
    (hheap : TimerHeap.Ascending s.timerHeap.heap) (input : SweepInput)
    (b : Address) :
    (handleTimeouts cfg (s.only b) input).peer b =
      (handleTimeouts cfg s input).peer b := by
  obtain ⟨groups, hgroups⟩ : ∃ groups,
      groupDue s (s.timerHeap.popDue input.now).1 ∅ = groups := ⟨_, rfl⟩
  obtain ⟨groups', hgroups'⟩ : ∃ groups,
      groupDue (s.only b) ((s.only b).timerHeap.popDue input.now).1 ∅ =
        groups := ⟨_, rfl⟩
  obtain ⟨hkeys, hleft⟩ := TimerHeap.popDue_restrict hheap (fun k => k.1 = b)
    input.now
  have hget : groups'.get? b = groups.get? b := by
    rw [← hgroups, ← hgroups']
    have hpopped : ((s.only b).timerHeap.popDue input.now).1 =
        (s.timerHeap.popDue input.now).1.filter fun k => k.1 = b := hkeys
    rw [hpopped]
    apply get?_groupDue_filter _ _ rfl
    exact sub_eq_of_holding (congrArg (fun p : Peer => p.outstanding)
      (peer_only s b))
  have hstart : Alike b (s.only b) s := ⟨peer_only s b, rfl⟩
  have hpopped : Alike b
      { s.only b with timerHeap := ((s.only b).timerHeap.popDue input.now).2 }
      { s with timerHeap := (s.timerHeap.popDue input.now).2 } :=
    hstart.withHeap fun q => hleft (b, q) rfl
  have hrto : ∀ x ∈ groups.entries, (s.lane x.1).estimator = true :=
    fun x hx => due_estimator h hrun hgroups hx
  have hrto' : ∀ x ∈ groups'.entries,
      ((s.only b).lane x.1).estimator = true :=
    fun x hx => due_estimator (h.only b) hrun hgroups' hx
  have hkeep : ∀ (groups : Dict Address (List ℕ))
      (s : SelectiveRepeatTransport), ∀ x ∈ groups.entries,
      (¬ s.crashed.isSome ∧
        ∀ y ∈ groups.entries, (s.lane y.1).estimator = true) →
      ¬ (visit cfg input s x).crashed.isSome ∧
        ∀ y ∈ groups.entries,
          ((visit cfg input s x).lane y.1).estimator = true := by
    intro groups s x hx hs
    rw [visit, if_neg hs.1]
    exact timeoutPeer_keeps hs.1 hs.2 input hx
  have hother : ∀ (groups : Dict Address (List ℕ))
      (s : SelectiveRepeatTransport), ∀ x ∈ groups.entries,
      (¬ s.crashed.isSome ∧
        ∀ y ∈ groups.entries, (s.lane y.1).estimator = true) → x.1 ≠ b →
      (visit cfg input s x).peer b = s.peer b := by
    intro groups s x hx hs hxb
    rw [visit, if_neg hs.1]
    exact apart_timeoutPeer input x.2 b (Ne.symm hxb)
  rw [handleTimeouts_eq hgroups, handleTimeouts_eq hgroups']
  exact foldl_view_eq (visit cfg input) Prod.fst (fun s => s.peer b)
    (fun s => ¬ s.crashed.isSome ∧
      ∀ y ∈ groups'.entries, (s.lane y.1).estimator = true)
    (fun s => ¬ s.crashed.isSome ∧
      ∀ y ∈ groups.entries, (s.lane y.1).estimator = true) b
    groups'.entries groups.entries (hkeep groups') (hkeep groups)
    (hother groups') (hother groups)
    (fun s t hs ht hst x hx y hy hxb hyb => by
      have hseqs : x.2 = y.2 := by
        obtain ⟨xa, xs⟩ := x
        obtain ⟨ya, ys⟩ := y
        subst hxb hyb
        rw [Dict.mem_entries] at hx hy
        rw [hx, hy, Option.some.injEq] at hget
        exact hget
      have halike := alike_of_running hs.1 ht.1 hst
      rw [visit, visit, if_neg hs.1, if_neg ht.1, hxb, hyb, hseqs]
      exact (halike.timeoutPeer input y.2).peer)
    groups'.nodupKeys groups.nodupKeys
    (by
      change b ∈ groups'.keys ↔ b ∈ groups.keys
      rw [Dict.mem_keys, Dict.mem_keys, hget])
    (s := { s.only b with
      timerHeap := ((s.only b).timerHeap.popDue input.now).2 })
    (t := { s with timerHeap := (s.timerHeap.popDue input.now).2 })
    ⟨hrun, hrto'⟩ ⟨hrun, hrto⟩ hpopped.peer

/-! ## Isolation -/

/-- The peers do not interfere: what one of them causes changes nothing for the
others, and a sweep does with each peer what it would do if this were the only
one. -/
structure Isolated (cfg : Config) (s : SelectiveRepeatTransport) : Prop where
  acts : ∀ a b s', ActsOn cfg a s s' → b ≠ a → s'.peer b = s.peer b
  timeouts : ∀ b input, (step cfg (s.only b) (.timeouts input)).peer b =
    (step cfg s (.timeouts input)).peer b
  pump : s.Encodable → ∀ b input,
    (pumpWindows cfg input (s.only b)).peer b =
      (pumpWindows cfg input s).peer b

theorem WellFormed.isolated (h : s.WellFormed)
    (hheap : TimerHeap.Ascending s.timerHeap.heap) : Isolated cfg s where
  acts _ b _ hacts hb := hacts.apart b hb
  timeouts b input := by
    by_cases hcrashed : s.crashed.isSome
    · have hdead : step cfg s (.timeouts input) = s := if_pos hcrashed
      have hdead' : step cfg (s.only b) (.timeouts input) = s.only b :=
        if_pos hcrashed
      rw [hdead, hdead', peer_only]
    · have hsweep : step cfg s (.timeouts input) = handleTimeouts cfg s input :=
        if_neg hcrashed
      have hsweep' : step cfg (s.only b) (.timeouts input) =
          handleTimeouts cfg (s.only b) input := if_neg hcrashed
      rw [hsweep, hsweep', handleTimeouts_only h hcrashed hheap]
  pump hencodable b input := by
    rw [pumpWindows_eq, pumpWindows_eq]
    exact (partition cfg).pump_only h hencodable b input

end SelectiveRepeatTransport

end UdpArq
