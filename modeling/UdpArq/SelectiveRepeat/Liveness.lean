import UdpArq.SelectiveRepeat.Armed
import UdpArq.SelectiveRepeat.Metered
import UdpArq.SelectiveRepeat.Watched
import UdpArq.Transport.Liveness

/-!
# Delivery by Selective Repeat

Every packet in flight has a timer of its own, which moves only when the packet
is sent again.  A sweep after the deadline takes it out of the heap, finds the
packet outstanding and sends it.  The receiver answers every datagram up to the
one it expects next with an acknowledgement of exactly that datagram.
-/

namespace UdpArq

namespace SelectiveRepeatTransport

open Filter UdpArq.Core

variable {cfg : Config} {s : SelectiveRepeatTransport} {addr : Address}

/-- `key_to_deadline.get((addr, seq))`. -/
def timer (s : SelectiveRepeatTransport) (addr : Address) (q : ℕ) : Option ℚ :=
  s.timerHeap.keyToDeadline.get? (addr, q)

/-! ## What a sweep sends again -/

/-- Giving a peer up leaves the timers of everyone else alone. -/
theorem timer_failPeer (s : SelectiveRepeatTransport) {a : Address}
    (ha : addr ≠ a) (e : Err) (q : ℕ) :
    (failPeer s a e).timer addr q = s.timer addr q := by
  have hheap : (failPeer s a e).timerHeap =
      ((sub s.outstanding a).keys.map fun seq => (a, seq)).foldl
        TimerHeap.cancel s.timerHeap := by
    rw [List.foldl_map]
    rfl
  have hfresh : (addr, q) ∉
      (sub s.outstanding a).keys.map fun seq => (a, seq) := by
    simp [Ne.symm ha]
  rw [timer, hheap, TimerHeap.get?_cancels _ _ _ hfresh, timer]

/-- The retransmission loop leaves the timers of all other packets alone, unless
it gives the peer up. -/
theorem retransmit_timer (cfg : Config) (input : SweepInput) {a : Address}
    {q : ℕ} (seqs : List ℕ) (s : SelectiveRepeatTransport)
    (hapart : addr = a → q ∉ seqs ∧ ∀ p ∈ seqs, input.sendResult a p = none) :
    (retransmit cfg input a seqs s).timer addr q = s.timer addr q := by
  induction seqs generalizing s with
  | nil => rfl
  | cons seq rest ih =>
      have hrest : addr = a →
          q ∉ rest ∧ ∀ p ∈ rest, input.sendResult a p = none := fun ha =>
        ⟨fun hq => (hapart ha).1 (List.mem_cons_of_mem _ hq),
          fun p hp => (hapart ha).2 p (List.mem_cons_of_mem _ hp)⟩
      rcases hget : (sub s.outstanding a).get? seq with _ | packet
      · simp only [retransmit, hget]
        exact ih s hrest
      obtain ⟨s₁, hs₁⟩ : ∃ s₁ : SelectiveRepeatTransport, armTimer cfg
        { s with
          retransmitted := s.retransmitted.set a
            (insert seq (s.retransmitted.getD a ∅))
          retransmissions := s.retransmissions + 1 } a seq
          (input.rearmAt a seq) = s₁ := ⟨_, rfl⟩
      have htimer : s₁.timer addr q = s.timer addr q := by
        have hne : (addr, q) ≠ (a, seq) := by
          intro heq
          obtain ⟨ha, hq⟩ := Prod.mk.inj heq
          exact (hapart ha).1 (hq ▸ List.mem_cons_self)
        rw [← hs₁, armTimer]
        split
        · rfl
        · exact (TimerHeap.get?_schedule _ _ _ _).trans (if_neg hne)
      simp only [retransmit, hget, hs₁]
      split_ifs
      · exact htimer
      rcases hsend : input.sendResult a seq with _ | what
      · exact (ih _ hrest).trans htimer
      · have ha : addr ≠ a := by
          intro ha
          have hraise := (hapart ha).2 seq List.mem_cons_self
          rw [hsend] at hraise
          cases hraise
        exact (timer_failPeer s₁ ha _ q).trans htimer

/-- The visit of a peer leaves the timers of everyone else alone, and of the
peer's packets that are not due. -/
theorem timeoutPeer_timer (cfg : Config) (input : SweepInput)
    (s : SelectiveRepeatTransport) {a : Address} {seqs : List ℕ} {q : ℕ}
    (hapart : addr = a → q ∉ seqs ∧ s.retries.getD a 0 + 1 ≤ cfg.maxRetries ∧
      ∀ p ∈ seqs, input.sendResult a p = none) :
    (timeoutPeer cfg input s a seqs).timer addr q = s.timer addr q := by
  obtain ⟨s₁, ⟨rto, crashed, hs₁⟩, hresult, -⟩ :=
    timeoutPeer_begin cfg input s a seqs
  have htimer : s₁.timer addr q = s.timer addr q := by rw [hs₁]; rfl
  rw [hresult, ← htimer]
  split_ifs with hcrashed hcap
  · rfl
  · exact timer_failPeer s₁ (fun ha => absurd (hapart ha).2.1 (not_le.mpr hcap))
      _ q
  · exact retransmit_timer cfg input seqs s₁
      fun ha => ⟨(hapart ha).1, (hapart ha).2.2⟩

theorem mem_resends (cfg : Config) {input : SweepInput} {seqs : List ℕ}
    (hsend : ∀ p ∈ seqs, input.sendResult addr p = none) {q : ℕ}
    (hq : q ∈ seqs) {raw : Bytes} (s : SelectiveRepeatTransport)
    (hrun : ¬ s.crashed.isSome) (hrto : (s.rto.get? addr).isSome)
    (hget : (sub s.outstanding addr).get? q = some raw) :
    ⟨addr, q, raw, none, none⟩ ∈ resends cfg input addr seqs s := by
  induction seqs generalizing s with
  | nil => cases hq
  | cons seq rest ih =>
      have hfirst := hsend seq List.mem_cons_self
      have hrest := ih fun p hp => hsend p (List.mem_cons_of_mem _ hp)
      rcases hseq : (sub s.outstanding addr).get? seq with _ | packet
      · have hne : q ≠ seq := by
          rintro rfl
          rw [hget] at hseq
          cases hseq
        simp only [resends, hseq]
        exact hrest ((List.mem_cons.mp hq).resolve_left hne) s hrun hrto hget
      · obtain ⟨heap, harm⟩ := armTimer_spec cfg
          { s with
            retransmitted := s.retransmitted.set addr
              (insert seq (s.retransmitted.getD addr ∅))
            retransmissions := s.retransmissions + 1 } hrto seq
          (input.rearmAt addr seq)
        simp only [resends, hseq, harm, hfirst, if_neg hrun]
        rcases List.mem_cons.mp hq with rfl | hmem
        · rw [hget, Option.some.injEq] at hseq
          subst hseq
          exact List.mem_cons_self
        · exact List.mem_cons_of_mem _ (hrest hmem _ hrun hrto hget)

/-- The visit of a peer that is not given up sends its due packets again. -/
theorem mem_peerAttempts (hrun : ¬ s.crashed.isSome)
    (hrto : (s.rto.get? addr).isSome) {input : SweepInput} {seqs : List ℕ}
    (hcap : s.retries.getD addr 0 + 1 ≤ cfg.maxRetries)
    (hsend : ∀ p ∈ seqs, input.sendResult addr p = none) {q : ℕ}
    (hq : q ∈ seqs) {raw : Bytes}
    (hget : (sub s.outstanding addr).get? q = some raw) :
    ⟨addr, q, raw, none, none⟩ ∈ peerAttempts cfg input s addr seqs := by
  obtain ⟨r, hr⟩ := Option.isSome_iff_exists.mp hrto
  by_cases hadaptive : cfg.adaptive
  · simp only [peerAttempts, if_pos hadaptive, hr, if_neg hrun,
      if_neg (not_lt.mpr hcap)]
    exact mem_resends cfg hsend hq _ hrun (by simp) hget
  · simp only [peerAttempts, if_neg hadaptive, if_neg hrun,
      if_neg (not_lt.mpr hcap)]
    exact mem_resends cfg hsend hq _ hrun hrto hget

/-- A due packet in flight is in the group of its peer. -/
theorem due_group (hfaithful : s.timerHeap.Faithful) {now d : ℚ}
    {groups : Dict Address (List ℕ)}
    (hgroups : groupDue s (s.timerHeap.popDue now).1 ∅ = groups) {q : ℕ}
    (hout : q ∈ (sub s.outstanding addr).keys)
    (htimer : s.timer addr q = some d) (hdue : d ≤ now) :
    ∃ seqs, groups.get? addr = some seqs ∧ q ∈ seqs := by
  have hpops := TimerHeap.popDueLoop_spec now hfaithful.ascending
    hfaithful.covers
  have hmem := (hpops.answers.2.1 (addr, q)).mpr ⟨d, htimer, hdue⟩
  have hgroup := mem_groupDue s hout (s.timerHeap.popDue now).1 ∅ (Or.inl hmem)
  rw [hgroups] at hgroup
  rcases hseqs : groups.get? addr with _ | seqs
  · simp [Dict.getD, hseqs] at hgroup
  · simp only [Dict.getD, hseqs, Option.getD_some] at hgroup
    exact ⟨seqs, rfl, hgroup⟩

/-- The timer of a packet that is not due stays in the heap. -/
theorem popDue_timer (hfaithful : s.timerHeap.Faithful) {now d : ℚ} {q : ℕ}
    (htimer : s.timer addr q = some d) (hlt : now < d) :
    (s.timerHeap.popDue now).2.keyToDeadline.get? (addr, q) = some d := by
  have hpops := TimerHeap.popDueLoop_spec now hfaithful.ascending
    hfaithful.covers
  have hleft := congrFun hpops.live (addr, q)
  have hd : s.timerHeap.keyToDeadline.get? (addr, q) = some d := htimer
  simp only [Deadlines.call, hd, Option.filter_some, hlt, decide_true,
    if_true] at hleft
  exact hleft

/-- A sweep either has nothing due for a peer or does for it, for the timers of
its packets and for what is sent to it, what one visit does. -/
theorem handleTimeouts_visit (hwf : s.WellFormed) (hrun : ¬ s.crashed.isSome)
    (input : SweepInput) {groups : Dict Address (List ℕ)}
    (hgroups : groupDue s (s.timerHeap.popDue input.now).1 ∅ = groups) (q : ℕ) :
    (groups.get? addr = none ∧ (handleTimeouts cfg s input).timer addr q =
      (s.timerHeap.popDue input.now).2.keyToDeadline.get? (addr, q)) ∨
    ∃ seqs, groups.get? addr = some seqs ∧ ∃ s' : SelectiveRepeatTransport,
      ¬ s'.crashed.isSome ∧ (s'.lane addr).estimator = true ∧
      view addr s' = view addr s ∧
      s'.timer addr q =
        (s.timerHeap.popDue input.now).2.keyToDeadline.get? (addr, q) ∧
      (handleTimeouts cfg s input).timer addr q =
        (timeoutPeer cfg input s' addr seqs).timer addr q ∧
      ∀ a ∈ peerAttempts cfg input s' addr seqs,
        a ∈ sweepAttempts cfg s input := by
  have hrto : ∀ x ∈ groups.entries, (s.lane x.1).estimator = true :=
    fun x hx => due_estimator hwf hrun hgroups hx
  have hsweep := foldl_view
    (sweepStep (visit cfg input) (visitAttempts cfg input)) Prod.fst
    (fun p : SelectiveRepeatTransport × List Attempt =>
      (view addr p.1, p.1.timer addr q, Attempt.toPeer addr p.2))
    (fun p => ¬ p.1.crashed.isSome ∧
      ∀ y ∈ groups.entries, (p.1.lane y.1).estimator = true) addr
    (fun p x hx hp => by
      simp only [sweepStep, visit, if_neg hp.1]
      exact timeoutPeer_keeps hp.1 hp.2 input hx)
    (fun p x hx hp hne => by
      have hvisited := visit_visited cfg input p.1 x
      have hview : view addr (visit cfg input p.1 x) = view addr p.1 := by
        rw [visit, if_neg hp.1]
        exact (timeoutPeer_spec cfg hp.1 input (hp.2 x hx) x.2).1 addr
          (Ne.symm hne)
      have hkept : (visit cfg input p.1 x).timer addr q = p.1.timer addr q := by
        rw [visit, if_neg hp.1]
        exact timeoutPeer_timer cfg input p.1 fun ha => absurd ha.symm hne
      rw [sweepStep, Attempt.toPeer_append, hview, hkept,
        Attempt.toPeer_eq_nil (Ne.symm hne)
          fun a ha => (hvisited.attempts a ha).1, List.append_nil])
    groups.nodupKeys
    ({ s with timerHeap := (s.timerHeap.popDue input.now).2 }, [])
    ⟨hrun, hrto⟩
  rw [handleTimeouts_eq_fst, sweepAttempts, hgroups]
  rcases hsweep with ⟨hnot, hsame⟩ | ⟨x, hx, rfl, p, hp, hview, hfinal⟩
  · left
    obtain ⟨-, hkept⟩ := Prod.mk.inj hsame
    refine ⟨?_, (Prod.mk.inj hkept).1⟩
    by_contra hsome
    obtain ⟨seqs, hseqs⟩ := Option.ne_none_iff_exists'.mp hsome
    exact hnot (List.mem_map.mpr ⟨_, Dict.mem_entries.mpr hseqs, rfl⟩)
  · right
    obtain ⟨hself, hrest⟩ := Prod.mk.inj hview
    obtain ⟨htimer, -⟩ := Prod.mk.inj hrest
    obtain ⟨-, hrest⟩ := Prod.mk.inj hfinal
    obtain ⟨hfinal, hcalls⟩ := Prod.mk.inj hrest
    refine ⟨x.2, Dict.mem_entries.mp hx, p.1, hp.1, hp.2 x hx, hself, htimer,
      ?_, fun a ha => ?_⟩
    · rw [hfinal, sweepStep, visit, if_neg hp.1]
    · have hpeer := (visit_visited cfg input p.1 x).attempts
      rw [visitAttempts, if_neg hp.1] at hpeer
      have hnew : a ∈ Attempt.toPeer x.1
          (sweepStep (visit cfg input) (visitAttempts cfg input) p x).2 := by
        rw [sweepStep, Attempt.toPeer_append, visitAttempts, if_neg hp.1,
          Attempt.toPeer_eq_self fun a ha => (hpeer a ha).1]
        exact List.mem_append_right _ ha
      rw [← hcalls] at hnew
      exact List.mem_of_mem_filter hnew

/-- A sweep that does not give the peer up sends a packet in flight again, or
its deadline is ahead and its timer runs on. -/
theorem sweep_sends (hwf : s.WellFormed) (hrun : ¬ s.crashed.isSome)
    (hfaithful : s.timerHeap.Faithful) {input : SweepInput}
    (hfails : ¬ PeerFails cfg s addr input) {q : ℕ} {raw : Bytes} {d : ℚ}
    (hget : (sub s.outstanding addr).get? q = some raw)
    (htimer : s.timer addr q = some d) :
    (s.lane addr).Sends ((handleTimeouts cfg s input).lane addr) raw ∨
      input.now < d ∧ (handleTimeouts cfg s input).timer addr q = some d := by
  obtain ⟨groups, hgroups⟩ : ∃ groups,
      groupDue s (s.timerHeap.popDue input.now).1 ∅ = groups := ⟨_, rfl⟩
  have hdue := due_group hfaithful hgroups (Dict.mem_keys.mpr ⟨raw, hget⟩) htimer
  rcases handleTimeouts_visit hwf hrun input hgroups q with
    ⟨hnone, hkept⟩ | ⟨seqs, hseqs, s', hrun', hrto, hview, htimer', hfinal, hcalls⟩
  · have hlt : input.now < d := by
      by_contra hle
      obtain ⟨seqs, hseqs, -⟩ := hdue (not_lt.mp hle)
      rw [hnone] at hseqs
      cases hseqs
    exact Or.inr ⟨hlt, hkept.trans (popDue_timer hfaithful htimer hlt)⟩
  have hretries : s'.retries.getD addr 0 = s.retries.getD addr 0 :=
    congrArg (fun v : Lane × ℕ => v.2) hview
  have hout : sub s'.outstanding addr = sub s.outstanding addr :=
    congrArg (fun v : Lane × ℕ => v.1.outstanding) hview
  have hcap : s'.retries.getD addr 0 + 1 ≤ cfg.maxRetries := by
    rw [hretries]
    exact not_lt.mp fun hcap => hfails ⟨seqs, hgroups ▸ hseqs, Or.inl hcap⟩
  have hsend : ∀ p ∈ seqs, input.sendResult addr p = none := fun p hp =>
    by_contra fun hraise => hfails ⟨seqs, hgroups ▸ hseqs, Or.inr ⟨p, hp, hraise⟩⟩
  by_cases hq : q ∈ seqs
  · left
    have hattempt := hcalls _
      (mem_peerAttempts hrun' hrto hcap hsend hq (hout ▸ hget))
    exact Attempt.sends (handleTimeouts_channel s input) hattempt rfl _ _
  · right
    have hlt : input.now < d := by
      by_contra hle
      obtain ⟨seqs', hseqs', hmem⟩ := hdue (not_lt.mp hle)
      rw [hseqs, Option.some.injEq] at hseqs'
      exact hq (hseqs' ▸ hmem)
    refine ⟨hlt, ?_⟩
    rw [hfinal, timeoutPeer_timer cfg input s' fun _ => ⟨hq, hcap, hsend⟩,
      htimer', popDue_timer hfaithful htimer hlt]

/-! ## What moves the timer of a packet -/

/-- Nothing enters the window, and the timer of what stays in it runs on. -/
def Runs (addr : Address) (q : ℕ) (s s' : SelectiveRepeatTransport) : Prop :=
  q ∈ (sub s'.outstanding addr).keys →
    q ∈ (sub s.outstanding addr).keys ∧ s'.timer addr q = s.timer addr q

theorem runs_of_eq {s s' : SelectiveRepeatTransport} (q : ℕ)
    (hheap : s'.timerHeap = s.timerHeap)
    (hout : s'.outstanding = s.outstanding) : Runs addr q s s' := by
  intro hq
  rw [hout] at hq
  exact ⟨hq, by rw [timer, timer, hheap]⟩

/-- An incoming packet cancels only the timers of what it completes. -/
theorem handleIncoming_runs (cfg : Config) (s : SelectiveRepeatTransport)
    (raw : Bytes) (a : Address) (input : IncomingInput) (q : ℕ) :
    Runs addr q s (handleIncoming cfg s raw a input) := by
  rcases handleIncoming_cases cfg s raw a input with
    ⟨n, -, hack⟩ | ⟨seq, payload, -, hdata⟩ | ⟨-, hsame⟩
  · rw [hack]
    apply handleAck_keeps cfg (R := Runs addr q)
    · exact fun _ hq => ⟨hq, rfl⟩
    · intro s s' s'' h h' hq
      obtain ⟨hq', htimer'⟩ := h' hq
      obtain ⟨hq, htimer⟩ := h hq'
      exact ⟨hq, htimer'.trans htimer⟩
    · intro s acked hq
      simp only [complete, setStatus, sub_modify_eraseAll] at hq
      by_cases ha : addr = a
      · rw [if_pos ha, Dict.mem_keys] at hq
        obtain ⟨x, hx⟩ := hq
        rw [Dict.get?_eraseAll] at hx
        split_ifs at hx with hforget
        refine ⟨Dict.mem_keys.mpr ⟨x, hx⟩, ?_⟩
        refine (TimerHeap.get?_cancel _ _ _).trans (if_neg fun heq => hforget ?_)
        exact List.mem_singleton.mpr (Prod.mk.inj heq).2
      · rw [if_neg ha] at hq
        refine ⟨hq, (TimerHeap.get?_cancel _ _ _).trans (if_neg fun heq => ha ?_)⟩
        exact (Prod.mk.inj heq).1
    · intro s seq acknowledged now
      refine runs_of_eq q rfl ?_
      exact sampleRtt_outstanding s.toCore a seq acknowledged now
    · exact fun s base => runs_of_eq q rfl rfl
  · rw [hdata, handleData_eq]
    refine runs_of_eq q rfl ?_
    exact acknowledge_outstanding _ a _ _ input.sendResult
  · rw [hsame]
    exact runs_of_eq q rfl rfl

/-- The window pump sets the timer of the packet that enters the window. -/
theorem pumpPacket_timer (hwf : s.WellFormed) (hrun : ¬ s.crashed.isSome)
    (a : Address) (input : PumpInput) {q : ℕ}
    (hout : q ∈ (sub s.outstanding addr).keys) :
    (pumpPacket cfg s a input).timer addr q = s.timer addr q := by
  rcases hnext : s.nextToSend cfg a with _ | ⟨seq, item⟩
  · simp only [pumpPacket, hnext]
  rcases hpacket : dataPacket seq item.data with e | packet
  · simp only [pumpPacket, hnext, hpacket]
    rfl
  have hlane : (s.lane a).nextToSend cfg = some (seq, item) := hnext
  have hne : (addr, q) ≠ (a, seq) := by
    intro heq
    obtain ⟨rfl, rfl⟩ := Prod.mk.inj heq
    exact (hwf addr).disjoint.2 q hout (Lane.mem_waiting_of_nextToSend hlane)
  obtain ⟨d, harm⟩ := armTimer_schedule cfg
    { s with
      toCore := (s.popPending a seq).launch a seq item packet input.sentAt }
    (hwf.estimator hrun ((hwf a).ready.base_ne_none hlane)) seq input.timerAt
  have hscheduled : (s.timerHeap.schedule (a, seq) d).keyToDeadline.get?
      (addr, q) = s.timer addr q :=
    (TimerHeap.get?_schedule _ _ _ _).trans (if_neg hne)
  simp only [pumpPacket, hnext, hpacket, harm]
  split_ifs with hcrashed
  · exact absurd hcrashed hrun
  rcases input.sendResult with _ | what
  · exact hscheduled
  · simp only [sendPacket]
    split
    · exact ((TimerHeap.get?_cancel _ _ _).trans (if_neg hne)).trans hscheduled
    · exact hscheduled

/-- With nothing failing, a packet that stays in flight is sent again or its
timer runs on. -/
theorem step_timer (hwf : s.WellFormed) (hrun : s.crashed = none)
    (htimed : Timed s fun _ _ => False) {e : Event}
    (hcalm : ¬ (s.lane addr).Marks cfg (PeerFails cfg s addr) e) {q : ℕ}
    {raw : Bytes} (hget : (sub s.outstanding addr).get? q = some raw)
    (hstays : q ∈ (sub (step cfg s e).outstanding addr).keys) :
    (step cfg s e).timer addr q = s.timer addr q ∨
      (s.lane addr).Sends ((step cfg s e).lane addr) raw := by
  have hrun' : ¬ s.crashed.isSome := by simp [hrun]
  have hout := Dict.mem_keys.mpr ⟨raw, hget⟩
  have happ : ∀ e, (∃ data a, e = .sendto data a) ∨ e = .recvfrom →
      (step cfg s e).timer addr q = s.timer addr q := by
    intro e he
    rw [timer, timer, (step_app cfg s he).1]
  cases e with
  | sendto data a => exact Or.inl (happ _ (Or.inl ⟨data, a, rfl⟩))
  | recvfrom => exact Or.inl (happ _ (Or.inr rfl))
  | close => exact absurd trivial hcalm
  | drain =>
      left
      simp only [step, if_neg hrun', drainItem]
      rcases s.outbound with _ | ⟨item, rest⟩
      · rfl
      · rcases newEstimator cfg with _ | r <;> rfl
  | pump a input =>
      left
      simp only [step, if_neg hrun']
      exact pumpPacket_timer hwf hrun' a input hout
  | timeouts input =>
      have hlive := (htimed.live addr q hout).resolve_left not_false
      obtain ⟨d, hd⟩ := Option.ne_none_iff_exists'.mp hlive
      simp only [step, if_neg hrun']
      rcases sweep_sends hwf hrun' htimed.faithful hcalm hget hd with
        hsends | ⟨-, hsame⟩
      · exact Or.inr hsends
      · exact Or.inl (hsame.trans (Eq.symm hd))
  | incoming raw a input =>
      left
      simp only [step, if_neg hrun'] at hstays ⊢
      exact (handleIncoming_runs cfg s raw a input q hstays).2

/-! ## The queues -/

theorem armTimer_queues (s : SelectiveRepeatTransport) (addr : Address)
    (seq : ℕ) (now : ℚ) : s.LeavesQueues (armTimer cfg s addr seq now).toCore := by
  unfold armTimer
  split <;> exact .of_eq rfl rfl

theorem retransmit_queues (input : SweepInput) (addr : Address)
    (seqs : List ℕ) (s : SelectiveRepeatTransport) :
    s.LeavesQueues (retransmit cfg input addr seqs s).toCore := by
  induction seqs generalizing s with
  | nil => exact .refl _
  | cons seq rest ih =>
      simp only [retransmit]
      rcases (sub s.outstanding addr).get? seq with _ | packet
      · exact ih s
      dsimp only
      have harmed : s.LeavesQueues (armTimer cfg
          { s with
            retransmitted := s.retransmitted.set addr
              (insert seq (s.retransmitted.getD addr ∅))
            retransmissions := s.retransmissions + 1 }
          addr seq (input.rearmAt addr seq)).toCore :=
        (armTimer_queues _ _ _ _).after rfl rfl
      split_ifs
      · exact harmed
      rcases input.sendResult addr seq with _ | what
      · exact harmed.trans ((ih _).after rfl rfl)
      · exact harmed.trans (.of_eq rfl rfl)

theorem handleTimeouts_queues (s : SelectiveRepeatTransport)
    (input : SweepInput) :
    s.LeavesQueues (handleTimeouts cfg s input).toCore := by
  refine List.foldlRecOn _ _
    (motive := fun s' : SelectiveRepeatTransport => s.LeavesQueues s'.toCore)
    (.of_eq rfl rfl) fun s' hs' group _ => ?_
  split_ifs
  · exact hs'
  obtain ⟨s₁, ⟨rto, crashed, hs₁⟩, hresult, -⟩ :=
    timeoutPeer_begin cfg input s' group.1 group.2
  have hbegun : s.LeavesQueues s₁.toCore := by
    rw [hs₁]
    exact hs'.trans (.of_eq rfl rfl)
  rw [hresult]
  split_ifs
  · exact hbegun
  · exact hbegun.trans (.of_eq rfl rfl)
  · exact hbegun.trans (retransmit_queues input group.1 group.2 s₁)

theorem drains (cfg : Config) : (endpoint cfg).Drains :=
  (handled cfg).drains handleTimeouts_queues (handlesAcks cfg).leavesQueues

theorem givesUpOutstanding (cfg : Config) :
    (endpoint cfg).GivesUpOutstanding := by
  rintro s a input ⟨seqs, hget, -⟩
  obtain ⟨seq, -, hout⟩ := groupDue_outstanding s _ ∅
    (fun _ _ hnone => by cases hnone) a seqs hget
  exact List.ne_nil_of_mem hout

/-! ## The two ends -/

/-- An acknowledgement of a packet in flight completes it. -/
theorem ack_completes (hwf : s.WellFormed) (hrun : s.crashed = none)
    {raw : Bytes} {q : ℕ} (hraw : IsAck raw (q + 1))
    (hout : q ∈ (s.lane addr).outstanding.keys) (input : IncomingInput) :
    q ∉ ((step cfg s (.incoming raw addr input)).lane
      addr).outstanding.keys := by
  have hrun' : ¬ s.crashed.isSome := by simp [hrun]
  obtain ⟨base, hslide⟩ := slide_of_outstanding (hwf addr) hout
  have hlane := handleIncoming_ack cfg hwf hrun' hraw addr input addr
  rw [hslide] at hlane
  simp only [if_pos] at hlane
  rw [step, if_neg hrun', hlane]
  intro hq
  obtain ⟨x, hx⟩ := Dict.mem_keys.mp hq
  simp [Lane.slideTo, Lane.complete] at hx

/-- Every datagram is answered. -/
theorem incoming_sends (hrun : s.crashed = none) {raw payload packet : Bytes}
    {q : ℕ} (hraw : IsData raw q payload)
    (hpacket : ackPacket
      (receive cfg.windowSize (s.lane addr) q payload).ackFor = .ok packet)
    {input : IncomingInput} (hsend : input.sendResult = none) :
    (s.lane addr).Sends ((step cfg s (.incoming raw addr input)).lane addr)
      packet := by
  have hdata : handleIncoming cfg s raw addr input = _ :=
    (handleIncoming_data hraw addr input).trans
      (handleData_eq cfg s q payload addr input)
  rw [step, if_neg (by simp [hrun]), hdata, hsend]
  change (s.lane addr).Sends (Core.lane (acknowledge _ addr _ _ none) _ addr) _
  apply acknowledge_sends hpacket
  rfl

section

variable (cfgT cfgR : Config) (txAddr rxAddr : Address)

theorem answering : Link.Answering (endpoint cfgT) (endpoint cfgR) txAddr where
  covered := by
    intro handed l q payload hreassembles hall
    have hle := hreassembles.le_expected hall
    have hpos := cfgR.windowPos
    have hin : (l.expected ≤ q ∧ q < l.expected + cfgR.windowSize) ∨
        q < l.expected := by omega
    exact if_pos hin
  replies := fun _ _ _ _ _ _ _ hrun hraw hsend hpacket =>
    incoming_sends hrun hraw hpacket hsend

/-- Each packet in flight has its own timer, which no step but a retransmission
moves. -/
def prompt : Link.Prompt (endpoint cfgT) (endpoint cfgR) txAddr rxAddr where
  Inv n := Timed n.tx fun _ _ => False
  epoch _ := 0
  deadline s q := s.timer rxAddr q
  init := ⟨TimerHeap.faithful_empty, fun a q hq => by cases hq⟩
  step _ _ hsound hhealthy h hcalm :=
    hcalm.keeps (P := fun s => Timed s fun _ _ => False) hhealthy.alive h
      fun e _ _ _ => h.step hsound.tx e
  epoch_step _ _ _ := le_rfl
  epoch_le _ _ q _ := Nat.zero_le q
  armed n h q hq := (h.live rxAddr q hq).resolve_left not_false
  kept n e q raw hwf h hhealthy hmarks hget hq _ :=
    step_timer hwf hhealthy.alive.tx h hmarks hget hq
  due := by
    intro n input q raw d hwf h hrun hfails hget hd hdue
    have hrun' : ¬ n.tx.crashed.isSome := by
      simp [show n.tx.crashed = none from hrun]
    have hsweep : (endpoint cfgT).step n.tx (.timeouts input) =
        handleTimeouts cfgT n.tx input := if_neg hrun'
    rw [hsweep]
    apply (sweep_sends hwf hrun' h.faithful hfails hget hd).resolve_right
    exact fun hlater => absurd hdue (not_le.mpr hlater.1)
  completes n raw k input hwf h hrun hraw hle q hq hcovers :=
    ack_completes hwf hrun (hcovers ▸ hraw) hq input
  drain := (drains cfgT).outbound
  queue _ _ hdrain hclose :=
    (handled cfgT).outbound_grows (drains cfgT) hdrain hclose

end

end SelectiveRepeatTransport

end UdpArq
