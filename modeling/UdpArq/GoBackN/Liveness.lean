import UdpArq.GoBackN.Agreement
import UdpArq.GoBackN.Metered
import UdpArq.GoBackN.Timer
import UdpArq.Transport.Liveness

/-!
# Delivery by Go-Back-N

The timer of a peer moves when an acknowledgement moves the base, and when it
fires and the whole window is sent again.  The base never passes a packet in
flight, so that the first packet in flight is sent again and again until it is
acknowledged.  The receiver answers every datagram with the number it expects
next, which is beyond everything it has.
-/

namespace UdpArq

namespace GoBackNTransport

open Filter UdpArq.Core

variable {cfg : Config} {s : GoBackNTransport} {addr : Address}

/-! ## What a sweep sends again -/

/-- What a sweep makes of one peer, and what it sends to it, is what one visit
does in a state that agrees on the peer. -/
theorem handleTimeouts_visit (cfg : Config) (hwf : s.WellFormed) (hrun : ¬ s.crashed.isSome)
    (input : SweepInput) {deadline : ℚ}
    (htimer : s.timerDeadline.getD addr none = some deadline) :
    ∃ s' : GoBackNTransport, view addr s' = view addr s ∧
      view addr (handleTimeouts cfg s input) =
        view addr (timeoutPeer cfg input s' addr) ∧
      ∀ a ∈ peerAttempts cfg input s' addr, a ∈ sweepAttempts cfg s input := by
  have hsweep := foldl_view
    (sweepStep (visit cfg input) (visitAttempts cfg input)) id
    (fun p => (view addr p.1, Attempt.toPeer addr p.2))
    (fun p => p.1.WellFormed ∧ ¬ p.1.crashed.isSome) addr
    (fun p b _ hp => by
      simp only [sweepStep, visit, if_neg hp.2]
      exact timeoutPeer_wellFormed hp.1 hp.2 input b)
    (fun p b _ hp hb => by
      have hvisited := visit_visited cfg input p.1 b
      have hview : view addr (visit cfg input p.1 b) = view addr p.1 := by
        rw [visit, if_neg hp.2]
        exact (timeoutPeer_spec hp.1 hp.2 input b).1 addr (Ne.symm hb)
      rw [sweepStep, Attempt.toPeer_append, hview,
        Attempt.toPeer_eq_nil (Ne.symm hb)
          fun a ha => (hvisited.attempts a ha).1, List.append_nil])
    (by simpa using s.timerDeadline.nodup_keys) (s, []) ⟨hwf, hrun⟩
  have hmem : addr ∈ s.timerDeadline.keys.map id := by
    rw [List.map_id, Dict.mem_keys]
    unfold Dict.getD at htimer
    rcases hget : s.timerDeadline.get? addr with _ | x
    · simp [hget] at htimer
    · exact ⟨x, rfl⟩
  rw [handleTimeouts_eq_fst]
  rcases hsweep with ⟨hnot, -⟩ | ⟨x, -, hx, p, hp, hview, hfinal⟩
  · exact absurd hmem hnot
  · obtain rfl : x = addr := hx
    obtain ⟨hview, -⟩ := Prod.mk.inj hview
    obtain ⟨hfinal, hcalls⟩ := Prod.mk.inj hfinal
    refine ⟨p.1, hview, ?_, fun a ha => ?_⟩
    · rw [hfinal, sweepStep, visit, if_neg hp.2]
    · have hself := (visit_visited cfg input p.1 x).attempts
      rw [visitAttempts, if_neg hp.2] at hself
      have hnew : a ∈ Attempt.toPeer x
          (sweepStep (visit cfg input) (visitAttempts cfg input) p x).2 := by
        rw [sweepStep, Attempt.toPeer_append, visitAttempts, if_neg hp.2,
          Attempt.toPeer_eq_self fun a ha => (hself a ha).1]
        exact List.mem_append_right _ ha
      rw [← hcalls] at hnew
      exact List.mem_of_mem_filter hnew

theorem mem_resends {input : SweepInput} (outstanding : Dict ℕ Bytes)
    {seqs : List ℕ} (hsend : ∀ q ∈ seqs, input.sendResult addr q = none) {q : ℕ}
    (hq : q ∈ seqs) : ⟨addr, q, outstanding.getD q [], none, none⟩ ∈
      resends input addr outstanding seqs := by
  induction seqs with
  | nil => cases hq
  | cons seq rest ih =>
      have hfirst := hsend seq List.mem_cons_self
      simp only [resends, hfirst]
      rcases List.mem_cons.mp hq with rfl | hrest
      · exact List.mem_cons_self
      · exact List.mem_cons_of_mem _
          (ih (fun q hq => hsend q (List.mem_cons_of_mem _ hq)) hrest)

/-- A sweep after the deadline that does not give the peer up sends everything
in flight again. -/
theorem due_sends (hwf : s.WellFormed) (hrun : ¬ s.crashed.isSome)
    {input : SweepInput} (hfails : ¬ PeerFails cfg s addr input)
    {deadline : ℚ} (htimer : s.timerDeadline.getD addr none = some deadline)
    (hdue : deadline ≤ input.now) {q : ℕ} {raw : Bytes}
    (hget : (sub s.outstanding addr).get? q = some raw) :
    (s.lane addr).Sends ((handleTimeouts cfg s input).lane addr) raw := by
  have hq : q ∈ (sub s.outstanding addr).keys := Dict.mem_keys.mpr ⟨raw, hget⟩
  have hne : (sub s.outstanding addr).keys ≠ [] := List.ne_nil_of_mem hq
  have hkept : ¬ (s.retries.getD addr 0 + 1 > cfg.maxRetries) ∧
      ∀ q ∈ (sub s.outstanding addr).keys, input.sendResult addr q = none := by
    constructor
    · exact fun hcap => hfails ⟨⟨deadline, htimer, hdue⟩, hne, Or.inl hcap⟩
    · intro q hq
      by_contra hraise
      exact hfails ⟨⟨deadline, htimer, hdue⟩, hne, Or.inr ⟨q, hq, hraise⟩⟩
  obtain ⟨s', hview, -, hcalls⟩ :=
    handleTimeouts_visit cfg hwf hrun input htimer
  simp only [view, Prod.mk.injEq] at hview
  obtain ⟨hlane, htimer', hretries⟩ := hview
  have hout : sub s'.outstanding addr = sub s.outstanding addr :=
    congrArg Lane.outstanding hlane
  have hmem := mem_resends (sub s.outstanding addr)
    (fun q hq => hkept.2 q ((List.mem_insertionSort (· ≤ ·)).mp hq))
    ((List.mem_insertionSort (· ≤ ·)).mpr hq)
  have hattempt : (⟨addr, q, raw, none, none⟩ : Attempt) ∈
      sweepAttempts cfg s input := by
    apply hcalls
    rw [htimer] at htimer'
    simp only [peerAttempts, htimer', if_neg (not_lt.mpr hdue), hout, if_neg hne,
      hretries, if_neg hkept.1]
    simpa [Dict.getD, hget] using hmem
  exact Attempt.sends (handleTimeouts_channel s input) hattempt rfl ∅ ∅

/-! ## What moves the timer -/

/-- What one event makes of the timer of a peer, as long as nothing fails. -/
inductive Ticks (addr : Address) (s s' : GoBackNTransport) : Prop
  | same (harmed : s.timerDeadline.getD addr none ≠ none)
      (htimer : s'.timerDeadline.getD addr none =
        s.timerDeadline.getD addr none)
  | emptied (hnil : (sub s'.outstanding addr).keys = [])
  | started (hnil : (sub s.outstanding addr).keys = [])
      (harmed : s'.timerDeadline.getD addr none ≠ none)
  | moved (hbase : s.base.getD addr 0 < s'.base.getD addr 0)
      (harmed : s'.timerDeadline.getD addr none ≠ none)
  | resent (harmed : s'.timerDeadline.getD addr none ≠ none)
      (hsends : ∀ q raw, (sub s.outstanding addr).get? q = some raw →
        (s.lane addr).Sends (s'.lane addr) raw)

/-- The peer has a running timer while packets are in flight. -/
def Armed (s : GoBackNTransport) (addr : Address) : Prop :=
  (sub s.outstanding addr).keys ≠ [] → s.timerDeadline.getD addr none ≠ none

theorem Ticks.armed {s' : GoBackNTransport} (h : Ticks addr s s') :
    Armed s' addr := by
  intro hne
  cases h with
  | same harmed htimer => rwa [htimer]
  | emptied hnil => exact absurd hnil hne
  | started _ harmed => exact harmed
  | moved _ harmed => exact harmed
  | resent harmed => exact harmed

/-- A step that neither moves the timer nor fills an empty window. -/
theorem Armed.still {s' : GoBackNTransport} (h : Armed s addr)
    (htimer : s'.timerDeadline.getD addr none =
      s.timerDeadline.getD addr none)
    (hnil : (sub s.outstanding addr).keys = [] →
      (sub s'.outstanding addr).keys = []) : Ticks addr s s' := by
  by_cases hempty : (sub s.outstanding addr).keys = []
  · exact .emptied (hnil hempty)
  · exact .same (h hempty) htimer

/-- One packet of the window pump. -/
theorem Armed.pump (h : Armed s addr) (hwf : s.WellFormed)
    (hrun : ¬ s.crashed.isSome)
    (hfirst : ∀ seq item, s.nextToSend cfg addr = some (seq, item) →
      (sub s.outstanding addr).keys = [] → s.base.get? addr = some seq)
    (a : Address) (input : PumpInput) :
    Ticks addr s (pumpPacket cfg s a input) := by
  rcases hnext : s.nextToSend cfg a with _ | ⟨seq, item⟩
  · have hsame : pumpPacket cfg s a input = s := by
      simp only [pumpPacket, hnext]
    rw [hsame]
    exact h.still rfl id
  rcases hpacket : dataPacket seq item.data with e | packet
  · have hdead : pumpPacket cfg s a input =
        { s with toCore := (s.popPending a seq).crash (.packet e) } := by
      simp only [pumpPacket, hnext, hpacket]
    rw [hdead]
    exact h.still rfl id
  obtain ⟨-, htimers⟩ := pumpPacket_spec hwf hrun hnext hpacket input
  obtain ⟨at_, htimer | ⟨-, hempty⟩⟩ := htimers addr
  · by_cases ha : addr = a
    · subst ha
      by_cases hstart : (sub s.outstanding addr).keys = [] ∧
          s.timerDeadline.getD addr none = none
      · rw [if_pos ⟨rfl, hfirst seq item hnext hstart.1, hstart.2⟩] at htimer
        refine .started hstart.1 ?_
        rw [htimer]
        exact Option.some_ne_none at_
      · have harmed : s.timerDeadline.getD addr none ≠ none := fun hnone =>
          hstart ⟨by_contra fun hne => h hne hnone, hnone⟩
        rw [if_neg fun hbad => harmed hbad.2.2] at htimer
        exact .same harmed htimer
    · rw [if_neg fun hbad => ha hbad.1] at htimer
      have hstep : Lane.Step cfg discipline (fun _ => False) _ _ _ :=
        pumpPacket_step hwf hrun a input addr
      exact h.still htimer (hstep.outstanding_eq_nil
        fun _ heq => ha (Event.pump.inj heq).1.symm)
  · exact .emptied hempty

/-- A sweep that does not give the peer up. -/
theorem Armed.timeouts (h : Armed s addr) (hwf : s.WellFormed)
    (hrun : ¬ s.crashed.isSome) {input : SweepInput}
    (hfails : ¬ PeerFails cfg s addr input) :
    Ticks addr s (handleTimeouts cfg s input) := by
  by_cases hempty : (sub s.outstanding addr).keys = []
  · have hstep : Lane.Step cfg discipline _ _ _ _ :=
      (handleTimeouts_swept hwf hrun input addr).step
    exact .emptied (hstep.outstanding_eq_nil (fun _ heq => by cases heq) hempty)
  obtain ⟨deadline, htimer⟩ := Option.ne_none_iff_exists'.mp (h hempty)
  by_cases hdue : input.now < deadline
  · obtain ⟨s', hview, hfinal, -⟩ :=
      handleTimeouts_visit cfg hwf hrun input htimer
    have htimer' : s'.timerDeadline.getD addr none = some deadline :=
      (congrArg (fun v : Lane × Option ℚ × ℕ => v.2.1) hview).trans htimer
    have hidle : timeoutPeer cfg input s' addr = s' := by
      simp only [timeoutPeer, htimer', if_pos hdue]
    rw [hidle, hview] at hfinal
    exact .same (h hempty)
      (congrArg (fun v : Lane × Option ℚ × ℕ => v.2.1) hfinal)
  · have hsends : ∀ q raw, (sub s.outstanding addr).get? q = some raw →
        (s.lane addr).Sends ((handleTimeouts cfg s input).lane addr) raw :=
      fun q raw hget =>
        due_sends hwf hrun hfails htimer (not_lt.mp hdue) hget
    have hswept : Swept cfg input addr s (handleTimeouts cfg s input) :=
      handleTimeouts_swept hwf hrun input addr
    cases hswept with
    | idle _ hkept =>
        refine .resent ?_ hsends
        rw [hkept.resolve_right hempty]
        exact h hempty
    | resent _ _ _ harmed => exact .resent harmed hsends
    | failed _ _ _ _ hfailed => exact absurd hfailed hfails

/-- An incoming packet. -/
theorem Armed.incoming (h : Armed s addr) (hwf : s.WellFormed)
    (hrun : ¬ s.crashed.isSome) (raw : Bytes) (a : Address)
    (input : IncomingInput) :
    Ticks addr s (handleIncoming cfg s raw a input) := by
  have hstep : Lane.Step cfg discipline (fun _ => False) _ _ _ :=
    handleIncoming_step hwf hrun raw a input addr
  have hnil := hstep.outstanding_eq_nil fun _ heq => by cases heq
  rcases handleIncoming_cases cfg s raw a input with
    ⟨n, hraw, -⟩ | ⟨seq, payload, expected, -, -, hdata⟩ | ⟨-, hdropped⟩
  · have hspec := handleIncoming_ack cfg hwf hrun hraw a input
    rcases hslide : slide (s.lane a) n with _ | ⟨seqs, base⟩
    · rw [hslide] at hspec
      exact h.still (by rw [hspec]) hnil
    rw [hslide] at hspec
    obtain ⟨hlane, at_, htimer⟩ := hspec
    by_cases ha : addr = a
    · subst ha
      have hlane' := hlane addr
      rw [if_pos rfl] at hlane'
      by_cases hlt : n < (s.lane addr).nextSeq
      · obtain ⟨rfl, -, -, old, hold, hmoves⟩ := slide_eq_some hslide
        refine .moved ?_ ?_
        · have hbase' : (handleIncoming cfg s raw addr input).base.get? addr =
              some base := congrArg Lane.base hlane'
          have hbase : s.base.get? addr = some old := hold
          simpa [Dict.getD, hbase, hbase'] using hmoves
        · rw [htimer, Dict.getD, Dict.get?_set, if_pos rfl, if_pos hlt]
          exact Option.some_ne_none at_
      · refine .emptied ((congrArg (fun l => l.outstanding.keys) hlane').trans ?_)
        exact slide_outstanding_eq_nil (hwf addr) hslide (not_lt.mp hlt)
    · apply h.still _ hnil
      rw [htimer, Dict.getD, Dict.get?_set, if_neg ha]
      rfl
  · exact h.still (by rw [hdata]) hnil
  · exact h.still (by rw [hdropped]) hnil

/-- Every event that marks nothing of the peer failed. -/
theorem Armed.step (h : Armed s addr) (hwf : s.WellFormed)
    (hrun : s.crashed = none)
    (hfirst : ∀ seq item, s.nextToSend cfg addr = some (seq, item) →
      (sub s.outstanding addr).keys = [] → s.base.get? addr = some seq)
    {e : Event}
    (hcalm : ¬ (s.lane addr).Marks cfg (PeerFails cfg s addr) e) :
    Ticks addr s (GoBackNTransport.step cfg s e) := by
  have hrun' : ¬ s.crashed.isSome := by simp [hrun]
  have hquiet : (∀ a input, e ≠ .pump a input) →
      (GoBackNTransport.step cfg s e).timerDeadline.getD addr none =
        s.timerDeadline.getD addr none →
        Ticks addr s (GoBackNTransport.step cfg s e) :=
    fun hpump htimer => h.still htimer
      (step_outstanding_eq_nil hwf fun input => hpump addr input)
  cases e with
  | sendto data a =>
      apply hquiet (by simp)
      simp only [GoBackNTransport.step]
      split <;> rfl
  | recvfrom =>
      apply hquiet (by simp)
      simp only [GoBackNTransport.step]
      split <;> rfl
  | close => exact absurd trivial hcalm
  | drain =>
      apply hquiet (by simp)
      rw [GoBackNTransport.step, if_neg hrun']
      exact drainItem_timer s addr
  | pump a input =>
      rw [GoBackNTransport.step, if_neg hrun']
      exact h.pump hwf hrun' hfirst a input
  | timeouts input =>
      rw [GoBackNTransport.step, if_neg hrun']
      exact h.timeouts hwf hrun' hcalm
  | incoming raw a input =>
      rw [GoBackNTransport.step, if_neg hrun']
      exact h.incoming hwf hrun' raw a input

/-! ## The queues -/

theorem retransmit_queues (input : SweepInput) (addr : Address)
    (outstanding : Dict ℕ Bytes) (seqs : List ℕ) (s : GoBackNTransport) :
    s.LeavesQueues (retransmit cfg input addr outstanding seqs s).toCore := by
  induction seqs generalizing s with
  | nil => exact .refl _
  | cons seq rest ih =>
      have hmark : s.LeavesQueues (if cfg.adaptive then
          { s with
            retransmitted := s.retransmitted.set addr
              (insert seq (s.retransmitted.getD addr ∅)) }
          else s).toCore := by
        split_ifs
        · exact .of_eq rfl rfl
        · exact .refl _
      simp only [retransmit]
      rcases input.sendResult addr seq with _ | what
      · exact hmark.trans ((ih _).after rfl rfl)
      · exact hmark.trans (.of_eq rfl rfl)

theorem restartTimer_queues (s : GoBackNTransport) (addr : Address) (now : ℚ) :
    s.LeavesQueues (restartTimer cfg s addr now).toCore := by
  unfold restartTimer
  dsimp only
  split_ifs
  · exact .of_eq rfl rfl
  · split <;> split <;> exact .of_eq rfl rfl
  · split <;> exact .of_eq rfl rfl

theorem timeoutPeer_queues (input : SweepInput) (s : GoBackNTransport)
    (addr : Address) : s.LeavesQueues (timeoutPeer cfg input s addr).toCore := by
  unfold timeoutPeer
  split
  · exact .refl _
  split_ifs
  · exact .refl _
  dsimp only
  split_ifs
  · exact .of_eq rfl rfl
  · exact .of_eq rfl rfl
  · exact ((retransmit_queues _ _ _ _ _).trans (restartTimer_queues _ _ _)).after
      rfl rfl

theorem handleTimeouts_queues (s : GoBackNTransport) (input : SweepInput) :
    s.LeavesQueues (handleTimeouts cfg s input).toCore := by
  refine List.foldlRecOn s.timerDeadline.keys _
    (motive := fun s' : GoBackNTransport => s.LeavesQueues s'.toCore) (.refl _)
    fun s' hs' a _ => ?_
  split_ifs
  · exact hs'
  · exact hs'.trans (timeoutPeer_queues input s' a)

theorem drains (cfg : Config) : (endpoint cfg).Drains :=
  (handled cfg).drains handleTimeouts_queues (handlesAcks cfg).leavesQueues

theorem givesUpOutstanding (cfg : Config) :
    (endpoint cfg).GivesUpOutstanding := fun _ _ _ hfails => hfails.2.1

/-! ## The two ends -/

/-- With nothing in flight and nothing failed, the base is the next number to be
sent. -/
theorem base_eq_next {l : Lane} {m seq : ℕ} {item : Item}
    (hfrontier : l.Frontier cfg m) (h : l.Healthy cfg) (hwf : l.WellFormed)
    (hnext : l.nextToSend cfg = some (seq, item))
    (hnil : l.outstanding.keys = []) : l.base = some seq := by
  have hwaits := Lane.mem_waiting_of_nextToSend hnext
  have hle : m ≤ seq := hfrontier.waiting seq hwaits
  have hlt := Lane.lt_nextSeq_of_held hwf (Or.inr hwaits)
  -- The frontier itself waits, and the pump takes the first that does.
  have hm : m ∈ l.waiting :=
    (hfrontier.ahead h.alive m le_rfl (hle.trans_lt hlt)).resolve_right
      fun hfailed => hfailed (h.clean m)
  obtain ⟨lo, n, hspan⟩ := hwf.span
  have hseq : seq = lo := (hspan.next hnext).1
  rw [hspan.waiting_eq, List.mem_range'_1] at hm
  obtain rfl : seq = m := by omega
  obtain ⟨base, hbase⟩ :=
    Option.ne_none_iff_exists'.mp (hwf.ready.base_ne_none hnext)
  have hbelow := hfrontier.base_le
  rw [hbase, Option.getD_some] at hbelow
  have hge : ¬ base < seq := by
    intro hlt
    rcases hfrontier.entered base (by simp [hbase]) hlt with hout | hfailed
    · rw [hnil] at hout
      cases hout
    · exact hfailed (h.clean base)
  rw [hbase, Option.some.injEq]
  omega

/-- Every datagram is answered. -/
theorem incoming_sends (hrun : s.crashed = none) {raw payload packet : Bytes}
    {q : ℕ} (hraw : IsData raw q payload)
    (hpacket : ackPacket (receive (s.lane addr) q payload).ackFor = .ok packet)
    {input : IncomingInput} (hsend : input.sendResult = none) :
    (s.lane addr).Sends ((step cfg s (.incoming raw addr input)).lane addr)
      packet := by
  obtain ⟨c, hlane, hcore⟩ :=
    @handleIncoming_data cfg s _ _ _ hraw addr input
  have hself := hlane addr
  rw [if_pos rfl] at hself
  rw [step, if_neg (by simp [hrun])]
  change (s.lane addr).Sends
    ((handleIncoming cfg s raw addr input).toCore.lane ∅ addr) packet
  rw [hcore, hsend]
  apply acknowledge_sends hpacket
  rw [hself]
  rfl

section

variable (cfgT cfgR : Config) (txAddr rxAddr : Address)

theorem answering : Link.Answering (endpoint cfgT) (endpoint cfgR) txAddr where
  covered := by
    intro handed l q payload hreassembles hall
    have hle := hreassembles.le_expected hall
    change q < (receive l q payload).ackFor
    unfold receive
    split_ifs with heq
    · exact Nat.lt_succ_of_le hle
    · exact lt_of_le_of_ne hle heq
  replies := fun _ _ _ _ _ _ _ hrun hraw hsend hpacket =>
    incoming_sends hrun hraw hpacket hsend

/-- The windows of the two ends agree, and the timer of the receiver runs while
packets are in flight. -/
structure Watched (n : Link (endpoint cfgT) (endpoint cfgR)) : Prop where
  agree : ∃ m, Agree cfgT cfgR txAddr rxAddr n m
  armed : Armed n.tx rxAddr

variable {cfgT cfgR txAddr rxAddr} {n : Link (endpoint cfgT) (endpoint cfgR)}

theorem Watched.first (h : Watched cfgT cfgR txAddr rxAddr n)
    (hhealthy : Link.Healthy rxAddr n) (seq : ℕ) (item : Item)
    (hnext : n.tx.nextToSend cfgT rxAddr = some (seq, item))
    (hnil : (sub n.tx.outstanding rxAddr).keys = []) :
    n.tx.base.get? rxAddr = some seq := by
  obtain ⟨m, hagree⟩ := h.agree
  exact base_eq_next hagree.frontier hhealthy.lane (hagree.tx rxAddr) hnext hnil

theorem Watched.step (h : Watched cfgT cfgR txAddr rxAddr n)
    (hhealthy : Link.Healthy rxAddr n) {e : LinkEvent}
    (hcalm : Link.Calm (endpoint cfgT) (endpoint cfgR) txAddr rxAddr n e) :
    Watched cfgT cfgR txAddr rxAddr
      (Link.step (endpoint cfgT) (endpoint cfgR) txAddr rxAddr n e) := by
  obtain ⟨m, hagree⟩ := h.agree
  refine ⟨⟨_, (hagree.watchStep e).1⟩, ?_⟩
  exact hcalm.keeps (P := fun s : GoBackNTransport => Armed s rxAddr)
    hhealthy.alive h.armed fun _ hmarks hrun _ =>
      (h.armed.step hagree.tx hrun (h.first hhealthy) hmarks).armed

theorem ack_completes (hwf : s.WellFormed) (hrun : s.crashed = none)
    {raw : Bytes} {k q : ℕ} (hraw : IsAck raw k)
    (hle : k ≤ (s.lane addr).nextSeq)
    (hout : q ∈ (s.lane addr).outstanding.keys)
    (hbase : (s.lane addr).base.getD 0 ≤ q) (hlt : q < k)
    (input : IncomingInput) :
    q ∉ ((GoBackNTransport.step cfg s (.incoming raw addr input)).lane
      addr).outstanding.keys := by
  have hrun' : ¬ s.crashed.isSome := by simp [hrun]
  rcases hnone : (s.lane addr).base with _ | base
  · rw [((hwf addr).ready.base_none hnone).2] at hout
    cases hout
  rw [hnone, Option.getD_some] at hbase
  have hslide : slide (s.lane addr) k =
      some ((s.lane addr).outstanding.keys.filter fun q => q < k, k) := by
    have hgt : ¬ k ≤ base := by omega
    simp [slide, hnone, hgt, not_lt.mpr hle]
  have hspec := handleIncoming_ack cfg hwf hrun' hraw addr input
  rw [hslide] at hspec
  have hlane := hspec.1 addr
  rw [if_pos rfl] at hlane
  rw [GoBackNTransport.step, if_neg hrun', hlane]
  intro hq
  obtain ⟨x, hx⟩ := Dict.mem_keys.mp hq
  simp [Lane.slideTo, Lane.complete, hout, hlt] at hx

variable (cfgT cfgR txAddr rxAddr) in
/-- The one timer of the peer serves everything in flight, and an epoch ends when
the base moves. -/
def prompt : Link.Prompt (endpoint cfgT) (endpoint cfgR) txAddr rxAddr where
  Inv := Watched cfgT cfgR txAddr rxAddr
  epoch s := ((endpoint cfgT).lane s rxAddr).base.getD 0
  deadline s _ := s.timerDeadline.getD rxAddr none
  init := ⟨⟨0, agree_init⟩, fun hne => absurd rfl hne⟩
  step _ _ _ hhealthy h hcalm := h.step hhealthy hcalm
  epoch_step s e hwf := (hwf.lane_step e rxAddr).base_le
  epoch_le n h q hq := by
    obtain ⟨m, hagree⟩ := h.agree
    exact (hagree.frontier.outstanding q hq).1
  armed n h q hq := h.armed (List.ne_nil_of_mem hq)
  kept := by
    intro n e q raw _ h hhealthy hmarks hget hq hepoch
    obtain ⟨m, hagree⟩ := h.agree
    cases h.armed.step hagree.tx hhealthy.alive.tx (h.first hhealthy) hmarks with
    | same _ htimer => exact Or.inl htimer
    | emptied hnil => exact absurd hnil (List.ne_nil_of_mem hq)
    | started hnil =>
        exact absurd hnil (List.ne_nil_of_mem (Dict.mem_keys.mpr ⟨raw, hget⟩))
    | moved hbase => exact absurd hepoch hbase.ne'
    | resent _ hsends => exact Or.inr (hsends q raw hget)
  due := by
    intro n input q raw d hwf _ hrun hfails hget hd hdue
    have hrun' : ¬ n.tx.crashed.isSome := by
      simp [show n.tx.crashed = none from hrun]
    have hsweep : (endpoint cfgT).step n.tx (.timeouts input) =
        handleTimeouts cfgT n.tx input := if_neg hrun'
    rw [hsweep]
    exact due_sends hwf hrun' hfails hd hdue hget
  completes := by
    intro n raw k input hwf h hrun hraw hle q hq hcovers
    obtain ⟨m, hagree⟩ := h.agree
    exact ack_completes hwf hrun hraw hle hq
      (hagree.frontier.outstanding q hq).1 hcovers input
  drain := (drains cfgT).outbound
  queue _ _ hdrain hclose :=
    (handled cfgT).outbound_grows (drains cfgT) hdrain hclose

end

end GoBackNTransport

end UdpArq
