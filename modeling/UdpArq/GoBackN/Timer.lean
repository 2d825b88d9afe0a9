import UdpArq.GoBackN.Refinement

/-!
# The retransmission timer of Go-Back-N

A peer with packets outstanding needs a running timer.  `_pump_windows` starts
the timer when the packet that enters the window is the base, which is meant to
be the first packet of an empty window.  After a failure the first packet of an
empty window need not be the base, and then it is sent without a timer.
-/

namespace UdpArq

/-- Only the window pump puts a packet into an empty window. -/
theorem Lane.Step.outstanding_eq_nil {cfg : Config} {D : Discipline}
    {fails : SweepInput → Prop} {l l' : Lane} {e : Event}
    (h : Lane.Step cfg D fails l e l') (hpump : ∀ input, e ≠ .pump l.peer input)
    (hnil : l.outstanding.keys = []) : l'.outstanding.keys = [] := by
  cases h with
  | send => exact absurd rfl (hpump _)
  | unsent => exact absurd rfl (hpump _)
  | giveUp => rfl
  | ack =>
      rw [List.eq_nil_iff_forall_not_mem]
      intro q hq
      have hold := Dict.mem_keys_of_eraseAll hq
      simp [hnil] at hold
  | close =>
      unfold Lane.close
      split <;> exact hnil
  | _ => exact hnil

namespace GoBackNTransport

open UdpArq.Core

/-- Every peer with packets outstanding has a running timer. -/
def TimerArmed (s : GoBackNTransport) : Prop :=
  ∀ addr, (sub s.outstanding addr).keys ≠ [] →
    s.timerDeadline.getD addr none ≠ none

/-- The event sends a packet that is not the base to a peer without a running
timer. -/
def SendsUntimed (cfg : Config) (s : GoBackNTransport) : Event → Prop
  | .pump addr input => s.crashed = none ∧ input.sendResult = none ∧
      s.timerDeadline.getD addr none = none ∧
      ∃ seq item, s.nextToSend cfg addr = some (seq, item) ∧
        (∃ packet, dataPacket seq item.data = .ok packet) ∧
        s.base.get? addr ≠ some seq
  | _ => False

variable {cfg : Config} {s : GoBackNTransport}

/-- A step that changes no timer and does not fill an empty window keeps the
timers armed. -/
theorem TimerArmed.of_timer_eq (h : TimerArmed s) {s' : GoBackNTransport}
    (htimer : ∀ b, s'.timerDeadline.getD b none = s.timerDeadline.getD b none)
    (hnil : ∀ b, (sub s.outstanding b).keys = [] →
      (sub s'.outstanding b).keys = []) : TimerArmed s' := by
  intro b hb
  rw [htimer]
  exact h b fun hempty => hb (hnil b hempty)

theorem step_outstanding_eq_nil (hwf : s.WellFormed) {e : Event} {b : Address}
    (hpump : ∀ input, e ≠ .pump b input)
    (hnil : (sub s.outstanding b).keys = []) :
    (sub (step cfg s e).outstanding b).keys = [] :=
  (step_refines hwf e b).outstanding_eq_nil hpump hnil

theorem drainItem_timer (s : GoBackNTransport) (b : Address) :
    (drainItem cfg s).timerDeadline.getD b none =
      s.timerDeadline.getD b none := by
  unfold drainItem
  split
  · rfl
  · rename_i item rest _
    have hset : (s.timerDeadline.setdefault item.addr none).getD b none =
        s.timerDeadline.getD b none := by
      unfold Dict.getD
      rw [Dict.get?_setdefault]
      split_ifs with hb
      · rw [hb]
        rfl
      · rfl
    split <;> exact hset

/-- The timer of a peer after `armTimer`. -/
theorem armTimer_timer (cfg : Config) (s : GoBackNTransport) {addr : Address}
    (hrto : s.base.get? addr ≠ none → (s.rto.get? addr).isSome) (seq : ℕ)
    (now : ℚ) (b : Address) :
    ∃ at_, (armTimer cfg s addr seq now).timerDeadline.getD b none =
      if b = addr ∧ s.base.get? addr = some seq ∧
          s.timerDeadline.getD addr none = none then some at_
      else s.timerDeadline.getD b none := by
  unfold armTimer
  split_ifs with harm hb
  · have hbase : s.base.get? addr ≠ none := by simp [harm.1]
    obtain ⟨rto, hvalue⟩ := rtoValue_isSome s.toCore addr cfg (hrto hbase)
    simp only [hvalue]
    exact ⟨now + rto, by simp [Dict.getD, hb.1]⟩
  · have hbase : s.base.get? addr ≠ none := by simp [harm.1]
    obtain ⟨rto, hvalue⟩ := rtoValue_isSome s.toCore addr cfg (hrto hbase)
    have hne : b ≠ addr := fun hb' => hb ⟨hb', harm⟩
    simp only [hvalue]
    exact ⟨0, by simp [Dict.getD, hne]⟩
  · rename_i hb
    exact absurd hb.2 harm
  · exact ⟨0, rfl⟩

/-- `sendPacket` changes a timer only where it leaves nothing outstanding. -/
theorem sendPacket_timer (s : GoBackNTransport) (addr : Address) (seq : ℕ)
    (packet : Bytes) (sendResult : Option String) (b : Address) :
    (sendPacket s addr seq packet sendResult).timerDeadline.getD b none =
        s.timerDeadline.getD b none ∨
      (b = addr ∧
        (sub (sendPacket s addr seq packet sendResult).outstanding b).keys =
          []) := by
  cases sendResult with
  | none => exact Or.inl rfl
  | some what =>
      simp only [sendPacket]
      split_ifs with hempty
      · by_cases hb : b = addr
        · right
          rw [hb]
          exact ⟨rfl, hempty⟩
        · left
          simp [Dict.getD, hb]
      · exact Or.inl rfl

theorem sendPacket_outstanding (s : GoBackNTransport) (addr : Address)
    (seq : ℕ) (packet : Bytes) (sendResult : Option String) :
    sub (sendPacket s addr seq packet sendResult).outstanding addr =
      if sendResult = none then sub s.outstanding addr
      else (sub s.outstanding addr).erase seq := by
  cases sendResult with
  | none => exact (if_pos rfl).symm
  | some what =>
      rw [if_neg (by simp)]
      simp only [sendPacket]
      split <;> simp [Core.discard, setStatus]

/-- The timers and the window after a packet has been pumped. -/
theorem pumpPacket_spec (hwf : s.WellFormed) (hrun : ¬ s.crashed.isSome)
    {addr : Address} {seq : ℕ} {item : Item} {packet : Bytes}
    (hnext : s.nextToSend cfg addr = some (seq, item))
    (hpacket : dataPacket seq item.data = .ok packet) (input : PumpInput) :
    sub (pumpPacket cfg s addr input).outstanding addr =
        (if input.sendResult = none then (sub s.outstanding addr).set seq packet
        else ((sub s.outstanding addr).set seq packet).erase seq) ∧
      ∀ b, ∃ at_,
        (pumpPacket cfg s addr input).timerDeadline.getD b none =
            (if b = addr ∧ s.base.get? addr = some seq ∧
                s.timerDeadline.getD addr none = none then some at_
            else s.timerDeadline.getD b none) ∨
          (b = addr ∧
            (sub (pumpPacket cfg s addr input).outstanding b).keys = []) := by
  obtain ⟨hpump, hcore⟩ := pumpPacket_eq hwf hrun hnext hpacket input
  constructor
  · rw [hpump, sendPacket_outstanding, hcore]
    have hlaunch : sub ((s.popPending addr seq).launch addr seq item packet
        input.sentAt).outstanding addr =
          (sub s.outstanding addr).set seq packet := by
      simp [launch, popPending, subSet]
    rw [hlaunch]
  · intro b
    obtain ⟨at_, harm⟩ := armTimer_timer cfg { s with
      toCore := (s.popPending addr seq).launch addr seq item packet
        input.sentAt } (fun hbase => hwf.estimator hrun hbase) seq
      input.timerAt b
    refine ⟨at_, ?_⟩
    rw [hpump]
    rcases sendPacket_timer _ addr seq packet input.sendResult b with
      hsame | hempty
    · exact Or.inl (hsame.trans harm)
    · exact Or.inr hempty

/-- Pumping a packet of one peer leaves the timers of the others armed. -/
theorem pumpPacket_armed_other (hwf : s.WellFormed)
    (hrun : ¬ s.crashed.isSome) (h : TimerArmed s) {addr : Address} {seq : ℕ}
    {item : Item} {packet : Bytes}
    (hnext : s.nextToSend cfg addr = some (seq, item))
    (hpacket : dataPacket seq item.data = .ok packet) (input : PumpInput)
    {b : Address} (hb : b ≠ addr)
    (hkeys : (sub (pumpPacket cfg s addr input).outstanding b).keys ≠ []) :
    (pumpPacket cfg s addr input).timerDeadline.getD b none ≠ none := by
  have hstep : Lane.Step cfg discipline (fun _ => False) _ _ _ :=
    pumpPacket_step hwf hrun addr input b
  have hold : (sub s.outstanding b).keys ≠ [] := by
    intro hnil
    exact hkeys (hstep.outstanding_eq_nil
      (fun _ heq => hb (Event.pump.inj heq).1.symm) hnil)
  obtain ⟨at_, htimer | ⟨hself, -⟩⟩ :=
    (pumpPacket_spec hwf hrun hnext hpacket input).2 b
  · rw [htimer, if_neg fun hself => hb hself.1]
    exact h b hold
  · exact absurd hself hb

/-- A packet that is sent keeps the timer of its peer armed exactly if it is the
base or the timer runs already. -/
theorem pumpPacket_armed_sent_iff (hwf : s.WellFormed)
    (hrun : ¬ s.crashed.isSome) {addr : Address} {seq : ℕ} {item : Item}
    {packet : Bytes} (hnext : s.nextToSend cfg addr = some (seq, item))
    (hpacket : dataPacket seq item.data = .ok packet) {input : PumpInput}
    (hsend : input.sendResult = none) :
    ((sub (pumpPacket cfg s addr input).outstanding addr).keys ≠ [] →
        (pumpPacket cfg s addr input).timerDeadline.getD addr none ≠ none) ↔
      (s.timerDeadline.getD addr none = none →
        s.base.get? addr = some seq) := by
  obtain ⟨hout, htimers⟩ := pumpPacket_spec hwf hrun hnext hpacket input
  rw [if_pos hsend] at hout
  have hmem : seq ∈ ((sub s.outstanding addr).set seq packet).keys :=
    Dict.mem_keys.mpr ⟨packet, by simp⟩
  have hkeys : (sub (pumpPacket cfg s addr input).outstanding addr).keys ≠
      [] := by
    rw [hout]
    exact List.ne_nil_of_mem hmem
  obtain ⟨at_, htimer | ⟨-, hempty⟩⟩ := htimers addr
  · rw [htimer]
    constructor
    · intro harmed hnone
      by_contra hbase
      rw [if_neg fun hbad => hbase hbad.2.1] at harmed
      exact harmed hkeys hnone
    · intro hbase _
      split_ifs with harm
      · exact Option.some_ne_none at_
      · exact fun hnone => harm ⟨rfl, hbase hnone, hnone⟩
  · exact absurd hempty hkeys

/-- A packet that is taken back leaves the timer of its peer armed. -/
theorem pumpPacket_armed_unsent (hwf : s.WellFormed)
    (hrun : ¬ s.crashed.isSome) (h : TimerArmed s) {addr : Address} {seq : ℕ}
    {item : Item} {packet : Bytes}
    (hnext : s.nextToSend cfg addr = some (seq, item))
    (hpacket : dataPacket seq item.data = .ok packet) {input : PumpInput}
    (hsend : input.sendResult ≠ none)
    (hkeys : (sub (pumpPacket cfg s addr input).outstanding addr).keys ≠ []) :
    (pumpPacket cfg s addr input).timerDeadline.getD addr none ≠ none := by
  obtain ⟨hout, htimers⟩ := pumpPacket_spec hwf hrun hnext hpacket input
  rw [if_neg hsend] at hout
  have hold : (sub s.outstanding addr).keys ≠ [] := by
    obtain ⟨q, hq⟩ := List.exists_mem_of_ne_nil _ hkeys
    obtain ⟨x, hx⟩ := Dict.mem_keys.mp hq
    rw [hout, Dict.get?_erase, Dict.get?_set] at hx
    have hmem : q ∈ (sub s.outstanding addr).keys :=
      Dict.mem_keys.mpr ⟨x, by grind⟩
    exact List.ne_nil_of_mem hmem
  have harmed := h addr hold
  obtain ⟨at_, htimer | ⟨-, hempty⟩⟩ := htimers addr
  · rw [htimer, if_neg fun hbad => harmed hbad.2.2]
    exact harmed
  · exact absurd hempty hkeys

/-- One packet of the window pump keeps the timers armed exactly if it does not
send a packet that is not the base without a running timer. -/
theorem pumpPacket_timerArmed_iff (hwf : s.WellFormed) (hrun : s.crashed = none)
    (h : TimerArmed s) (addr : Address) (input : PumpInput) :
    TimerArmed (pumpPacket cfg s addr input) ↔
      ¬ SendsUntimed cfg s (.pump addr input) := by
  have hrun' : ¬ s.crashed.isSome := by simp [hrun]
  cases hnext : s.nextToSend cfg addr with
  | none =>
      have hsame : pumpPacket cfg s addr input = s := by
        simp only [pumpPacket, hnext]
      rw [hsame]
      exact iff_of_true h (by simp [SendsUntimed, hnext])
  | some p =>
      obtain ⟨seq, item⟩ := p
      cases hpacket : dataPacket seq item.data with
      | error e =>
          have hsame : TimerArmed (pumpPacket cfg s addr input) := by
            simp only [pumpPacket, hnext, hpacket]
            exact h
          exact iff_of_true hsame (by simp [SendsUntimed, hnext, hpacket])
      | ok packet =>
          have hother : TimerArmed (pumpPacket cfg s addr input) ↔
              ((sub (pumpPacket cfg s addr input).outstanding addr).keys ≠ [] →
                (pumpPacket cfg s addr input).timerDeadline.getD addr none ≠
                  none) := by
            refine ⟨fun harmed => harmed addr, fun hself b hkeys => ?_⟩
            by_cases hb : b = addr
            · subst hb
              exact hself hkeys
            · exact pumpPacket_armed_other hwf hrun' h hnext hpacket input hb
                hkeys
          rw [hother]
          by_cases hsend : input.sendResult = none
          · rw [pumpPacket_armed_sent_iff hwf hrun' hnext hpacket hsend]
            simp [SendsUntimed, hrun, hsend, hnext, hpacket]
          · refine iff_of_true ?_ fun hbad => hsend hbad.2.1
            exact pumpPacket_armed_unsent hwf hrun' h hnext hpacket hsend

/-- An acknowledgement of everything assigned empties the window. -/
theorem slide_outstanding_eq_nil {l : Lane} (hwf : l.WellFormed) {n base : ℕ}
    {seqs : List ℕ} (hslide : slide l n = some (seqs, base))
    (hall : l.nextSeq ≤ n) :
    ((l.complete seqs).slideTo base).outstanding.keys = [] := by
  obtain ⟨-, -, rfl, -⟩ := slide_eq_some hslide
  obtain ⟨lo, k, hspan⟩ := hwf.span
  rw [List.eq_nil_iff_forall_not_mem]
  intro q hq
  have hold : q ∈ l.outstanding.keys := Dict.mem_keys_of_eraseAll hq
  have hlt : q < n := by
    have hlo := hspan.outstanding_lt q hold
    have hle := hspan.le_nextSeq
    omega
  obtain ⟨x, hx⟩ := Dict.mem_keys.mp hq
  simp [Lane.slideTo, Lane.complete, hold, hlt] at hx

/-- An incoming packet keeps the timers armed: the timer is stopped only by an
acknowledgement of everything assigned. -/
theorem handleIncoming_timerArmed (hwf : s.WellFormed) (hrun : s.crashed = none)
    (h : TimerArmed s) (raw : Bytes) (addr : Address) (input : IncomingInput) :
    TimerArmed (handleIncoming cfg s raw addr input) := by
  have hrun' : ¬ s.crashed.isSome := by simp [hrun]
  have hnil : ∀ b, (sub s.outstanding b).keys = [] →
      (sub (handleIncoming cfg s raw addr input).outstanding b).keys = [] := by
    intro b
    have hstep : Lane.Step cfg discipline (fun _ => False) _ _ _ :=
      handleIncoming_step hwf hrun' raw addr input b
    exact hstep.outstanding_eq_nil fun _ heq => by cases heq
  have hsame : (handleIncoming cfg s raw addr input).timerDeadline =
      s.timerDeadline → TimerArmed (handleIncoming cfg s raw addr input) :=
    fun htimer => h.of_timer_eq (fun b => by rw [htimer]) hnil
  rcases handleIncoming_cases cfg s raw addr input with
    ⟨n, hraw, -⟩ | ⟨seq, payload, expected, -, -, hdata⟩ | ⟨-, hdropped⟩
  · have hspec := handleIncoming_ack cfg hwf hrun' hraw addr input
    rcases hslide : slide (s.lane addr) n with _ | ⟨seqs, base⟩
    · rw [hslide] at hspec
      exact hsame (by rw [hspec])
    rw [hslide] at hspec
    obtain ⟨hlane, at_, htimer⟩ := hspec
    intro b hb
    rw [htimer]
    by_cases hself : b = addr
    · subst hself
      rw [Dict.getD, Dict.get?_set, if_pos rfl, Option.getD_some]
      have hlane' := hlane b
      rw [if_pos rfl] at hlane'
      have hlt : n < (s.lane b).nextSeq := by
        by_contra hge
        apply hb
        refine (congrArg (fun l => l.outstanding.keys) hlane').trans ?_
        exact slide_outstanding_eq_nil (hwf b) hslide (not_lt.mp hge)
      rw [if_pos hlt]
      exact Option.some_ne_none at_
    · rw [Dict.getD, Dict.get?_set, if_neg hself]
      exact h b fun hempty => hb (hnil b hempty)
  · exact hsame (by rw [hdata])
  · exact hsame (by rw [hdropped])

theorem handleTimeouts_timerArmed (hwf : s.WellFormed)
    (hrun : s.crashed = none) (h : TimerArmed s) (input : SweepInput) :
    TimerArmed (handleTimeouts cfg s input) := by
  intro b hb
  have hb' : ((handleTimeouts cfg s input).lane b).outstanding.keys ≠ [] := hb
  cases handleTimeouts_swept hwf (by simp [hrun]) input b with
  | idle hlane htimer =>
      rw [hlane] at hb'
      rcases htimer with htimer | hempty
      · rw [htimer]
        exact h b hb'
      · exact absurd hempty hb'
  | resent _ _ _ htimer => exact htimer
  | failed _ _ _ hlane =>
      rw [hlane] at hb'
      exact absurd rfl hb'

theorem timerArmed_init : TimerArmed init := by
  intro addr hne
  exact absurd rfl hne

/-- A dead thread changes no timer. -/
theorem TimerArmed.of_running (h : TimerArmed s) {s' : GoBackNTransport}
    (hs' : s.crashed = none → TimerArmed s') :
    TimerArmed (if s.crashed.isSome then s else s') := by
  split_ifs with hcrashed
  · exact h
  · exact hs' (by simpa using hcrashed)

/-- A step keeps the timers armed exactly if it does not send a packet that is
not the base to a peer without a running timer. -/
theorem step_timerArmed_iff (hwf : s.WellFormed) (h : TimerArmed s)
    (e : Event) : TimerArmed (step cfg s e) ↔ ¬ SendsUntimed cfg s e := by
  have hquiet : (∀ a input, e ≠ .pump a input) →
      (∀ b, (step cfg s e).timerDeadline.getD b none =
        s.timerDeadline.getD b none) → TimerArmed (step cfg s e) :=
    fun hpump htimer => h.of_timer_eq htimer fun b =>
      step_outstanding_eq_nil hwf fun input => hpump b input
  cases e with
  | sendto data addr =>
      refine iff_of_true (hquiet (by simp) fun b => ?_) fun hbad => hbad
      simp only [step]
      split <;> rfl
  | recvfrom =>
      refine iff_of_true (hquiet (by simp) fun b => ?_) fun hbad => hbad
      simp only [step]
      split <;> rfl
  | close => exact iff_of_true (hquiet (by simp) fun b => rfl) fun hbad => hbad
  | drain =>
      refine iff_of_true (hquiet (by simp) fun b => ?_) fun hbad => hbad
      simp only [step]
      split_ifs
      · rfl
      · exact drainItem_timer s b
  | pump addr input =>
      by_cases hrun : s.crashed = none
      · simpa [step, hrun] using pumpPacket_timerArmed_iff hwf hrun h addr input
      · have hidle : step cfg s (.pump addr input) = s := by
          simp [step, Option.isSome_iff_ne_none.mpr hrun]
        rw [hidle]
        exact iff_of_true h fun hbad => hrun hbad.1
  | timeouts input =>
      refine iff_of_true (h.of_running fun hrun => ?_) fun hbad => hbad
      exact handleTimeouts_timerArmed hwf hrun h input
  | incoming raw addr input =>
      refine iff_of_true (h.of_running fun hrun => ?_) fun hbad => hbad
      exact handleIncoming_timerArmed hwf hrun h raw addr input

/-- The timers are armed throughout a run exactly if the window pump never sends
a packet that is not the base to a peer without a running timer. -/
theorem timerArmed_throughout_iff (cfg : Config) (es : List Event) :
    Throughout (step cfg) TimerArmed init es ↔
      Meets (step cfg) (fun s e => ¬ SendsUntimed cfg s e) init es := by
  have hinit : (endpoint cfg).WellFormed init := Endpoint.WellFormed.init
  exact throughout_iff_meets (endpoint cfg).WellFormed
    (fun _ e hwf => hwf.step e) (fun _ e hwf h => step_timerArmed_iff hwf h e)
    hinit timerArmed_init es

/-- The same after a completed round of `_drain_outbound` and `_pump_windows`, with
sends that return or raise. -/
theorem timerArmed_pumpWindows (cfg : Config) (es : List Event)
    (input : Address → ℕ → PumpInput)
    (hes : Meets (step cfg) (fun s e => ¬ SendsUntimed cfg s e) init
      (es ++ (endpoint cfg).roundEvents input (run (step cfg) init es))) :
    TimerArmed
      (pumpWindows cfg input (drainOutbound cfg (run (step cfg) init es))) := by
  have hround : pumpWindows cfg input
      (drainOutbound cfg (run (step cfg) init es)) = run (step cfg) init
        (es ++ (endpoint cfg).roundEvents input (run (step cfg) init es)) := by
    rw [run_append, pumpWindows_eq]
    exact Endpoint.loop_eq_run (E := endpoint cfg) input _
  rw [hround]
  have hinit : (endpoint cfg).WellFormed init := Endpoint.WellFormed.init
  exact (run_invariant_of_meets
    (fun s => (endpoint cfg).WellFormed s ∧ TimerArmed s)
    (fun s e h he => ⟨h.1.step e, (step_timerArmed_iff h.1 h.2 e).mpr he⟩)
    ⟨hinit, timerArmed_init⟩ hes).2

/-- The send of datagram 0 raises and datagram 1 is sent after it. -/
def untimedRun (addr : Address) : List Event :=
  [.sendto [7] addr, .sendto [8] addr, .drain, .drain,
    .pump addr ⟨0, 0, some "unreachable"⟩, .pump addr ⟨0, 0, none⟩]

/-- Datagram 1 is outstanding, and no timer runs for its peer. -/
theorem untimedRun_not_timerArmed :
    ¬ TimerArmed (run (step {}) init (untimedRun ("b", 2))) := by
  intro h
  exact h ("b", 2) (by decide +kernel) (by decide +kernel)

end GoBackNTransport

end UdpArq
