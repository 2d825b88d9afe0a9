import UdpArq.GoBackN.Tally
import UdpArq.SelectiveRepeat.Tally
import UdpArq.Windowed.Flush

/-!
# The retry budget of a peer

The audit of a run counts, for one peer, the timeout sweeps that sent something
to it again, from the latest of its last failure and the last ACK that
completed one of its datagrams.  The transports count in `_retries` instead,
which an ACK clears but a failure does not: what is sent after a failure
inherits a counter that is already used up.
-/

namespace UdpArq

open UdpArq.Core

/-- No send of the channel raises. -/
def Event.SendsReturn : Event → Prop
  | .pump _ input => input.sendResult = none
  | .timeouts input => ∀ addr seq, input.sendResult addr seq = none
  | .incoming _ _ input => input.sendResult = none
  | _ => True

namespace Endpoint

variable {cfg : Config} (E : Endpoint cfg) (addr : Address)

def tally (s : E.State) : Tally := (E.core s).tally addr

/-- The event completes a datagram of the peer. -/
def Completes (s : E.State) (e : Event) : Prop :=
  ∃ q < (E.lane s addr).nextSeq,
    ¬ (E.lane s addr).Completed q ∧ (E.lane (E.step s e) addr).Completed q

instance (s : E.State) (e : Event) : Decidable (E.Completes addr s e) :=
  inferInstanceAs (Decidable (∃ _ < _, _))

/-- The number of rounds after the event, if there were `rounds` before it. -/
def countRound (s : E.State) (e : Event) (rounds : ℕ) : ℕ :=
  match e with
  | .timeouts _ =>
      if (E.tally addr (E.step s e)).errors ≠ (E.tally addr s).errors then 0
      else if (E.tally addr s).sent < (E.tally addr (E.step s e)).sent then
        rounds + 1
      else rounds
  | .incoming _ _ _ => if E.Completes addr s e then 0 else rounds
  | _ => rounds

/-- A step together with the count of the rounds. -/
def auditStep (p : E.State × ℕ) (e : Event) : E.State × ℕ :=
  (E.step p.1 e, E.countRound addr p.1 e p.2)

/-- `_handle_timeouts` fails the peer because it did not acknowledge. -/
def TimesOut (s : E.State) : Event → Prop
  | .timeouts input =>
      (E.tally addr (E.step s (.timeouts input))).errors =
        .noAck addr cfg.maxRetries :: (E.tally addr s).errors
  | _ => False

instance (s : E.State) : ∀ e, Decidable (E.TimesOut addr s e)
  | .timeouts _ => inferInstanceAs (Decidable (_ = _))
  | .sendto _ _ => isFalse id
  | .recvfrom => isFalse id
  | .close => isFalse id
  | .drain => isFalse id
  | .pump _ _ => isFalse id
  | .incoming _ _ _ => isFalse id

/-- The peer has had all its rounds if it times out. -/
def FullBudget (p : E.State × ℕ) (e : Event) : Prop :=
  E.TimesOut addr p.1 e → cfg.maxRetries ≤ p.2

instance (p : E.State × ℕ) (e : Event) : Decidable (E.FullBudget addr p e) :=
  inferInstanceAs (Decidable (_ → _))

/-- In a sweep that gives the peer up the counter is not above the limit
already. -/
def FreshCounter (s : E.State) (e : Event) : Prop :=
  ∀ input, e = .timeouts input → (E.core s).crashed = none →
    E.PeerFails s addr input →
      (E.core s).retries.getD addr 0 ≤ cfg.maxRetries ∨ cfg.maxRetries = 0

end Endpoint

namespace Windowed

variable {cfg : Config}

/-! ## What the steps do to the tally -/

/-- A sweep of either transport. -/
theorem timeouts_tally (t : Windowed) {s : (t.endpoint cfg).State}
    (h : (t.endpoint cfg).WellFormed s) {input : SweepInput}
    (hsends : (Event.timeouts input).SendsReturn) (addr : Address) :
    Tally.Swept cfg.maxRetries (.noAck addr cfg.maxRetries)
      (((t.endpoint cfg).core s).crashed = none ∧
        (t.endpoint cfg).PeerFails s addr input)
      ((t.endpoint cfg).tally addr s)
      ((t.endpoint cfg).tally addr
        ((t.endpoint cfg).step s (.timeouts input))) := by
  refine (t.handled cfg).step_timeouts_tally fun hrun => ?_
  rcases t with _ | _
  · exact GoBackNTransport.handleTimeouts_tally h hrun hsends addr
  · exact SelectiveRepeatTransport.handleTimeouts_tally h hrun hsends addr

theorem incoming_tally (t : Windowed) {s : (t.endpoint cfg).State}
    (h : (t.endpoint cfg).WellFormed s) (raw : Bytes) (a : Address)
    (input : IncomingInput) :
    ((t.endpoint cfg).core s).Clears a ((t.endpoint cfg).core
      ((t.endpoint cfg).step s (.incoming raw a input))) := by
  rcases t with _ | _
  · exact (GoBackNTransport.handled cfg).step_incoming_tally
      (GoBackNTransport.handlesAcks cfg)
      fun _ => GoBackNTransport.handleAck_tally cfg s raw a input
  · exact (SelectiveRepeatTransport.handled cfg).step_incoming_tally
      (SelectiveRepeatTransport.handlesAcks cfg)
      fun hrun => SelectiveRepeatTransport.handleAck_tally cfg h hrun raw a input

/-- An arrival that completes a datagram of the peer clears its counter, and
none moves it otherwise. -/
theorem incoming_retries (t : Windowed) {s : (t.endpoint cfg).State}
    (h : (t.endpoint cfg).WellFormed s) (addr : Address) (raw : Bytes)
    (a : Address) (input : IncomingInput) :
    let retries := ((t.endpoint cfg).tally addr
      ((t.endpoint cfg).step s (.incoming raw a input))).retries
    retries = 0 ∨
      retries = ((t.endpoint cfg).tally addr s).retries ∧
        ¬ (t.endpoint cfg).Completes addr s (.incoming raw a input) := by
  intro retries
  obtain ⟨-, hsame | hcleared⟩ := t.incoming_tally h raw a input
  · obtain ⟨hretries, hstatus⟩ := hsame
    right
    constructor
    · exact congrArg (fun d : Dict Address ℕ => d.getD addr 0) hretries
    · rintro ⟨q, -, hnot, hcompleted⟩
      apply hnot
      have hitem := congrFun (congrFun hstatus addr) q
      have hlane : ((t.endpoint cfg).lane s addr).status q =
          ((t.endpoint cfg).lane
            ((t.endpoint cfg).step s (.incoming raw a input)) addr).status q :=
        hitem.symm
      rwa [Lane.Completed, hlane]
  · have hget : retries =
        (((t.endpoint cfg).core s).retries.set a 0).getD addr 0 :=
      congrArg (fun d : Dict Address ℕ => d.getD addr 0) hcleared
    by_cases ha : addr = a
    · left
      rw [hget]
      simp [Dict.getD, ha]
    · right
      constructor
      · rw [hget]
        simp [Dict.getD, ha, Endpoint.tally, Core.tally]
      · rintro ⟨q, -, hnot, hcompleted⟩
        rcases (h.lane_step (.incoming raw a input) addr).completed hcompleted with
          hold | ⟨raw', input', n, heq, -⟩
        · exact hnot hold
        · exact ha (Event.incoming.inj heq).2.1.symm

/-! ## The counter and the rounds -/

/-- The counter is at most the number of rounds, or it is used up and there
have been no rounds since. -/
def Counted (t : Windowed) (addr : Address)
    (p : (t.endpoint cfg).State × ℕ) : Prop :=
  (t.endpoint cfg).WellFormed p.1 ∧
    (((t.endpoint cfg).tally addr p.1).retries ≤ p.2 ∧
        ((t.endpoint cfg).tally addr p.1).retries ≤ cfg.maxRetries ∨
      cfg.maxRetries < ((t.endpoint cfg).tally addr p.1).retries ∧ p.2 = 0)

theorem counted_init (t : Windowed) (addr : Address) :
    t.Counted addr ((t.endpoint cfg).init, 0) := by
  refine ⟨Endpoint.WellFormed.init, Or.inl ?_⟩
  rcases t with _ | _ <;> exact ⟨le_rfl, Nat.zero_le _⟩

theorem Counted.step {t : Windowed} {addr : Address}
    {p : (t.endpoint cfg).State × ℕ} (h : t.Counted addr p) {e : Event}
    (hsends : e.SendsReturn) :
    t.Counted addr ((t.endpoint cfg).auditStep addr p e) := by
  obtain ⟨s, rounds⟩ := p
  obtain ⟨hwf, hcount⟩ := h
  refine ⟨hwf.step e, ?_⟩
  by_cases htimeouts : ∃ input, e = .timeouts input
  · obtain ⟨input, rfl⟩ := htimeouts
    simp only [Endpoint.auditStep, Endpoint.countRound]
    rcases t.timeouts_tally hwf hsends addr with
      ⟨-, htally⟩ | ⟨-, hretries, hle, hsent, herrors⟩ |
        ⟨-, hretries, hlt, herrors⟩
    · simpa [htally] using hcount
    · rw [if_neg (not_not.mpr herrors), if_pos hsent]
      left
      refine ⟨?_, hle⟩
      rcases hcount with ⟨hrounds, -⟩ | ⟨hused, -⟩
      · exact hretries.trans_le (Nat.succ_le_succ hrounds)
      · exact absurd hle (by omega)
    · rw [if_pos (by simp [herrors])]
      exact Or.inr ⟨hlt, rfl⟩
  by_cases hincoming : ∃ raw a input, e = .incoming raw a input
  · obtain ⟨raw, a, input, rfl⟩ := hincoming
    simp only [Endpoint.auditStep, Endpoint.countRound]
    rcases t.incoming_retries hwf addr raw a input with
      hzero | ⟨hretries, hnone⟩
    · rw [hzero]
      exact Or.inl ⟨Nat.zero_le _, Nat.zero_le _⟩
    · rw [if_neg hnone, hretries]
      exact hcount
  · have hsteady := ((t.handled cfg).steady_step (s := s)
      (fun input he => htimeouts ⟨input, he⟩)
      (fun raw a input he => hincoming ⟨raw, a, input, he⟩)).2 addr
    have hrounds : (t.endpoint cfg).countRound addr s e rounds = rounds := by
      rcases e with _ | _ | _ | _ | _ | input | ⟨raw, a, input⟩
      · rfl
      · rfl
      · rfl
      · rfl
      · rfl
      · exact absurd ⟨input, rfl⟩ htimeouts
      · exact absurd ⟨raw, a, input, rfl⟩ hincoming
    have hretries : ((t.endpoint cfg).tally addr
        ((t.endpoint cfg).step s e)).retries =
          ((t.endpoint cfg).tally addr s).retries := hsteady
    simp only [Endpoint.auditStep, hrounds, hretries]
    exact hcount

/-- A sweep times the peer out too early exactly when the counter was used up
before. -/
theorem Counted.fullBudget_iff {t : Windowed} {addr : Address}
    {p : (t.endpoint cfg).State × ℕ} (h : t.Counted addr p) {e : Event}
    (hsends : e.SendsReturn) :
    (t.endpoint cfg).FullBudget addr p e ↔
      (t.endpoint cfg).FreshCounter addr p.1 e := by
  obtain ⟨s, rounds⟩ := p
  obtain ⟨hwf, hcount⟩ := h
  have hretries : ((t.endpoint cfg).tally addr s).retries =
      ((t.endpoint cfg).core s).retries.getD addr 0 := rfl
  by_cases htimeouts : ∃ input, e = .timeouts input
  · obtain ⟨input, rfl⟩ := htimeouts
    have hquiet : ∀ {errors : List Err},
        errors = ((t.endpoint cfg).tally addr s).errors →
          errors ≠ .noAck addr cfg.maxRetries ::
            ((t.endpoint cfg).tally addr s).errors := by
      rintro _ rfl hcons
      exact List.cons_ne_self _ _ hcons.symm
    rcases t.timeouts_tally hwf hsends addr with
      ⟨hfails, htally⟩ | ⟨hfails, -, -, -, herrors⟩ |
        ⟨hfails, hnext, hlt, herrors⟩
    · constructor
      · rintro _ input' heq hrun hpeer
        cases heq
        exact absurd ⟨hrun, hpeer⟩ hfails
      · intro _ herrors
        exact absurd herrors (hquiet (congrArg Tally.errors htally))
    · constructor
      · rintro _ input' heq hrun hpeer
        cases heq
        exact absurd ⟨hrun, hpeer⟩ hfails
      · intro _ hcons
        exact absurd hcons (hquiet herrors)
    · have htimesOut : (t.endpoint cfg).TimesOut addr s (.timeouts input) :=
        herrors
      dsimp only at hcount hnext hlt
      have henough : cfg.maxRetries ≤ rounds ↔
          ((t.endpoint cfg).core s).retries.getD addr 0 ≤ cfg.maxRetries ∨
            cfg.maxRetries = 0 := by
        rw [← hretries]
        omega
      constructor
      · intro hbudget input' heq hrun hpeer
        exact henough.mp (hbudget htimesOut)
      · intro hfresh _
        exact henough.mpr (hfresh input rfl hfails.1 hfails.2)
  · constructor
    · rintro _ input rfl
      exact absurd ⟨input, rfl⟩ htimeouts
    · intro _ htimesOut
      rcases e with _ | _ | _ | _ | _ | input | _
      all_goals first
        | exact absurd htimesOut id
        | exact absurd ⟨input, rfl⟩ htimeouts

end Windowed

/-- A peer that times out has had all its rounds exactly in the runs in which
no sweep gives up a peer whose counter is above the limit already. -/
theorem fullBudget_iff_freshCounter (cfg : Config) (t : Windowed)
    (addr : Address) (es : List Event) (hsends : ∀ e ∈ es, e.SendsReturn) :
    let E := t.endpoint cfg
    Meets (E.auditStep addr) (E.FullBudget addr) (E.init, 0) es ↔
      Meets E.step (E.FreshCounter addr) E.init es := by
  intro E
  calc Meets (E.auditStep addr) (E.FullBudget addr) (E.init, 0) es
      ↔ Meets (E.auditStep addr) (fun p e => E.FreshCounter addr p.1 e)
          (E.init, 0) es :=
        meets_congr (t.Counted addr)
          (fun _ _ (he : Event.SendsReturn _) h => h.step he)
          (fun _ _ he h => h.fullBudget_iff he) (t.counted_init addr) hsends
    _ ↔ Meets E.step (E.FreshCounter addr) E.init es :=
        meets_map Prod.fst (fun _ _ => rfl) (E.init, 0) es

/-- A datagram is sent to the peer at time `now`, then the timers are looked at
one and two seconds later. -/
def unansweredRun (addr : Address) (now : ℚ) : List Event :=
  [.sendto [7] addr, .drain, .pump addr ⟨now, now, none⟩] ++
    [now + 1, now + 2].map fun time => .timeouts
      ⟨time, fun _ => time, fun _ _ => time, fun _ _ => none⟩

theorem sendsReturn_unansweredRun (addr : Address) (now : ℚ) :
    ∀ e ∈ unansweredRun addr now, e.SendsReturn := by
  simp [unansweredRun, Event.SendsReturn]

/-- The peer is failed by the second timeout, and has had its budget then. -/
theorem fullBudget_iff_freshCounter_unansweredRun :
    let E := Windowed.selectiveRepeat.endpoint { maxRetries := 1 }
    let es := unansweredRun ("b", 2) 0
    (E.core (run E.step E.init es)).failures =
        [(("b", 2), .noAck ("b", 2) 1)] ∧
      Meets (E.auditStep ("b", 2)) (E.FullBudget ("b", 2)) (E.init, 0) es := by
  intro E es
  refine ⟨by decide +kernel, ?_⟩
  apply (fullBudget_iff_freshCounter { maxRetries := 1 } .selectiveRepeat ("b", 2)
    es (sendsReturn_unansweredRun _ _)).mpr
  refine ⟨?_, ?_, ?_, ?_, ?_, trivial⟩
  · rintro _ ⟨⟩
  · rintro _ ⟨⟩
  · rintro _ ⟨⟩
  · exact fun _ _ _ _ => Or.inl (by decide +kernel)
  · exact fun _ _ _ _ => Or.inl (by decide +kernel)

/-- The peer is failed after two timeouts, and again by the next one, which is
the first for what was sent in between. -/
def earlyFailureRun (addr : Address) : List Event :=
  unansweredRun addr 0 ++ unansweredRun addr 2

theorem earlyFailureRun_not_fullBudget :
    let E := Windowed.selectiveRepeat.endpoint { maxRetries := 1 }
    (∀ e ∈ earlyFailureRun ("b", 2), e.SendsReturn) ∧
      ¬ Meets (E.auditStep ("b", 2)) (E.FullBudget ("b", 2)) (E.init, 0)
        (earlyFailureRun ("b", 2)) := by
  refine ⟨?_, by decide +kernel⟩
  intro e he
  rcases List.mem_append.mp he with hfirst | hsecond
  · exact sendsReturn_unansweredRun _ _ e hfirst
  · exact sendsReturn_unansweredRun _ _ e hsecond

end UdpArq
