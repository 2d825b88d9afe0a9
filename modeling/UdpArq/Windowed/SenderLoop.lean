import UdpArq.Transport.SenderLoop
import UdpArq.Windowed.Delivery

/-!
# The loops of the windowed transports

The earliest deadline of Go-Back-N is the least of its timers, and that of
Selective Repeat is on top of the heap, once `nearest` has removed the stale
entries above it.  Nothing depends on these entries, so that Selective Repeat
with its loop still delivers everything.
-/

namespace UdpArq

open Filter UdpArq.Core

/-! ## The earliest deadlines -/

namespace GoBackNTransport

/-- The deadline that `_next_wait_time` finds. -/
def nearest (s : GoBackNTransport) : Option ℚ :=
  (s.timerDeadline.values.filterMap id).min?

end GoBackNTransport

namespace SelectiveRepeatTransport

/-- The deadline that `_next_wait_time` finds. -/
def nearest (s : SelectiveRepeatTransport) : Option ℚ := s.timerHeap.nearest.1

/-- What `_next_wait_time` does to the heap after a sweep, unless the loop has
ended. -/
def poll (s : SelectiveRepeatTransport) : Event → SelectiveRepeatTransport
  | .timeouts _ =>
      if s.stopEvent || s.crashed.isSome then s
      else { s with timerHeap := s.timerHeap.nearest.2 }
  | _ => s

section

variable {cfg : Config} {s : SelectiveRepeatTransport} (e : Event)

theorem toCore_poll : (s.poll e).toCore = s.toCore := by
  cases e with
  | timeouts input =>
      simp only [poll]
      split_ifs <;> rfl
  | _ => rfl

theorem buffer_poll : (s.poll e).buffer = s.buffer := by
  cases e with
  | timeouts input =>
      simp only [poll]
      split_ifs <;> rfl
  | _ => rfl

theorem keyToDeadline_poll :
    (s.poll e).timerHeap.keyToDeadline = s.timerHeap.keyToDeadline := by
  cases e with
  | timeouts input =>
      simp only [poll]
      split_ifs <;> rfl
  | _ => rfl

theorem lane_poll (addr : Address) : (s.poll e).lane addr = s.lane addr := by
  simp only [SelectiveRepeatTransport.lane, toCore_poll, buffer_poll]

theorem faithful_poll (h : s.timerHeap.Faithful) :
    (s.poll e).timerHeap.Faithful := by
  cases e with
  | timeouts input =>
      simp only [poll]
      split_ifs
      · exact h
      · obtain ⟨-, hascending, hcovers⟩ :=
          TimerHeap.nearestLoop_spec h.ascending h.covers
        exact ⟨hascending, hcovers⟩
  | _ => exact h

theorem timed_poll (h : Timed s fun _ _ => False) :
    Timed (s.poll e) fun _ _ => False where
  faithful := faithful_poll e h.faithful
  live a q hq := by
    rw [toCore_poll] at hq
    rw [keyToDeadline_poll]
    exact h.live a q hq

end

/-- Selective Repeat with its loop. -/
def polledEndpoint (cfg : Config) : Endpoint cfg :=
  { endpoint cfg with
    step := fun s e => (step cfg s e).poll e
    refines := fun s e b h => by
      change Lane.Step _ _ _ _ e (((step cfg s e).poll e).lane b)
      rw [lane_poll]
      exact (endpoint cfg).refines s e b h
    pump_pending := fun s addr input => (endpoint cfg).pump_pending s addr input }

/-- The loop looks at the heap after a sweep. -/
def polledHandled (cfg : Config) : (polledEndpoint cfg).Handled where
  toHandlers :=
    { handlers cfg with
      timeouts := fun s input =>
        (handleTimeouts cfg s input).poll (.timeouts input) }
  shared :=
    { drained := (shared cfg).drained
      pump_eq := (shared cfg).pump_eq
      core_armTimer := (shared cfg).core_armTimer
      core_stopTimer := (shared cfg).core_stopTimer
      buffer_withCore := (shared cfg).buffer_withCore
      buffer_drain := (shared cfg).buffer_drain
      buffer_armTimer := (shared cfg).buffer_armTimer
      buffer_stopTimer := (shared cfg).buffer_stopTimer }
  step_eq s e := by
    cases e with
    | timeouts input =>
        change (step cfg s (.timeouts input)).poll (.timeouts input) = _
        by_cases hdead : s.crashed.isSome
        · have hstep : step cfg s (.timeouts input) = s := if_pos hdead
          have hpoll : s.poll (.timeouts input) = s := if_pos (by simp [hdead])
          rw [hstep, hpoll]
          exact (if_pos hdead).symm
        · have hstep : step cfg s (.timeouts input) =
              handleTimeouts cfg s input := if_neg hdead
          rw [hstep]
          exact (if_neg hdead).symm
    | _ => rfl

theorem drains_polled (cfg : Config) : (polledEndpoint cfg).Drains := by
  refine (polledHandled cfg).drains (fun s input => ?_)
    (handlesAcks cfg).leavesQueues
  change s.LeavesQueues ((handleTimeouts cfg s input).poll _).toCore
  rw [toCore_poll]
  exact handleTimeouts_queues s input

theorem lane_polled (cfg : Config) (s : (polledEndpoint cfg).State) (e : Event)
    (addr : Address) :
    (polledEndpoint cfg).lane ((polledEndpoint cfg).step s e) addr =
      (step cfg s e).lane addr :=
  lane_poll e addr

section

variable (cfgT cfgR : Config) (txAddr rxAddr : Address)

theorem answering_polled :
    Link.Answering (polledEndpoint cfgT) (polledEndpoint cfgR) txAddr where
  covered := (answering cfgT cfgR txAddr).covered
  replies := (answering cfgT cfgR txAddr).replies

/-- The stale entries of the heap do not matter. -/
def promptPolled :
    Link.Prompt (polledEndpoint cfgT) (polledEndpoint cfgR) txAddr rxAddr where
  Inv n := Timed n.tx fun _ _ => False
  epoch _ := 0
  deadline s q := s.timer rxAddr q
  init := ⟨TimerHeap.faithful_empty, fun a q hq => by cases hq⟩
  step _ _ hsound hhealthy h hcalm :=
    hcalm.keeps (P := fun s => Timed s fun _ _ => False) hhealthy.alive h
      fun e _ _ _ => timed_poll e (h.step hsound.tx e)
  epoch_step _ _ _ := le_rfl
  epoch_le _ _ q _ := Nat.zero_le q
  armed n h q hq := (h.live rxAddr q hq).resolve_left not_false
  kept n e q raw hwf h hhealthy hmarks hget hq _ := by
    rw [lane_polled] at hq ⊢
    have hkept := step_timer hwf hhealthy.alive.tx h hmarks hget hq
    simp only [timer] at hkept ⊢
    change (poll (step cfgT n.tx e) e).timerHeap.keyToDeadline.get? _ = _ ∨ _
    rw [keyToDeadline_poll]
    exact hkept
  due n input q raw d hwf h hrun hfails hget hd hdue := by
    rw [lane_polled]
    exact (prompt cfgT cfgR txAddr rxAddr).due ⟨n.tx, n.rx⟩ input q raw d hwf h
      hrun hfails hget hd hdue
  completes n raw k input hwf h hrun hraw hle q hq hcovers := by
    rw [lane_polled]
    exact (prompt cfgT cfgR txAddr rxAddr).completes ⟨n.tx, n.rx⟩ raw k input hwf
      h hrun hraw hle q hq hcovers
  drain := (drains_polled cfgT).outbound
  queue _ _ hdrain hclose :=
    (polledHandled cfgT).outbound_grows (drains_polled cfgT) hdrain hclose

end

end SelectiveRepeatTransport

/-! ## Going round with nothing to do -/

namespace LoopedRun

/-- A turn at time `i`, in which the thread reads what has arrived. -/
def turnAt (i : ℕ) (arrival : SenderLoop.Arrival) : LoopedEvent :=
  .turn ⟨⟨i, i, none⟩, Link.quietSweep i, i, arrival, ⟨i, i, none⟩⟩

/-- A turn at time `i`, with nothing to read. -/
def quietTurn (i : ℕ) : LoopedEvent := turnAt i .timedOut

/-- Two datagrams are handed over and sent.  Their packets are lost and sent
again, delivered, acknowledged and taken from the queue, and the thread goes
round and round. -/
def exampleLooped (rxAddr : Address) (data data' : Bytes) : ℕ → LoopedEvent
  | 0 => .other (.tx (.sendto data rxAddr))
  | 1 => .other (.tx (.sendto data' rxAddr))
  | 11 => .other (.rx .recvfrom)
  | 12 => .other
      (.toRx ((dataPacket 0 data).toOption.getD []) none ⟨12, 12, none⟩)
  | 13 => .other
      (.toRx ((dataPacket 1 data').toOption.getD []) none ⟨13, 13, none⟩)
  | 14 => turnAt 14 (.fromPeer ((ackPacket 1).toOption.getD []) none)
  | 20 => turnAt 20 (.fromPeer ((ackPacket 2).toOption.getD []) none)
  | 21 => .other (.rx .recvfrom)
  | 22 => .other (.rx .recvfrom)
  | i => quietTurn i

theorem exampleLooped_quiet {rxAddr : Address} {data data' : Bytes} (i : ℕ)
    (hi : 28 ≤ i) : exampleLooped rxAddr data data' i = quietTurn i := by
  obtain ⟨j, rfl⟩ := Nat.exists_eq_add_of_le' hi
  rfl

/-- A sender with nothing to send, nothing in flight and no timer. -/
structure AtRest {cfg : Config} (T : Endpoint cfg) (addr : Address)
    (s : T.State) : Prop where
  queue : (T.core s).outbound = []
  pending : ∀ d ∈ (T.core s).pending.values, d.keys = []
  sweep : ∀ input, T.step s (.timeouts input) = s
  kept : ∀ input, ¬ T.PeerFails s addr input

variable {cfgT cfgR : Config} {T : Endpoint cfgT} {R : Endpoint cfgR}
  {r : LoopedRun T R}

theorem AtRest.nextToSend {addr : Address} {s : T.State} (h : AtRest T addr s)
    (a : Address) : (T.core s).nextToSend cfgT a = none := by
  have hempty : (sub (T.core s).pending a).keys = [] := by
    rw [sub, Dict.getD]
    cases hget : (T.core s).pending.get? a with
    | none => rfl
    | some d => exact h.pending d (Dict.mem_values.mpr ⟨a, hget⟩)
  simp [Core.nextToSend, hempty]

/-- A quiet turn is a sweep or nothing. -/
theorem AtRest.event {addr : Address} {w : LoopedLink T R}
    {nearest : T.State → Option ℚ} (h : AtRest T addr w.link.tx) (i : ℕ) :
    LoopedLink.event T R nearest w (quietTurn i) = none ∨
      ∃ input, LoopedLink.event T R nearest w (quietTurn i) =
        some (.tx (.timeouts input)) := by
  obtain ⟨link, place⟩ := w
  cases place with
  | sweeping => exact Or.inr ⟨_, rfl⟩
  | draining => exact Or.inl (congrArg Prod.fst (if_pos h.queue))
  | pumping addresses =>
      cases addresses with
      | nil => exact Or.inl rfl
      | cons a addresses =>
          left
          simp only [LoopedLink.event, quietTurn, turnAt, SenderLoop.turn,
            h.nextToSend a]
  | _ => exact Or.inl rfl

section

variable {k : ℕ} (h : AtRest T r.rxAddr (r.tx k))
  (hquiet : ∀ i, k ≤ i → r.event i = quietTurn i)
include h hquiet

theorem AtRest.stays {i : ℕ} (hi : k ≤ i) :
    (r.moment i).link = (r.moment k).link := by
  induction i, hi using Nat.le_induction with
  | base => rfl
  | succ i hi ih =>
      have hrest : AtRest T r.rxAddr (r.moment i).link.tx := by
        rw [ih]
        exact h
      rw [moment_succ, LoopedLink.link_step, hquiet i hi]
      have hturn : LoopedLink.event T R r.nearest (r.moment i) (quietTurn i) = none ∨
          _ := hrest.event i
      rcases hturn with hnone | ⟨input, hsweep⟩
      · rw [hnone, Option.getD_none, LoopedLink.step_idleEvent, ih]
      · rw [hsweep, Option.getD_some, ih]
        simp only [Link.step, Event.isFrom, Bool.false_eq_true, if_false]
        rw [show T.step (r.moment k).link.tx (.timeouts input) =
          (r.moment k).link.tx from h.sweep input]

theorem AtRest.calm {i : ℕ} (hi : k ≤ i)
    (halive : Link.Alive T R (r.moment k).link) :
    Link.Calm T R r.txAddr r.rxAddr (r.moment i).link (r.linkEvent i) := by
  have hrest : AtRest T r.rxAddr (r.moment i).link.tx := by
    rw [h.stays hquiet hi]
    exact h
  have hnext : Link.step T R r.txAddr r.rxAddr (r.moment i).link (r.linkEvent i) =
      (r.moment k).link := by
    rw [linkEvent, ← LoopedLink.link_step]
    exact h.stays hquiet (Nat.le_succ_of_le hi)
  have hevent : r.linkEvent i = LoopedLink.idleEvent r.rxAddr ∨
      ∃ input, r.linkEvent i = .tx (.timeouts input) := by
    rw [linkEvent, hquiet i hi]
    have hturn : LoopedLink.event T R r.nearest (r.moment i) (quietTurn i) = none ∨
        _ := hrest.event i
    rcases hturn with hnone | ⟨input, hsweep⟩
    · exact Or.inl (by rw [hnone, Option.getD_none])
    · exact Or.inr ⟨input, by rw [hsweep, Option.getD_some]⟩
  refine ⟨?_, ?_, hnext ▸ halive⟩
  · rcases hevent with hidle | ⟨input, hsweep⟩
    · rw [hidle]
      trivial
    · rw [hsweep]
      trivial
  · rcases hevent with hidle | ⟨input, hsweep⟩
    · rw [hidle]
      exact id
    · rw [hsweep]
      exact hrest.kept input

theorem AtRest.fair : r.Fair := by
  have hsame : ∀ i, k ≤ i → Link.moment T R r.txAddr r.rxAddr r.linkEvent i =
      (r.moment k).link := fun i hi => by
    rw [← link_moment]
    exact h.stays hquiet hi
  refine ⟨?_, fun t => ?_, Or.inl ?_, fun raw hsends => ?_, fun raw hsends => ?_⟩
  · rw [frequently_atTop]
    exact fun i => ⟨max i k, le_max_left i k, _, hquiet _ (le_max_right i k)⟩
  · obtain ⟨m, hm⟩ := exists_nat_ge t
    filter_upwards [eventually_ge_atTop (max m k)] with i hi input he
    rw [hquiet i ((le_max_right m k).trans hi)] at he
    cases he
    exact hm.trans (Nat.cast_le.mpr ((le_max_left m k).trans hi))
  · filter_upwards [eventually_ge_atTop k] with i hi data addr he
    rw [hquiet i hi] at he
    cases he
  · obtain ⟨i, hi, hsend⟩ := exists_of_recurs hsends k
    rw [Link.SendsToRx, Link.txLane, Link.txLane, hsame i hi,
      hsame (i + 1) (by omega)] at hsend
    exact absurd hsend (lt_irrefl _)
  · obtain ⟨i, hi, hsend⟩ := exists_of_recurs hsends k
    rw [Link.SendsToTx, Link.rxLane, Link.rxLane, hsame i hi,
      hsame (i + 1) (by omega)] at hsend
    exact absurd hsend (lt_irrefl _)

end

theorem event_exampleLooped {data data' : Bytes}
    (hevent : r.event = exampleLooped r.rxAddr data data') (i : ℕ)
    (hi : 28 ≤ i) : r.event i = quietTurn i := by
  rw [hevent]
  exact exampleLooped_quiet i hi

/-- What the example does before it is at rest. -/
theorem calm_exampleLooped {data data' : Bytes}
    (hevent : r.event = exampleLooped r.rxAddr data data')
    (hrest : AtRest T r.rxAddr (r.tx 28))
    (halive : ∀ i ≤ 28, (T.core (r.tx i)).crashed = none ∧
      (R.core (r.moment i).link.rx).crashed = none)
    (hharmless : ∀ i < 28, i ∉ [10, 19, 27] →
      Link.harmless (r.linkEvent i) = true)
    (hkept : ∀ i ∈ [10, 19, 27], r.place i = .sweeping ∧
      ¬ T.PeerFails (r.tx i) r.rxAddr (Link.quietSweep i))
    (hfew : ∀ i ≤ 28, (T.lane (r.tx i) r.rxAddr).handed.length ≤ 2) :
    r.Calm := by
  have hquiet := event_exampleLooped hevent
  constructor
  · intro i
    rw [← link_moment]
    by_cases hi : 28 ≤ i
    · exact hrest.calm hquiet hi ⟨(halive 28 le_rfl).1, (halive 28 le_rfl).2⟩
    have hnext : Link.step T R r.txAddr r.rxAddr (r.moment i).link (r.linkEvent i) =
        (r.moment (i + 1)).link := (LoopedLink.link_step _ _).symm
    have halive' : Link.Alive T R (Link.step T R r.txAddr r.rxAddr
        (r.moment i).link (r.linkEvent i)) := by
      rw [hnext]
      exact ⟨(halive (i + 1) (by omega)).1, (halive (i + 1) (by omega)).2⟩
    by_cases hsweep : i ∈ [10, 19, 27]
    · obtain ⟨hplace, hpeer⟩ := hkept i hsweep
      have hturn : r.event i = quietTurn i := by
        rw [hevent]
        simp only [List.mem_cons, List.not_mem_nil, or_false] at hsweep
        rcases hsweep with rfl | rfl | rfl <;> rfl
      have he : r.linkEvent i = .tx (.timeouts (Link.quietSweep i)) := by
        have hat : (r.moment i).place = .sweeping := hplace
        simp [linkEvent, LoopedLink.event, hturn, quietTurn, turnAt, hat,
          SenderLoop.turn]
      refine ⟨?_, ?_, halive'⟩
      · rw [he]
        trivial
      · rw [he]
        exact hpeer
    · obtain ⟨hreplies, hundisturbed⟩ :=
        Link.calm_of_harmless (hharmless i (by omega) hsweep)
      exact ⟨hreplies, hundisturbed, halive'⟩
  · intro i
    rw [Link.txLane, ← link_moment]
    have hle : (T.lane (r.tx i) r.rxAddr).handed.length ≤ 2 := by
      by_cases hi : 28 ≤ i
      · rw [tx, hrest.stays hquiet hi]
        exact hfew 28 le_rfl
      · exact hfew i (by omega)
    exact lt_of_le_of_lt hle (by decide)

end LoopedRun

/-! ## The loops deliver everything -/

/-- In every calm and fair run in which the sender runs its loop, everything is
delivered. -/
theorem goBackN_senderLoop_delivers_all (cfgT cfgR : Config)
    (txAddr rxAddr : Address) (ls : ℕ → LoopedEvent) :
    let r : LoopedRun (GoBackNTransport.endpoint cfgT)
      (GoBackNTransport.endpoint cfgR) :=
      ⟨GoBackNTransport.nearest, txAddr, rxAddr, ls⟩
    r.Calm → r.Fair → r.DeliversAll := by
  intro r hcalm hfair
  let P := GoBackNTransport.prompt cfgT cfgR txAddr rxAddr
  exact P.delivers_all hcalm (GoBackNTransport.answering cfgT cfgR txAddr)
    (r.fair_linkEvent hcalm P hfair) fun _ _ h => h

/-- The example as a run of Go-Back-N. -/
def GoBackNTransport.loopedExample : LoopedRun (GoBackNTransport.endpoint {})
    (GoBackNTransport.endpoint {}) :=
  ⟨GoBackNTransport.nearest, ("a", 1), ("b", 2),
    LoopedRun.exampleLooped ("b", 2) [97, 98] [99]⟩

theorem GoBackNTransport.atRest_loopedExample :
    LoopedRun.AtRest (GoBackNTransport.endpoint {}) ("b", 2) (loopedExample.tx 28) := by
  have hidle : Link.Idle ("b", 2) (loopedExample.moment 28).link :=
    idle (by decide +kernel) (by decide +kernel) (by decide +kernel)
      (by decide +kernel)
  refine ⟨?_, ?_, hidle.sweep, hidle.kept⟩ <;> decide +kernel

theorem GoBackNTransport.calm_loopedExample : loopedExample.Calm := by
  apply LoopedRun.calm_exampleLooped rfl atRest_loopedExample
  · decide +kernel
  · decide +kernel
  · intro i hi
    refine ⟨by revert i hi; decide +kernel, ?_⟩
    rintro ⟨-, -, hmany | ⟨seq, -, hsend⟩⟩
    · revert i hi
      decide +kernel
    · exact hsend rfl
  · decide +kernel

theorem goBackN_senderLoop_delivers_all_exampleLooped :
    let r : LoopedRun (GoBackNTransport.endpoint {})
      (GoBackNTransport.endpoint {}) :=
      ⟨GoBackNTransport.nearest, ("a", 1), ("b", 2),
        LoopedRun.exampleLooped ("b", 2) [97, 98] [99]⟩
    r.DeliversAll :=
  goBackN_senderLoop_delivers_all {} {} ("a", 1) ("b", 2)
    (LoopedRun.exampleLooped ("b", 2) [97, 98] [99]) GoBackNTransport.calm_loopedExample
    (GoBackNTransport.atRest_loopedExample.fair LoopedRun.exampleLooped_quiet)

namespace SelectiveRepeatTransport

theorem poll_of_empty {s : SelectiveRepeatTransport}
    (hheap : s.timerHeap.heap.length = 0) (e : Event) : s.poll e = s := by
  cases e with
  | timeouts input =>
      have hsame : s.timerHeap.nearest.2 = s.timerHeap := by
        rcases ht : s.timerHeap with ⟨heap, live, counter⟩
        rw [ht, List.length_eq_zero_iff] at hheap
        simp only at hheap
        subst hheap
        rfl
      simp only [poll, hsame, ite_self]
  | _ => rfl

theorem atRest_polled {cfg : Config} {addr : Address}
    {s : SelectiveRepeatTransport} (hqueue : s.outbound = [])
    (hpump : s.nextToSend cfg addr = none)
    (hpending : ∀ d ∈ s.pending.values, d.keys = [])
    (hheap : s.timerHeap.heap.length = 0) :
    LoopedRun.AtRest (polledEndpoint cfg) addr s where
  queue := hqueue
  pending := hpending
  sweep input := by
    have hidle : Link.Idle (R := endpoint cfg) addr ⟨s, init⟩ :=
      idle hqueue hpump hheap
    have hsweep : step cfg s (.timeouts input) = s := hidle.sweep input
    change poll (step cfg s (.timeouts input)) (.timeouts input) = s
    rw [hsweep, poll_of_empty hheap]
  kept := by
    have hidle : Link.Idle (R := endpoint cfg) addr ⟨s, init⟩ :=
      idle hqueue hpump hheap
    exact hidle.kept

end SelectiveRepeatTransport

theorem selectiveRepeat_senderLoop_delivers_all (cfgT cfgR : Config)
    (txAddr rxAddr : Address) (ls : ℕ → LoopedEvent) :
    let r : LoopedRun (SelectiveRepeatTransport.polledEndpoint cfgT)
      (SelectiveRepeatTransport.polledEndpoint cfgR) :=
      ⟨SelectiveRepeatTransport.nearest, txAddr, rxAddr, ls⟩
    r.Calm → r.Fair → r.DeliversAll := by
  intro r hcalm hfair
  let P := SelectiveRepeatTransport.promptPolled cfgT cfgR txAddr rxAddr
  exact P.delivers_all hcalm
    (SelectiveRepeatTransport.answering_polled cfgT cfgR txAddr)
    (r.fair_linkEvent hcalm P hfair) fun _ _ h => h

/-- The example as a run of Selective Repeat. -/
def SelectiveRepeatTransport.loopedExample :
    LoopedRun (SelectiveRepeatTransport.polledEndpoint {})
      (SelectiveRepeatTransport.polledEndpoint {}) :=
  ⟨SelectiveRepeatTransport.nearest, ("a", 1), ("b", 2),
    LoopedRun.exampleLooped ("b", 2) [97, 98] [99]⟩

theorem SelectiveRepeatTransport.atRest_loopedExample :
    LoopedRun.AtRest (SelectiveRepeatTransport.polledEndpoint {}) ("b", 2)
      (loopedExample.tx 28) := by
  apply SelectiveRepeatTransport.atRest_polled <;> decide +kernel

theorem SelectiveRepeatTransport.calm_loopedExample : loopedExample.Calm := by
  apply LoopedRun.calm_exampleLooped rfl atRest_loopedExample
  · decide +kernel
  · decide +kernel
  · intro i hi
    refine ⟨by revert i hi; decide +kernel, ?_⟩
    rintro ⟨seqs, -, hmany | ⟨seq, -, hsend⟩⟩
    · revert i hi
      decide +kernel
    · exact hsend rfl
  · decide +kernel

theorem selectiveRepeat_senderLoop_delivers_all_exampleLooped :
    let T := SelectiveRepeatTransport.polledEndpoint {}
    let r : LoopedRun T T :=
      ⟨SelectiveRepeatTransport.nearest, ("a", 1), ("b", 2),
        LoopedRun.exampleLooped ("b", 2) [97, 98] [99]⟩
    r.DeliversAll :=
  selectiveRepeat_senderLoop_delivers_all {} {} ("a", 1) ("b", 2)
    (LoopedRun.exampleLooped ("b", 2) [97, 98] [99])
    SelectiveRepeatTransport.calm_loopedExample
    (SelectiveRepeatTransport.atRest_loopedExample.fair
      LoopedRun.exampleLooped_quiet)

/-! ## The loops are punctual -/

namespace GoBackNTransport

theorem nearest_call (cfg : Config) (s : GoBackNTransport) {e : Event}
    (he : e.isCall = true) : (step cfg s e).nearest = s.nearest := by
  obtain ⟨c, hcall⟩ := (handlers cfg).step_call cfg s he
  rw [step_eq, hcall]
  rfl

theorem punctual (s : GoBackNTransport) (now : ℚ) :
    SenderLoop.Punctual
      (fun d => ∃ addr, s.timerDeadline.get? addr = some (some d)) now
      (SenderLoop.nextWaitTime s.nearest now) := by
  have hmem : ∀ d, d ∈ s.timerDeadline.values.filterMap id ↔
      ∃ addr, s.timerDeadline.get? addr = some (some d) := by
    intro d
    simp [Dict.mem_values]
  apply SenderLoop.punctual_nextWaitTime
  · intro hnone d hd
    rw [nearest, List.min?_eq_none_iff] at hnone
    rw [← hmem, hnone] at hd
    cases hd
  · intro d hd
    obtain ⟨hd, hleast⟩ := List.min?_eq_some_iff.mp hd
    exact ⟨(hmem d).mp hd, fun d' hd' => hleast d' ((hmem d').mpr hd')⟩

end GoBackNTransport

namespace SelectiveRepeatTransport

theorem nearest_call (cfg : Config) (s : SelectiveRepeatTransport) {e : Event}
    (he : e.isCall = true) : (poll (step cfg s e) e).nearest = s.nearest := by
  have hpoll : poll (step cfg s e) e = step cfg s e := by
    cases e with
    | timeouts input => cases he
    | _ => rfl
  obtain ⟨c, hcall⟩ := (handlers cfg).step_call cfg s he
  rw [hpoll, step_eq, hcall]
  rfl

theorem punctual {s : SelectiveRepeatTransport} (h : s.timerHeap.Faithful)
    (now : ℚ) :
    SenderLoop.Punctual (fun d => ∃ addr q, s.timer addr q = some d) now
      (SenderLoop.nextWaitTime s.nearest now) := by
  obtain ⟨hanswer, -⟩ := TimerHeap.nearestLoop_spec h.ascending h.covers
  change Deadlines.Answers _ _ (.deadline s.nearest) at hanswer
  apply SenderLoop.punctual_nextWaitTime
  · rintro hnone d ⟨addr, q, hd⟩
    rw [hnone] at hanswer
    rw [timer, hanswer (addr, q)] at hd
    cases hd
  · intro d hd
    rw [hd] at hanswer
    obtain ⟨⟨⟨addr, q⟩, hrunning⟩, hleast⟩ := hanswer
    exact ⟨⟨addr, q, hrunning⟩, fun d' ⟨addr, q, hd'⟩ => hleast ⟨(addr, q), hd'⟩⟩

/-- Every packet in flight has its timer, whatever happens. -/
theorem timed_tx {cfgT cfgR : Config}
    (r : LoopedRun (polledEndpoint cfgT) (polledEndpoint cfgR)) (i : ℕ) :
    Timed (r.tx i) (fun _ _ => False) ∧ (polledEndpoint cfgT).WellFormed (r.tx i) := by
  rw [LoopedRun.tx, LoopedRun.link_moment]
  induction i with
  | zero =>
      exact ⟨⟨TimerHeap.faithful_empty, fun a q hq => by cases hq⟩,
        Endpoint.WellFormed.init⟩
  | succ i ih =>
      rw [Link.moment_succ]
      refine ⟨?_, Link.wellFormed_step ih.2 _⟩
      rcases Link.tx_cases _ _ _ _ (Link.moment _ _ r.txAddr r.rxAddr r.linkEvent i)
        (r.linkEvent i) with hsame | ⟨e, -, htx⟩
      · rw [hsame]
        exact ih.1
      · rw [htx]
        exact timed_poll e (ih.1.step ih.2 e)

end SelectiveRepeatTransport

/-- At any time in any run, a thread that waits for a packet is back before the
deadline of a timer that is still to come, and at once if one has passed.  With
Selective Repeat this holds of every packet in flight. -/
theorem senderLoop_punctual (cfgT cfgR : Config) (txAddr rxAddr : Address)
    (ls : ℕ → LoopedEvent) (i : ℕ) (now wait : ℚ) :
    (let r : LoopedRun (GoBackNTransport.endpoint cfgT)
       (GoBackNTransport.endpoint cfgR) :=
       ⟨GoBackNTransport.nearest, txAddr, rxAddr, ls⟩
     r.place i = .receiving now wait →
       SenderLoop.Punctual
         (fun d => ∃ addr, (r.tx i).timerDeadline.get? addr = some (some d)) now
         wait) ∧
    (let r : LoopedRun (SelectiveRepeatTransport.polledEndpoint cfgT)
       (SelectiveRepeatTransport.polledEndpoint cfgR) :=
       ⟨SelectiveRepeatTransport.nearest, txAddr, rxAddr, ls⟩
     let s : SelectiveRepeatTransport := r.tx i
     r.place i = .receiving now wait →
       SenderLoop.Punctual (fun d => ∃ addr q, s.timer addr q = some d) now
           wait ∧
         ∀ addr, ∀ q ∈ (sub s.outstanding addr).keys,
           ∃ d, s.timer addr q = some d ∧ now + wait ≤ max now d) := by
  constructor
  · intro r hplace
    rw [r.wait_eq (fun s e he => GoBackNTransport.nearest_call cfgT s he) i hplace]
    exact GoBackNTransport.punctual _ now
  · intro r s hplace
    have htimed : SelectiveRepeatTransport.Timed s fun _ _ => False :=
      (SelectiveRepeatTransport.timed_tx r i).1
    have hwait := r.wait_eq
      (fun s e he => SelectiveRepeatTransport.nearest_call cfgT s he) i hplace
    have hpunctual : SenderLoop.Punctual
        (fun d => ∃ addr q, s.timer addr q = some d) now wait := by
      rw [hwait]
      exact SelectiveRepeatTransport.punctual htimed.faithful now
    refine ⟨hpunctual, fun addr q hq => ?_⟩
    obtain ⟨d, hd⟩ := Option.ne_none_iff_exists'.mp
      ((htimed.live addr q hq).resolve_left not_false)
    exact ⟨d, hd, hpunctual.wakes d ⟨addr, q, hd⟩⟩

/-- After the sweep at time 10 both packets are in flight again, and the thread
waits for a twentieth of a second. -/
theorem senderLoop_punctual_exampleLooped :
    let s : SelectiveRepeatTransport := SelectiveRepeatTransport.loopedExample.tx 11
    SenderLoop.Punctual (fun d => ∃ addr,
        (GoBackNTransport.loopedExample.tx 11).timerDeadline.get? addr =
          some (some d)) 10 (1 / 20) ∧
      (sub s.outstanding ("b", 2)).keys = [0, 1] ∧
      ∀ q ∈ [0, 1], ∃ d, s.timer ("b", 2) q = some d ∧
        10 + 1 / 20 ≤ max 10 d := by
  intro s
  have hpunctual := senderLoop_punctual {} {} ("a", 1) ("b", 2)
    (LoopedRun.exampleLooped ("b", 2) [97, 98] [99]) 11 10 (1 / 20)
  have hkeys : (sub s.outstanding ("b", 2)).keys = [0, 1] := by decide +kernel
  refine ⟨hpunctual.1 (by decide +kernel), hkeys, fun q hq => ?_⟩
  exact (hpunctual.2 (by decide +kernel)).2 ("b", 2) q (hkeys.symm ▸ hq)

end UdpArq
