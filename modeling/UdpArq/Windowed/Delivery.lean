import UdpArq.GoBackN.Liveness
import UdpArq.SelectiveRepeat.Liveness
import Mathlib.Algebra.Order.Archimedean.Basic
import Mathlib.Tactic.IntervalCases

/-!
# Fair runs deliver everything

Liveness of the two windowed transports.  The example is a run that goes on for
ever: of two datagrams the first packets are lost, they are sent again, delivered
and acknowledged, and then the thread of the sender goes round its loop with
nothing left to do.
-/

namespace UdpArq

open Filter UdpArq.Core

/-! ## Running on -/

namespace Link

/-- A sweep at time `i` in which no send raises. -/
def quietSweep (i : ℕ) : SweepInput :=
  ⟨i, fun _ => i, fun _ _ => i, fun _ _ => none⟩

/-- The thread of the sender goes round its loop. -/
def loopEvent (rxAddr : Address) (i : ℕ) : LinkEvent :=
  if i % 3 = 0 then .tx .drain
  else if i % 3 = 1 then .tx (.pump rxAddr ⟨i, i, none⟩)
  else .tx (.timeouts (quietSweep i))

/-- Two datagrams are handed over and sent.  Their packets are lost and sent
again, delivered and acknowledged; a last sweep, and the loop for ever. -/
def exampleForever (rxAddr : Address) (data data' : Bytes) (i : ℕ) : LinkEvent :=
  let packet := (dataPacket 0 data).toOption.getD []
  let packet' := (dataPacket 1 data').toOption.getD []
  let start : List LinkEvent :=
    [.tx (.sendto data rxAddr), .tx (.sendto data' rxAddr), .tx .drain, .tx .drain,
      .tx (.pump rxAddr ⟨4, 4, none⟩), .tx (.pump rxAddr ⟨5, 5, none⟩),
      .tx (.timeouts (quietSweep 6)),
      .toRx packet none ⟨7, 7, none⟩, .toRx packet' none ⟨8, 8, none⟩,
      .toTx ((ackPacket 1).toOption.getD []) none ⟨9, 9, none⟩,
      .toTx ((ackPacket 2).toOption.getD []) none ⟨10, 10, none⟩,
      .tx (.timeouts (quietSweep 11))]
  start.getD i (loopEvent rxAddr i)

/-- Such an event fails nobody. -/
def harmless : LinkEvent → Bool
  | .tx (.pump _ input) => input.sendResult.isNone
  | .tx (.timeouts _) => false
  | .tx .close => false
  | .toRx _ _ input => input.sendResult.isNone
  | _ => true

theorem calm_of_harmless {cfgT cfgR : Config} {T : Endpoint cfgT}
    {R : Endpoint cfgR} {rxAddr : Address} {n : Link T R} {e : LinkEvent}
    (he : harmless e = true) : AckReturns e ∧ Undisturbed T R rxAddr n e := by
  cases e with
  | tx e =>
      refine ⟨trivial, ?_⟩
      cases e with
      | pump addr input =>
          exact fun hmarks => hmarks.2.2 (Option.isNone_iff_eq_none.mp he)
      | timeouts input => cases he
      | close => cases he
      | _ => exact id
  | toRx raw flip input => exact ⟨Option.isNone_iff_eq_none.mp he, trivial⟩
  | _ => exact ⟨trivial, trivial⟩

/-- Going round the loop changes nothing and fails nobody. -/
structure Idle {cfgT cfgR : Config} {T : Endpoint cfgT} {R : Endpoint cfgR}
    (rxAddr : Address) (n : Link T R) : Prop where
  drain : T.step n.tx .drain = n.tx
  pump : ∀ input, T.step n.tx (.pump rxAddr input) = n.tx
  sweep : ∀ input, T.step n.tx (.timeouts input) = n.tx
  kept : ∀ input, ¬ T.PeerFails n.tx rxAddr input

variable {cfgT cfgR : Config} {T : Endpoint cfgT} {R : Endpoint cfgR}
  {txAddr rxAddr : Address} {es : ℕ → LinkEvent} {n : Link T R}

theorem Idle.fixed (h : Idle rxAddr n) (i : ℕ) :
    step T R txAddr rxAddr n (loopEvent rxAddr i) = n := by
  unfold loopEvent
  split_ifs
  · simp only [step, Event.isFrom, Bool.false_eq_true, if_false, h.drain]
  · simp only [step, Event.isFrom, Bool.false_eq_true, if_false, h.pump]
  · simp only [step, Event.isFrom, Bool.false_eq_true, if_false, h.sweep]

theorem Idle.calm (h : Idle rxAddr n) (halive : Alive T R n) (i : ℕ) :
    Calm T R txAddr rxAddr n (loopEvent rxAddr i) where
  replies := by
    unfold loopEvent
    split_ifs <;> trivial
  undisturbed := by
    unfold loopEvent
    split_ifs
    · exact id
    · exact fun hmarks => hmarks.2.2 rfl
    · exact h.kept _
  alive := by rwa [h.fixed]

/-- In a run that comes to rest nothing is sent again and again, and the loop
recurs. -/
theorem Idle.fair {k : ℕ} (h : Idle rxAddr (moment T R txAddr rxAddr es k))
    (hes : ∀ i, k ≤ i → es i = loopEvent rxAddr i) :
    Fair T R txAddr rxAddr es := by
  have hrest : ∀ i, k ≤ i →
      moment T R txAddr rxAddr es i = moment T R txAddr rxAddr es k :=
    fun i hi => stateAt_of_fixed rfl (fun i hi => by
      rw [hes i hi]
      exact h.fixed i) hi
  have hrecurs : ∀ r < 3, ∀ t, ∃ᶠ i in atTop, t ≤ i ∧ k ≤ i ∧ i % 3 = r := by
    intro r hr t
    rw [frequently_atTop]
    intro j
    exact ⟨3 * (j + t + k) + r, by omega, by omega, by omega, by omega⟩
  have hquiet : ∀ i, k ≤ i →
      moment T R txAddr rxAddr es (i + 1) = moment T R txAddr rxAddr es i :=
    fun i hi => (hrest (i + 1) (by omega)).trans (hrest i hi).symm
  refine ⟨?_, ?_, ?_, ?_, ?_⟩
  · refine (hrecurs 0 (by decide) 0).mono ?_
    rintro i ⟨-, hk, hmod⟩
    left
    rw [hes i hk, loopEvent, if_pos hmod]
  · refine (hrecurs 1 (by decide) 0).mono ?_
    rintro i ⟨-, hk, hmod⟩
    refine Or.inl ⟨⟨i, i, none⟩, ?_⟩
    rw [hes i hk, loopEvent, if_neg (by omega), if_pos hmod]
  · intro now
    obtain ⟨m, hm⟩ := exists_nat_ge now
    refine (hrecurs 2 (by decide) m).mono ?_
    rintro i ⟨hi, hk, hmod⟩
    refine ⟨quietSweep i, ?_, ?_⟩
    · rw [hes i hk, loopEvent, if_neg (by omega), if_neg (by omega)]
    · exact hm.trans (Nat.cast_le.mpr hi)
  · intro raw hsends
    obtain ⟨i, hi, hsend⟩ := exists_of_recurs hsends k
    rw [SendsToRx, txLane, txLane, hquiet i hi] at hsend
    exact absurd hsend (lt_irrefl _)
  · intro raw hsends
    obtain ⟨i, hi, hsend⟩ := exists_of_recurs hsends k
    rw [SendsToTx, rxLane, rxLane, hquiet i hi] at hsend
    exact absurd hsend (lt_irrefl _)

/-- What the example does in its first twelve events; later it is at rest. -/
theorem calmRun_exampleForever {data data' : Bytes}
    (hidle : Idle rxAddr
      (moment T R txAddr rxAddr (exampleForever rxAddr data data') 12))
    (halive : ∀ i ≤ 12,
      (T.core (moment T R txAddr rxAddr (exampleForever rxAddr data data')
        i).tx).crashed = none ∧
      (R.core (moment T R txAddr rxAddr (exampleForever rxAddr data data')
        i).rx).crashed = none)
    (hkept : ∀ i ∈ [6, 11], ¬ T.PeerFails
      (moment T R txAddr rxAddr (exampleForever rxAddr data data') i).tx rxAddr
        (quietSweep i))
    (hfew : ∀ i ≤ 12, (txLane T R txAddr rxAddr
      (exampleForever rxAddr data data') i).handed.length ≤ 2) :
    CalmRun T R txAddr rxAddr (exampleForever rxAddr data data') := by
  have hes : ∀ i, 12 ≤ i →
      exampleForever rxAddr data data' i = loopEvent rxAddr i :=
    fun i hi => List.getD_eq_default _ _ hi
  have hrest : ∀ i, 12 ≤ i →
      moment T R txAddr rxAddr (exampleForever rxAddr data data') i =
        moment T R txAddr rxAddr (exampleForever rxAddr data data') 12 :=
    fun i hi => stateAt_of_fixed rfl (fun i hi => by
      rw [hes i hi]
      exact hidle.fixed i) hi
  have hharmless : ∀ i < 12, i ≠ 6 → i ≠ 11 →
      harmless (exampleForever rxAddr data data' i) = true := by
    intro i hi hsix heleven
    interval_cases i <;> first | rfl | contradiction
  constructor
  · intro i
    by_cases hi : 12 ≤ i
    · rw [hrest i hi, hes i hi]
      exact hidle.calm ⟨(halive 12 le_rfl).1, (halive 12 le_rfl).2⟩ i
    have hnext := halive (i + 1) (by omega)
    have halive' : Alive T R (moment T R txAddr rxAddr
        (exampleForever rxAddr data data') (i + 1)) := ⟨hnext.1, hnext.2⟩
    by_cases hsweep : i ∈ [6, 11]
    · have he : exampleForever rxAddr data data' i =
          .tx (.timeouts (quietSweep i)) := by
        simp only [List.mem_cons, List.not_mem_nil, or_false] at hsweep
        rcases hsweep with rfl | rfl <;> rfl
      refine ⟨?_, ?_, halive'⟩
      · rw [he]
        trivial
      · rw [he]
        exact hkept i hsweep
    · simp only [List.mem_cons, List.not_mem_nil, or_false, not_or] at hsweep
      obtain ⟨hreplies, hundisturbed⟩ :=
        calm_of_harmless (hharmless i (by omega) hsweep.1 hsweep.2)
      exact ⟨hreplies, hundisturbed, halive'⟩
  · intro i
    have hle : (txLane T R txAddr rxAddr
        (exampleForever rxAddr data data') i).handed.length ≤ 2 := by
      by_cases hi : 12 ≤ i
      · rw [txLane, hrest i hi]
        exact hfew 12 le_rfl
      · exact hfew i (by omega)
    omega

end Link

/-! ## The two transports -/

theorem goBackN_delivers_all (cfgT cfgR : Config) (txAddr rxAddr : Address)
    (es : ℕ → LinkEvent) :
    let T := GoBackNTransport.endpoint cfgT
    let R := GoBackNTransport.endpoint cfgR
    Link.CalmRun T R txAddr rxAddr es → Link.Fair T R txAddr rxAddr es →
      Link.DeliversAll T R txAddr rxAddr es := by
  intro T R hcalm hfair
  exact (GoBackNTransport.prompt cfgT cfgR txAddr rxAddr).delivers_all hcalm
    (GoBackNTransport.answering cfgT cfgR txAddr) hfair fun _ _ h => h

/-- A sender whose timers are all off is at rest. -/
theorem GoBackNTransport.idle {cfgT cfgR : Config} {rxAddr : Address}
    {n : Link (GoBackNTransport.endpoint cfgT) (GoBackNTransport.endpoint cfgR)}
    (hqueue : n.tx.outbound = []) (hpump : n.tx.nextToSend cfgT rxAddr = none)
    (htimers : ∀ a ∈ n.tx.timerDeadline.keys,
      n.tx.timerDeadline.getD a none = none)
    (hwindow : (sub n.tx.outstanding rxAddr).keys = []) :
    Link.Idle rxAddr n where
  drain := ite_eq_left_iff.mpr fun _ => by
    simp only [GoBackNTransport.drainItem, hqueue]
  pump input := ite_eq_left_iff.mpr fun _ => by
    simp only [GoBackNTransport.pumpPacket, hpump]
  sweep input := ite_eq_left_iff.mpr fun _ => by
    refine List.foldlRecOn n.tx.timerDeadline.keys _ (motive := (· = n.tx))
      rfl fun s hs a ha => ?_
    rw [hs]
    refine ite_eq_left_iff.mpr fun _ => ?_
    simp only [GoBackNTransport.timeoutPeer, htimers a ha]
  kept _ hfails := hfails.2.1 hwindow

theorem goBackN_delivers_all_exampleForever :
    let T := GoBackNTransport.endpoint {}
    Link.DeliversAll T T ("a", 1) ("b", 2)
      (Link.exampleForever ("b", 2) [7] [8]) := by
  intro T
  have hidle : Link.Idle ("b", 2) (Link.moment T T ("a", 1) ("b", 2)
      (Link.exampleForever ("b", 2) [7] [8]) 12) :=
    GoBackNTransport.idle (by decide +kernel) (by decide +kernel)
      (by decide +kernel) (by decide +kernel)
  apply goBackN_delivers_all {} {} ("a", 1) ("b", 2)
    (Link.exampleForever ("b", 2) [7] [8])
  · apply Link.calmRun_exampleForever hidle
    · decide +kernel
    · rintro i hi ⟨-, -, hmany | ⟨seq, -, hsend⟩⟩
      · revert i
        decide +kernel
      · exact hsend rfl
    · decide +kernel
  · exact hidle.fair fun i hi => List.getD_eq_default _ _ hi

theorem selectiveRepeat_delivers_all (cfgT cfgR : Config)
    (txAddr rxAddr : Address) (es : ℕ → LinkEvent) :
    let T := SelectiveRepeatTransport.endpoint cfgT
    let R := SelectiveRepeatTransport.endpoint cfgR
    Link.CalmRun T R txAddr rxAddr es → Link.Fair T R txAddr rxAddr es →
      Link.DeliversAll T R txAddr rxAddr es := by
  intro T R hcalm hfair
  exact (SelectiveRepeatTransport.prompt cfgT cfgR txAddr rxAddr).delivers_all
    hcalm (SelectiveRepeatTransport.answering cfgT cfgR txAddr) hfair
    fun _ _ h => h

/-- A sender whose heap is empty is at rest. -/
theorem SelectiveRepeatTransport.idle {cfgT cfgR : Config} {rxAddr : Address}
    {n : Link (SelectiveRepeatTransport.endpoint cfgT)
      (SelectiveRepeatTransport.endpoint cfgR)}
    (hqueue : n.tx.outbound = []) (hpump : n.tx.nextToSend cfgT rxAddr = none)
    (hheap : n.tx.timerHeap.heap.length = 0) : Link.Idle rxAddr n := by
  have hpop : ∀ now, n.tx.timerHeap.popDue now = ([], n.tx.timerHeap) := by
    intro now
    rcases hsame : n.tx.timerHeap with ⟨heap, live, counter⟩
    rw [hsame, List.length_eq_zero_iff] at hheap
    simp only at hheap
    subst hheap
    rfl
  have hgroups : ∀ now, SelectiveRepeatTransport.groupDue n.tx
      (n.tx.timerHeap.popDue now).1 ∅ = ∅ := by
    intro now
    rw [hpop]
    rfl
  refine ⟨?_, ?_, ?_, ?_⟩
  · refine ite_eq_left_iff.mpr fun _ => ?_
    simp only [SelectiveRepeatTransport.drainItem, hqueue]
  · intro input
    refine ite_eq_left_iff.mpr fun _ => ?_
    simp only [SelectiveRepeatTransport.pumpPacket, hpump]
  · intro input
    refine ite_eq_left_iff.mpr fun _ => ?_
    rw [SelectiveRepeatTransport.handleTimeouts_eq (hgroups input.now), hpop]
    rfl
  · rintro input ⟨seqs, hseqs, -⟩
    rw [hgroups] at hseqs
    cases hseqs

theorem selectiveRepeat_delivers_all_exampleForever :
    let T := SelectiveRepeatTransport.endpoint {}
    Link.DeliversAll T T ("a", 1) ("b", 2)
      (Link.exampleForever ("b", 2) [7] [8]) := by
  intro T
  have hidle : Link.Idle ("b", 2) (Link.moment T T ("a", 1) ("b", 2)
      (Link.exampleForever ("b", 2) [7] [8]) 12) :=
    SelectiveRepeatTransport.idle (by decide +kernel) (by decide +kernel)
      (by decide +kernel)
  apply selectiveRepeat_delivers_all {} {} ("a", 1) ("b", 2)
    (Link.exampleForever ("b", 2) [7] [8])
  · apply Link.calmRun_exampleForever hidle
    · decide +kernel
    · rintro i hi ⟨seqs, -, hmany | ⟨seq, -, hsend⟩⟩
      · revert i
        decide +kernel
      · exact hsend rfl
    · decide +kernel
  · exact hidle.fair fun i hi => List.getD_eq_default _ _ hi

end UdpArq
