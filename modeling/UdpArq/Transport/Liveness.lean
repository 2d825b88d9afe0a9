import UdpArq.Lib.Recurrence
import UdpArq.Transport.Calm
import UdpArq.Transport.Metered

/-!
# Delivery over fair-lossy links

A network that loses packets for ever delivers nothing, and a thread that is
never scheduled sends nothing.  A run is fair if no step of the sender that stays
possible is put off for ever, the timeout sweeps recur with ever later clock
readings, and a packet that is sent again and again is delivered intact again and
again.  In every fair run whose
steps are calm, everything that `sendto` accepts is completed in the end.

What the proof needs to know of the two transports beyond the protocol they
follow is collected in `Prompt`.
-/

namespace UdpArq

open Filter UdpArq.Core

/-- The packet is handed to the channel between the two states. -/
def Lane.Sends (l l' : Lane) (raw : Bytes) : Prop :=
  l.wire.count raw < l'.wire.count raw

theorem Lane.sends_of_append {l l' : Lane} {packets : List Bytes} {raw : Bytes}
    (hwire : l'.wire = packets ++ l.wire) (hraw : raw ∈ packets) :
    l.Sends l' raw := by
  rw [Lane.Sends, hwire, List.count_append]
  exact Nat.lt_add_of_pos_left (List.count_pos_iff.mpr hraw)

/-- An acknowledgement that does not raise is sent. -/
theorem Core.acknowledge_sends {l : Lane} {c : Core} {addr : Address}
    {ackFor : ℕ} {packet : Bytes} (hpacket : ackPacket ackFor = .ok packet)
    {buffer : Dict ℕ Bytes} (hwire : (c.lane buffer addr).wire = l.wire)
    (payloads : List Bytes) :
    l.Sends ((c.acknowledge addr ackFor payloads none).lane buffer addr)
      packet := by
  have hlane := lane_acknowledge c buffer addr addr ackFor payloads none
  simp only [hpacket, if_pos] at hlane
  have hmem : packet ∈ [packet] := List.mem_singleton_self packet
  refine Lane.sends_of_append ?_ hmem
  rw [hlane, ← hwire]
  rfl

/-- What the channel takes is sent to its peer. -/
theorem Attempt.sends {c c' : Core} {new : List Attempt}
    (hchannel : c'.channel = taken new ++ c.channel) {a : Attempt}
    (ha : a ∈ new) (hresult : a.result = none) (buffer buffer' : Dict ℕ Bytes) :
    (c.lane buffer a.addr).Sends (c'.lane buffer' a.addr) a.packet := by
  have hwire : (c'.lane buffer' a.addr).wire =
      Core.toPeer a.addr (taken new) ++ (c.lane buffer a.addr).wire := by
    simp [Core.lane, hchannel]
  apply Lane.sends_of_append hwire
  rw [mem_toPeer, taken, List.mem_reverse, List.mem_map]
  exact ⟨a, List.mem_filter.mpr ⟨ha, by simpa using hresult⟩, rfl⟩

/-- Something may have been put into the queue, but nothing has been taken. -/
structure Queue.Fills {α : Type} (q q' : Queue α) : Prop where
  puts : q.puts <+: q'.puts
  taken : q'.taken = q.taken

namespace Queue.Fills

variable {α : Type} {q q' q'' : Queue α}

theorem of_eq (h : q' = q) : q.Fills q' := h ▸ ⟨List.prefix_rfl, rfl⟩

theorem trans (h : q.Fills q') (h' : q'.Fills q'') : q.Fills q'' :=
  ⟨h.puts.trans h'.puts, h'.taken.trans h.taken⟩

end Queue.Fills

/-- What the thread does to the queues besides `_drain_outbound`. -/
structure Core.LeavesQueues (c c' : Core) : Prop where
  outbound : c'.outbound = c.outbound
  incoming : c.incomingData.Fills c'.incomingData

namespace Core.LeavesQueues

variable {c c' c'' : Core}

theorem of_eq (hout : c'.outbound = c.outbound)
    (hin : c'.incomingData = c.incomingData) : c.LeavesQueues c' :=
  ⟨hout, .of_eq hin⟩

theorem refl (c : Core) : c.LeavesQueues c := of_eq rfl rfl

theorem trans (h : c.LeavesQueues c') (h' : c'.LeavesQueues c'') :
    c.LeavesQueues c'' :=
  ⟨h'.outbound.trans h.outbound, h.incoming.trans h'.incoming⟩

/-- Before that the queues have been left as they were. -/
theorem after (h : c'.LeavesQueues c'') (hout : c'.outbound = c.outbound)
    (hin : c'.incomingData = c.incomingData) : c.LeavesQueues c'' :=
  (of_eq hout hin).trans h

end Core.LeavesQueues

theorem Core.acknowledge_queues (c : Core) (addr : Address) (ackFor : ℕ)
    (payloads : List Bytes) (sendResult : Option String) :
    c.LeavesQueues (c.acknowledge addr ackFor payloads sendResult) := by
  have hfills : ∀ q : Queue (Bytes × Address),
      q.Fills (payloads.foldl (fun q p => q.put (p, addr)) q) := by
    induction payloads with
    | nil => exact fun q => .of_eq rfl
    | cons p payloads ih =>
        intro q
        have hput : q.Fills (q.put (p, addr)) := ⟨List.prefix_append _ _, rfl⟩
        exact hput.trans (ih _)
  unfold acknowledge
  rcases ackPacket ackFor with e | packet
  · exact .of_eq rfl rfl
  · rcases sendResult with _ | what
    · exact ⟨rfl, hfills c.incomingData⟩
    · exact .refl c

/-- An acknowledgement leaves the queues alone. -/
theorem Core.AckSteps.leavesQueues {addr : Address} {c c' : Core}
    (h : AckSteps addr c c') : c.LeavesQueues c' := by
  induction h with
  | refl => exact .refl c
  | tail _ hstep ih =>
      refine ih.trans ?_
      cases hstep with
      | sample seq acknowledged now =>
          simp only [sampleRtt]
          split
          · exact .of_eq rfl rfl
          · split
            · exact .of_eq rfl rfl
            · split <;> exact .of_eq rfl rfl
      | _ => exact .of_eq rfl rfl

theorem Core.Pumped.leavesQueues {cfg : Config} {addr : Address}
    {input : PumpInput} {c c' : Core} (h : Pumped cfg addr input c c') :
    c.LeavesQueues c' := by
  cases h <;> exact .of_eq rfl rfl

namespace Endpoint

variable {cfg : Config} {E : Endpoint cfg}

/-- Of the steps of the thread only `_drain_outbound` takes from a queue. -/
structure Drains (E : Endpoint cfg) : Prop where
  outbound : ∀ s, (E.core s).crashed = none →
    (E.core (E.step s .drain)).outbound = (E.core s).outbound.tail
  incoming : ∀ s,
    (E.core (E.step s .drain)).incomingData = (E.core s).incomingData
  keeps : ∀ s e, e.isCall = false → e ≠ .drain →
    (E.core s).LeavesQueues (E.core (E.step s e))

/-- What arrives is put in a queue at most. -/
theorem HandlesAcks.leavesQueues (A : E.HandlesAcks) (s : E.State)
    (hrun : ¬ (E.core s).crashed.isSome) (raw : Bytes) (addr : Address)
    (input : IncomingInput) :
    (E.core s).LeavesQueues (E.core (E.step s (.incoming raw addr input))) := by
  have harrived := A.arrived s raw addr input hrun
  generalize E.core (E.step s (.incoming raw addr input)) = c at harrived ⊢
  cases harrived with
  | ack => exact (A.steps s raw addr input).leavesQueues
  | data => exact (acknowledge_queues _ _ _ _ _).after rfl rfl
  | other => exact .refl _

/-- The shared methods drain, if the others leave the queues alone. -/
theorem Handled.drains (H : E.Handled)
    (htimeouts : ∀ s input,
      (E.core s).LeavesQueues (E.core (H.timeouts s input)))
    (hincoming : ∀ s, ¬ (E.core s).crashed.isSome → ∀ raw addr input,
      (E.core s).LeavesQueues (E.core (E.step s (.incoming raw addr input)))) :
    E.Drains where
  outbound s hrun := (H.drained (Option.not_isSome_iff_eq_none.mpr hrun)).outbound
  incoming s := by
    by_cases hdead : (E.core s).crashed.isSome
    · rw [H.step_of_dead rfl hdead]
    · exact (H.drained hdead).incomingData
  keeps s e hcall hdrain := by
    by_cases hdead : (E.core s).crashed.isSome
    · rw [H.step_of_dead hcall hdead]
      exact .refl _
    cases e with
    | drain => exact absurd rfl hdrain
    | pump addr input => exact (H.pumped hdead addr input).leavesQueues
    | timeouts input =>
        rw [H.step_eq, Handlers.step, if_neg hdead]
        exact htimeouts s input
    | incoming raw addr input => exact hincoming s hdead raw addr input
    | _ => cases hcall

/-- No other step but `close` takes anything out of `_outbound`. -/
theorem Handled.outbound_grows (H : E.Handled) (h : E.Drains) {s : E.State}
    {e : Event} (hdrain : e ≠ .drain) (hclose : e ≠ .close) :
    (E.core s).outbound <+: (E.core (E.step s e)).outbound := by
  cases e with
  | sendto data addr =>
      rw [H.core_sendto, Core.sendto]
      split_ifs
      · exact List.prefix_rfl
      · exact List.prefix_rfl
      · exact List.prefix_append _ _
  | recvfrom =>
      rw [H.core_recvfrom, Core.recvfrom]
      cases (E.core s).incomingData.get? <;> exact List.prefix_rfl
  | close => exact absurd rfl hclose
  | _ => rw [(h.keeps s _ rfl hdrain).outbound]

end Endpoint

namespace Link

variable {cfgT cfgR : Config} (T : Endpoint cfgT) (R : Endpoint cfgR)
  (txAddr rxAddr : Address)

/-- The link after the first `i` events of an infinite run. -/
def moment (es : ℕ → LinkEvent) (i : ℕ) : Link T R :=
  stateAt (step T R txAddr rxAddr) (init T R) es i

/-- The lane of the receiver at the sender after `i` events. -/
def txLane (es : ℕ → LinkEvent) (i : ℕ) : Lane :=
  T.lane (moment T R txAddr rxAddr es i).tx rxAddr

/-- The lane of the sender at the receiver after `i` events. -/
def rxLane (es : ℕ → LinkEvent) (i : ℕ) : Lane :=
  R.lane (moment T R txAddr rxAddr es i).rx txAddr

/-- Step `i` hands the packet to the channel of the sender. -/
def SendsToRx (es : ℕ → LinkEvent) (raw : Bytes) (i : ℕ) : Prop :=
  (txLane T R txAddr rxAddr es i).Sends
    (txLane T R txAddr rxAddr es (i + 1)) raw

/-- Step `i` hands the packet to the channel of the receiver. -/
def SendsToTx (es : ℕ → LinkEvent) (raw : Bytes) (i : ℕ) : Prop :=
  (rxLane T R txAddr rxAddr es i).Sends
    (rxLane T R txAddr rxAddr es (i + 1)) raw

/-- Step `i` delivers the packet to the receiver intact. -/
def ReachesRx (es : ℕ → LinkEvent) (raw : Bytes) (i : ℕ) : Prop :=
  (raw, rxAddr) ∈ (T.core (moment T R txAddr rxAddr es i).tx).channel ∧
    ∃ input, es i = .toRx raw none input

/-- Step `i` delivers the packet to the sender intact. -/
def ReachesTx (es : ℕ → LinkEvent) (raw : Bytes) (i : ℕ) : Prop :=
  (raw, txAddr) ∈ (R.core (moment T R txAddr rxAddr es i).rx).channel ∧
    ∃ input, es i = .toTx raw none input

/-- The threads of the sender keep running, its clock passes every time, and
what is sent again and again gets through again and again. -/
structure Fair (es : ℕ → LinkEvent) : Prop where
  drains : ∃ᶠ i in atTop, es i = .tx .drain ∨
    (T.core (moment T R txAddr rxAddr es i).tx).outbound = []
  pumps : ∃ᶠ i in atTop, (∃ input, es i = .tx (.pump rxAddr input)) ∨
    (txLane T R txAddr rxAddr es i).nextToSend cfgT = none
  sweeps : ∀ t, ∃ᶠ i in atTop, ∃ input, es i = .tx (.timeouts input) ∧
    t ≤ input.now
  toRx : ∀ raw, (∃ᶠ i in atTop, SendsToRx T R txAddr rxAddr es raw i) →
    ∃ᶠ i in atTop, ReachesRx T R txAddr rxAddr es raw i
  toTx : ∀ raw, (∃ᶠ i in atTop, SendsToTx T R txAddr rxAddr es raw i) →
    ∃ᶠ i in atTop, ReachesTx T R txAddr rxAddr es raw i

/-- Nothing fails, and the sequence numbers never run out. -/
structure CalmRun (es : ℕ → LinkEvent) : Prop where
  calm : ∀ i, Calm T R txAddr rxAddr (moment T R txAddr rxAddr es i) (es i)
  few : ∀ i, (txLane T R txAddr rxAddr es i).handed.length < 2 ^ 32

/-- A receiver that answers: every datagram is acknowledged, and so that the
acknowledgement covers it unless an earlier one is missing. -/
structure Answering : Prop where
  covered : ∀ handed l q payload, l.Reassembles R.discipline.window handed →
    (∀ p < q, l.Has p) →
      T.discipline.covers (R.discipline.receive l q payload).ackFor q
  replies : ∀ s raw q payload input packet, R.WellFormed s →
    (R.core s).crashed = none → IsData raw q payload →
    input.sendResult = none →
    ackPacket (R.discipline.receive (R.lane s txAddr) q payload).ackFor =
      .ok packet →
      (R.lane s txAddr).Sends
        (R.lane (R.step s (.incoming raw txAddr input)) txAddr) packet

/-- A sender that does its part.  With nothing failing, the timer of everything
in flight runs, a sweep after the deadline sends the packet again, and an
acknowledgement that covers a packet completes it.  The deadline of a packet
moves only when the packet is sent again or a new epoch begins, and of epochs
there are few. -/
structure Prompt where
  Inv : Link T R → Prop
  epoch : T.State → ℕ
  deadline : T.State → ℕ → Option ℚ
  init : Inv (Link.init T R)
  step : ∀ n e, Sound T R txAddr rxAddr n → Healthy rxAddr n → Inv n →
    Calm T R txAddr rxAddr n e → Inv (Link.step T R txAddr rxAddr n e)
  epoch_step : ∀ s e, T.WellFormed s → epoch s ≤ epoch (T.step s e)
  epoch_le : ∀ n, Inv n → ∀ q ∈ (T.lane n.tx rxAddr).outstanding.keys,
    epoch n.tx ≤ q
  armed : ∀ n, Inv n → ∀ q ∈ (T.lane n.tx rxAddr).outstanding.keys,
    deadline n.tx q ≠ none
  kept : ∀ n e q raw, T.WellFormed n.tx → Inv n → Healthy rxAddr n →
    ¬ (T.lane n.tx rxAddr).Marks cfgT (T.PeerFails n.tx rxAddr) e →
    (T.lane n.tx rxAddr).outstanding.get? q = some raw →
    q ∈ (T.lane (T.step n.tx e) rxAddr).outstanding.keys →
    epoch (T.step n.tx e) = epoch n.tx →
      deadline (T.step n.tx e) q = deadline n.tx q ∨
        (T.lane n.tx rxAddr).Sends (T.lane (T.step n.tx e) rxAddr) raw
  due : ∀ n input q raw d, T.WellFormed n.tx → Inv n →
    (T.core n.tx).crashed = none → ¬ T.PeerFails n.tx rxAddr input →
    (T.lane n.tx rxAddr).outstanding.get? q = some raw →
    deadline n.tx q = some d → d ≤ input.now →
      (T.lane n.tx rxAddr).Sends
        (T.lane (T.step n.tx (.timeouts input)) rxAddr) raw
  completes : ∀ n raw k input, T.WellFormed n.tx → Inv n →
    (T.core n.tx).crashed = none → IsAck raw k →
    k ≤ (T.lane n.tx rxAddr).nextSeq →
    ∀ q ∈ (T.lane n.tx rxAddr).outstanding.keys, T.discipline.covers k q →
      q ∉ (T.lane (T.step n.tx (.incoming raw rxAddr input))
        rxAddr).outstanding.keys
  drain : ∀ s, (T.core s).crashed = none →
    (T.core (T.step s .drain)).outbound = (T.core s).outbound.tail
  queue : ∀ s e, e ≠ .drain → e ≠ .close →
    (T.core s).outbound <+: (T.core (T.step s e)).outbound

/-- Every datagram accepted at any time is completed in the end and delivered at
its own place.  Once nothing more is handed over, everything is delivered in the
end and `flush` returns. -/
structure DeliversAll (es : ℕ → LinkEvent) : Prop where
  delivers : ∀ i q payload,
    (txLane T R txAddr rxAddr es i).handed[q]? = some payload →
      ∀ᶠ j in atTop, (txLane T R txAddr rxAddr es j).Completed q ∧
        (rxLane T R txAddr rxAddr es j).delivered[q]? = some payload
  flushes : ∀ i handed,
    (∀ j, i ≤ j → (txLane T R txAddr rxAddr es j).handed = handed) →
      ∀ᶠ j in atTop, (rxLane T R txAddr rxAddr es j).delivered = handed ∧
        ∀ remaining, (T.core (moment T R txAddr rxAddr es j).tx).flush
          (some rxAddr) remaining = .returned

variable {T R txAddr rxAddr} {es : ℕ → LinkEvent}

theorem moment_succ (es : ℕ → LinkEvent) (i : ℕ) :
    moment T R txAddr rxAddr es (i + 1) =
      step T R txAddr rxAddr (moment T R txAddr rxAddr es i) (es i) := rfl

/-- A calm run is sound. -/
theorem CalmRun.sound (h : CalmRun T R txAddr rxAddr es)
    (hcovers : ∀ k q, T.discipline.covers k q → R.discipline.covers k q)
    (i : ℕ) : Sound T R txAddr rxAddr (moment T R txAddr rxAddr es i) := by
  have hrun : moment T R txAddr rxAddr es i =
      after T R txAddr rxAddr ((List.range i).map es) :=
    stateAt_eq_run _ _ es i
  have hfew := h.few i
  rw [txLane, hrun] at hfew
  rw [hrun]
  apply sound_after hcovers _ hfew
  intro e he
  obtain ⟨j, -, rfl⟩ := List.mem_map.mp he
  exact (h.calm j).replies

/-- Nothing has failed at any time. -/
theorem CalmRun.healthy (h : CalmRun T R txAddr rxAddr es) (i : ℕ) :
    Healthy rxAddr (moment T R txAddr rxAddr es i) ∧
      T.WellFormed (moment T R txAddr rxAddr es i).tx := by
  induction i with
  | zero => exact ⟨healthy_init, Endpoint.WellFormed.init⟩
  | succ i ih =>
      rw [moment_succ]
      exact ⟨ih.1.step ih.2 (h.calm i), wellFormed_step ih.2 (es i)⟩

theorem Prompt.inv (P : Prompt T R txAddr rxAddr)
    (h : CalmRun T R txAddr rxAddr es)
    (hcovers : ∀ k q, T.discipline.covers k q → R.discipline.covers k q)
    (i : ℕ) : P.Inv (moment T R txAddr rxAddr es i) := by
  induction i with
  | zero => exact P.init
  | succ i ih =>
      rw [moment_succ]
      exact P.step _ _ (h.sound hcovers i) (h.healthy i).1 ih (h.calm i)

/-- Every step of a calm run is a step on the lane that marks nothing
failed. -/
theorem CalmRun.lane_step (h : CalmRun T R txAddr rxAddr es) (i : ℕ) :
    ∃ e, let fails := T.PeerFails (moment T R txAddr rxAddr es i).tx rxAddr
      Lane.Step cfgT T.discipline fails (txLane T R txAddr rxAddr es i) e
          (txLane T R txAddr rxAddr es (i + 1)) ∧
        ¬ (txLane T R txAddr rxAddr es i).Marks cfgT fails e := by
  simp only [txLane, moment_succ]
  rcases tx_cases T R txAddr rxAddr (moment T R txAddr rxAddr es i) (es i) with
    hsame | ⟨e, he, htx⟩
  · rw [hsame]
    exact ⟨.recvfrom, .idle _, id⟩
  · rw [htx]
    exact ⟨e, (h.healthy i).2.lane_step e rxAddr, (h.calm i).not_marks he⟩

theorem CalmRun.completed_mono (h : CalmRun T R txAddr rxAddr es) {q i j : ℕ}
    (hq : (txLane T R txAddr rxAddr es i).Completed q) (hij : i ≤ j) :
    (txLane T R txAddr rxAddr es j).Completed q := by
  refine holds_of_le (P := fun i => (txLane T R txAddr rxAddr es i).Completed q)
    (fun k _ hk => ?_) hq hij
  obtain ⟨e, hstep, -⟩ := h.lane_step k
  exact (h.healthy (k + 1)).1.lane.completed_step hstep hk

theorem CalmRun.nextSeq_mono (h : CalmRun T R txAddr rxAddr es) {i j : ℕ}
    (hij : i ≤ j) : (txLane T R txAddr rxAddr es i).nextSeq ≤
      (txLane T R txAddr rxAddr es j).nextSeq := by
  apply Nat.rel_of_forall_rel_succ_of_le_of_le (· ≤ ·)
    (fun k (_ : i ≤ k) => ?_) le_rfl hij
  obtain ⟨e, hstep, -⟩ := h.lane_step k
  exact hstep.nextSeq_le

theorem CalmRun.handed_mono (h : CalmRun T R txAddr rxAddr es) {i j : ℕ}
    (hij : i ≤ j) : (txLane T R txAddr rxAddr es i).handed <+:
      (txLane T R txAddr rxAddr es j).handed := by
  apply Nat.rel_of_forall_rel_succ_of_le_of_le (· <+: ·)
    (fun k (_ : i ≤ k) => ?_) le_rfl hij
  obtain ⟨e, hstep, -⟩ := h.lane_step k
  exact hstep.handed

/-! ## What waits is sent -/

section

variable (P : Prompt T R txAddr rxAddr) (h : CalmRun T R txAddr rxAddr es)

/-- Datagram `q` for the peer is one of the first `k + 1` items of
`_outbound`. -/
def Within (T : Endpoint cfgT) (rxAddr : Address) (q k : ℕ) (s : T.State) :
    Prop :=
  ∃ k' ≤ k, ∃ item, (T.core s).outbound[k']? = some item ∧
    item.addr = rxAddr ∧ item.seq = q

theorem within_of_queued {s : T.State} {q : ℕ}
    (hq : q ∈ (T.lane s rxAddr).queued.map Item.seq) :
    ∃ k, Within T rxAddr q k s := by
  obtain ⟨item, hitem, hseq⟩ := List.mem_map.mp hq
  obtain ⟨hmem, haddr⟩ := List.mem_filter.mp hitem
  obtain ⟨k, hk⟩ := List.mem_iff_getElem?.mp hmem
  exact ⟨k, k, le_rfl, item, hk, by simpa using haddr, hseq⟩

include P in
/-- Nothing moves back in `_outbound`. -/
theorem Prompt.within_step {s : T.State} {q k : ℕ} {e : Event}
    (hdrain : e ≠ .drain) (hclose : e ≠ .close) (hq : Within T rxAddr q k s) :
    Within T rxAddr q k (T.step s e) := by
  obtain ⟨k', hk, item, hitem, hrest⟩ := hq
  refine ⟨k', hk, item, ?_, hrest⟩
  obtain ⟨later, hlater⟩ := P.queue s e hdrain hclose
  rw [← hlater]
  obtain ⟨hlt, -⟩ := List.getElem?_eq_some_iff.mp hitem
  rwa [List.getElem?_append_left hlt]

include P in
/-- `_drain_outbound` moves everything forward and takes the first item out. -/
theorem Prompt.within_drain {s : T.State} {q k : ℕ} (hwf : T.WellFormed s)
    (hrun : (T.core s).crashed = none) (hq : Within T rxAddr q k s) :
    q ∉ (T.lane (T.step s .drain) rxAddr).queued.map Item.seq ∨
      0 < k ∧ Within T rxAddr q (k - 1) (T.step s .drain) := by
  obtain ⟨k', hk, item, hitem, haddr, hseq⟩ := hq
  have htail := P.drain s hrun
  rcases k' with _ | k'
  · left
    rcases hqueue : (T.core s).outbound with _ | ⟨first, rest⟩
    · simp [hqueue] at hitem
    · rw [hqueue] at hitem htail
      cases hitem
      -- The numbers of one peer are distinct.
      have hqueued : (T.lane s rxAddr).queued =
          item :: rest.filter fun other => other.addr = rxAddr := by
        simp [Endpoint.lane, Core.lane, hqueue, haddr]
      have hnodup := (List.nodup_append.mp (hwf rxAddr).disjoint.1).2.1
      rw [hqueued, List.map_cons, hseq] at hnodup
      have hrest : (T.lane (T.step s .drain) rxAddr).queued =
          rest.filter fun other => other.addr = rxAddr := by
        simp [Endpoint.lane, Core.lane, htail]
      rw [hrest]
      exact (List.nodup_cons.mp hnodup).1
  · right
    refine ⟨by omega, k', by omega, item, ?_, haddr, hseq⟩
    rw [htail, List.getElem?_tail]
    exact hitem

theorem Within.mono {s : T.State} {q k k' : ℕ} (hq : Within T rxAddr q k s)
    (hk : k ≤ k') : Within T rxAddr q k' s := by
  obtain ⟨j, hj, hitem⟩ := hq
  exact ⟨j, hj.trans hk, hitem⟩

include P h in
/-- What is in `_outbound` stays there or leaves it. -/
theorem Prompt.within_moment {q k i : ℕ}
    (hq : Within T rxAddr q k (moment T R txAddr rxAddr es i).tx) :
    q ∉ (txLane T R txAddr rxAddr es (i + 1)).queued.map Item.seq ∨
      Within T rxAddr q k (moment T R txAddr rxAddr es (i + 1)).tx := by
  obtain ⟨⟨⟨hrun, -⟩, -⟩, hwf⟩ := h.healthy i
  rw [txLane, moment_succ]
  rcases tx_cases T R txAddr rxAddr (moment T R txAddr rxAddr es i) (es i) with
    hsame | ⟨e, he, htx⟩
  · rw [hsame]
    exact Or.inr hq
  · rw [htx]
    by_cases hdrain : e = .drain
    · subst hdrain
      rcases P.within_drain hwf hrun hq with hgone | ⟨-, hq'⟩
      · exact Or.inl hgone
      · exact Or.inr (hq'.mono (Nat.sub_le k 1))
    · refine Or.inr (P.within_step hdrain ?_ hq)
      rintro rfl
      exact (h.calm i).not_marks he trivial

include P h in
/-- What is in `_outbound` leaves it. -/
theorem Prompt.leaves_queue (hfair : Fair T R txAddr rxAddr es) {q : ℕ}
    (k i : ℕ)
    (hq : Within T rxAddr q k (moment T R txAddr rxAddr es i).tx) :
    ∃ j, i ≤ j ∧
      q ∉ (txLane T R txAddr rxAddr es j).queued.map Item.seq := by
  induction k using Nat.strong_induction_on generalizing i with
  | _ k ih =>
      by_contra hno
      push Not at hno
      have hstays : ∀ j, i ≤ j →
          Within T rxAddr q k (moment T R txAddr rxAddr es j).tx := by
        intro j hj
        apply holds_of_le (P := fun j =>
          Within T rxAddr q k (moment T R txAddr rxAddr es j).tx) _ hq hj
        intro j hj hwithin
        apply (P.within_moment h hwithin).resolve_left
        exact not_not.mpr (hno (j + 1) (Nat.le_succ_of_le hj))
      obtain ⟨j, hj, hdrains⟩ := exists_of_recurs hfair.drains i
      have hdrain : es j = .tx .drain := by
        apply hdrains.resolve_right
        intro hempty
        obtain ⟨k', -, item, hitem, -⟩ := hstays j hj
        simp [hempty] at hitem
      obtain ⟨⟨⟨hrun, -⟩, -⟩, hwf⟩ := h.healthy j
      have htx : (moment T R txAddr rxAddr es (j + 1)).tx =
          T.step (moment T R txAddr rxAddr es j).tx .drain := by
        rw [moment_succ, hdrain]
        rfl
      have hnext := hno (j + 1) (Nat.le_succ_of_le hj)
      rw [txLane, htx] at hnext
      rcases P.within_drain hwf hrun (hstays j hj) with hgone | ⟨hk, hcloser⟩
      · exact hgone hnext
      · rw [← htx] at hcloser
        obtain ⟨j', hj', hgone⟩ := ih (k - 1) (by omega) (j + 1) hcloser
        exact hgone (hno j' (by omega))

include P h in
/-- A datagram that has only completed ones before it enters the window. -/
theorem Prompt.enters (hfair : Fair T R txAddr rxAddr es) {q i : ℕ}
    (hq : q < (txLane T R txAddr rxAddr es i).nextSeq)
    (hbelow : ∀ p < q, (txLane T R txAddr rxAddr es i).Completed p)
    (hopen : ∀ j, ¬ (txLane T R txAddr rxAddr es j).Completed q) :
    ∃ j, i ≤ j ∧ q ∈ (txLane T R txAddr rxAddr es j).outstanding.keys := by
  have hheld : ∀ j, i ≤ j → (txLane T R txAddr rxAddr es j).Held q :=
    fun j hj => (h.healthy j).1.lane.held (hq.trans_le (h.nextSeq_mono hj))
      (hopen j)
  by_contra hno
  push Not at hno
  have hwaits : ∀ j, i ≤ j → q ∈ (txLane T R txAddr rxAddr es j).waiting :=
    fun j hj => (hheld j hj).resolve_left (hno j hj)
  -- It leaves the queue, and then it waits in `_pending`.
  obtain ⟨i₁, hi₁, hpending⟩ : ∃ i₁, i ≤ i₁ ∧
      q ∈ (txLane T R txAddr rxAddr es i₁).pending.keys := by
    by_cases hqueued : q ∈ (txLane T R txAddr rxAddr es i).queued.map Item.seq
    · obtain ⟨k, hk⟩ := within_of_queued hqueued
      obtain ⟨j, hj, hgone⟩ := P.leaves_queue h hfair k i hk
      exact ⟨j, hj, (List.mem_append.mp (hwaits j hj)).resolve_right hgone⟩
    · exact ⟨i, le_rfl,
        (List.mem_append.mp (hwaits i le_rfl)).resolve_right hqueued⟩
  have hstays : ∀ j, i₁ ≤ j →
      q ∈ (txLane T R txAddr rxAddr es j).pending.keys := by
    intro j hj
    apply holds_of_le (P := fun j =>
      q ∈ (txLane T R txAddr rxAddr es j).pending.keys) _ hpending hj
    intro j hj hmem
    obtain ⟨e, hstep, hmarks⟩ := h.lane_step j
    apply (hstep.pending_or_outstanding hmarks
      (h.healthy (j + 1)).1.lane.alive hmem).resolve_right
    exact hno (j + 1) (by omega)
  obtain ⟨j, hj, hpumps⟩ := exists_of_recurs hfair.pumps i₁
  obtain ⟨⟨⟨hrun, -⟩, hlane⟩, hwf⟩ := h.healthy j
  obtain ⟨item, hnext⟩ := hlane.nextToSend (hwf rxAddr) (hstays j hj)
    fun p hp => h.completed_mono (hbelow p hp) (hi₁.trans hj)
  obtain ⟨input, hpump⟩ : ∃ input, es j = .tx (.pump rxAddr input) := by
    apply hpumps.resolve_right
    rw [txLane, hnext]
    exact Option.some_ne_none _
  have htx : (moment T R txAddr rxAddr es (j + 1)).tx =
      T.step (moment T R txAddr rxAddr es j).tx (.pump rxAddr input) := by
    rw [moment_succ, hpump]
    rfl
  have hcalm := (h.calm j).undisturbed
  rw [hpump] at hcalm
  have halive := (h.healthy (j + 1)).1.lane.alive
  apply hno (j + 1) (by omega)
  rw [htx] at halive
  rw [txLane, htx]
  exact (hwf.lane_step (.pump rxAddr input) rxAddr).pump_outstanding hcalm halive
    hnext (T.pump_pending _ rxAddr input q item hrun hnext)

/-! ## What is in flight is completed -/

include h in
/-- What is in flight and never completed stays in flight, as one packet. -/
theorem CalmRun.outstanding_mono {q i j : ℕ} {raw : Bytes}
    (hopen : ∀ j, ¬ (txLane T R txAddr rxAddr es j).Completed q)
    (hget : (txLane T R txAddr rxAddr es i).outstanding.get? q = some raw)
    (hij : i ≤ j) :
    (txLane T R txAddr rxAddr es j).outstanding.get? q = some raw := by
  refine holds_of_le (P := fun j =>
    (txLane T R txAddr rxAddr es j).outstanding.get? q = some raw)
    (fun j _ hj => ?_) hget hij
  obtain ⟨e, hstep, -⟩ := h.lane_step j
  have hwf := (h.healthy j).2 rxAddr
  apply hstep.outstanding_get? hwf hj
  exact (h.healthy (j + 1)).1.lane.outstanding_step hwf hstep
    (Dict.mem_keys.mpr ⟨raw, hj⟩) (hopen (j + 1))

include P h in
/-- What is in flight and never completed is sent again and again. -/
theorem Prompt.sends_again (hfair : Fair T R txAddr rxAddr es)
    (hcovers : ∀ k q, T.discipline.covers k q → R.discipline.covers k q)
    {q i : ℕ} {raw : Bytes}
    (hopen : ∀ j, ¬ (txLane T R txAddr rxAddr es j).Completed q)
    (hget : (txLane T R txAddr rxAddr es i).outstanding.get? q = some raw) :
    ∃ᶠ j in atTop, SendsToRx T R txAddr rxAddr es raw j := by
  have hflies : ∀ j, i ≤ j →
      (txLane T R txAddr rxAddr es j).outstanding.get? q = some raw :=
    fun j hj => h.outstanding_mono hopen hget hj
  have hmem : ∀ j, i ≤ j →
      q ∈ (txLane T R txAddr rxAddr es j).outstanding.keys :=
    fun j hj => Dict.mem_keys.mpr ⟨raw, hflies j hj⟩
  have hinv := P.inv h hcovers
  -- From some time on no new epoch begins.
  obtain ⟨i₁, hi₁, hrest⟩ := exists_rest
    (fun j => P.epoch (moment T R txAddr rxAddr es j).tx) i q
    (fun j _ => by
      rcases tx_cases T R txAddr rxAddr (moment T R txAddr rxAddr es j)
        (es j) with hsame | ⟨e, -, htx⟩
      · rw [moment_succ, hsame]
      · rw [moment_succ, htx]
        exact P.epoch_step _ e (h.healthy j).2)
    (fun j hj => P.epoch_le _ (hinv j) q (hmem j hj))
  refine fires_again
    (fun j => P.deadline (moment T R txAddr rxAddr es j).tx q)
    (fun j now => ∃ input : SweepInput,
      es j = .tx (.timeouts input) ∧ input.now = now) i₁ ?_ ?_ ?_ ?_
  · exact fun j hj => P.armed _ (hinv j) q (hmem j (hi₁.trans hj))
  · intro j hj
    have hnext := hrest j hj
    have hstays := hmem (j + 1) (by omega)
    rw [SendsToRx]
    rw [txLane] at hstays
    simp only [txLane, moment_succ] at hnext hstays ⊢
    rcases tx_cases T R txAddr rxAddr (moment T R txAddr rxAddr es j)
      (es j) with hsame | ⟨e, he, htx⟩
    · rw [hsame]
      exact Or.inl rfl
    · rw [htx] at hnext hstays ⊢
      exact P.kept _ e q raw (h.healthy j).2 (hinv j) (h.healthy j).1
        ((h.calm j).not_marks he) (hflies j (hi₁.trans hj)) hstays hnext
  · rintro j d now hj hd ⟨input, hsweep, rfl⟩ hle
    have hcalm := (h.calm j).undisturbed
    rw [hsweep] at hcalm
    have htx : (moment T R txAddr rxAddr es (j + 1)).tx =
        T.step (moment T R txAddr rxAddr es j).tx (.timeouts input) := by
      rw [moment_succ, hsweep]
      rfl
    rw [SendsToRx, txLane, txLane, htx]
    exact P.due _ input q raw d (h.healthy j).2 (hinv j)
      (h.healthy j).1.alive.tx hcalm
      (hflies j (hi₁.trans hj)) hd hle
  · intro t
    refine (hfair.sweeps t).mono ?_
    rintro j ⟨input, hsweep, hle⟩
    exact ⟨input.now, ⟨input, hsweep, rfl⟩, hle⟩

include h in
/-- A datagram that reaches the receiver after all earlier ones is answered by
an acknowledgement that covers it. -/
theorem CalmRun.answered (hanswering : Answering T R txAddr)
    (hcovers : ∀ k q, T.discipline.covers k q → R.discipline.covers k q)
    {q i : ℕ} {raw : Bytes}
    (hget : (txLane T R txAddr rxAddr es i).outstanding.get? q = some raw)
    (hbelow : ∀ p < q, (txLane T R txAddr rxAddr es i).Completed p)
    (hreaches : ReachesRx T R txAddr rxAddr es raw i) :
    ∃ k, k ≤ 2 ^ 32 ∧ T.discipline.covers k q ∧
      k ≤ (txLane T R txAddr rxAddr es i).nextSeq ∧
      ∃ packet, ackPacket k = .ok packet ∧
        SendsToTx T R txAddr rxAddr es packet i := by
  obtain ⟨hmem, input, hdelivery⟩ := hreaches
  have hsound := h.sound hcovers i
  have hreplies := (h.calm i).replies
  rw [hdelivery] at hreplies
  obtain ⟨payload, hhanded, hdata⟩ :=
    (hsound.tx rxAddr).labelled.outstanding q raw hget
  have hreassembles := hsound.receiver.reassembles
  have hreceived := R.discipline.receive_sound hreassembles hhanded
  have hfew := h.few i
  have hnextSeq := (hsound.tx rxAddr).nextSeq_eq
  have hcovered := hanswering.covered _ _ q payload hreassembles
    fun p hp => hsound.completed p (hbelow p hp)
  rw [txLane] at hfew
  obtain ⟨packet, hpacket⟩ := ackPacket_isOk_iff.mpr
    (show (R.discipline.receive
      (R.lane (moment T R txAddr rxAddr es i).rx txAddr) q payload).ackFor ≤
        0xFFFFFFFF by have hle := hreceived.ackFor_le; omega)
  have hle := hreceived.ackFor_le
  refine ⟨_, hle.trans hfew.le, hcovered, hle.trans hnextSeq.ge, packet,
    hpacket, ?_⟩
  have hrx : (moment T R txAddr rxAddr es (i + 1)).rx =
      R.step (moment T R txAddr rxAddr es i).rx
        (.incoming raw txAddr input) := by
    rw [moment_succ, hdelivery, Link.step, if_pos hmem]
    rfl
  rw [SendsToTx, rxLane, rxLane, hrx]
  exact hanswering.replies _ raw q payload input packet hsound.rx
    (h.healthy i).1.alive.rx hdata hreplies hpacket

include P h in
/-- Everything accepted is completed in the end. -/
theorem Prompt.eventually_completed (hanswering : Answering T R txAddr)
    (hfair : Fair T R txAddr rxAddr es)
    (hcovers : ∀ k q, T.discipline.covers k q → R.discipline.covers k q)
    {q i : ℕ} (hq : q < (txLane T R txAddr rxAddr es i).nextSeq) :
    ∀ᶠ j in atTop, (txLane T R txAddr rxAddr es j).Completed q := by
  induction q using Nat.strong_induction_on with
  | _ q ih =>
      by_contra hno
      have hopen : ∀ j, ¬ (txLane T R txAddr rxAddr es j).Completed q := by
        intro j hj
        exact hno (eventually_atTop.mpr ⟨j, fun k => h.completed_mono hj⟩)
      have hbelow : ∀ᶠ j in atTop, ∀ p ∈ Set.Iio q,
          (txLane T R txAddr rxAddr es j).Completed p :=
        (eventually_all_finite (Set.finite_Iio q)).mpr
          fun p hp => ih p hp (lt_trans hp hq)
      obtain ⟨i₁, hi₁⟩ :=
        eventually_atTop.mp (hbelow.and (eventually_ge_atTop i))
      obtain ⟨hbelow₁, hii₁⟩ := hi₁ i₁ le_rfl
      obtain ⟨i₂, hi₂, hout⟩ := P.enters h hfair
        (hq.trans_le (h.nextSeq_mono hii₁)) hbelow₁ hopen
      obtain ⟨raw, hget⟩ := Dict.mem_keys.mp hout
      -- It reaches the receiver again and again, and is answered.
      have hreaches := hfair.toRx raw (P.sends_again h hfair hcovers hopen hget)
      have hanswered : ∃ᶠ j in atTop, ∃ k, k ≤ 2 ^ 32 ∧
          (T.discipline.covers k q ∧
            k ≤ (txLane T R txAddr rxAddr es j).nextSeq ∧
            ∃ packet, ackPacket k = .ok packet ∧
              SendsToTx T R txAddr rxAddr es packet j) := by
        refine (hreaches.and_eventually (eventually_ge_atTop i₂)).mono ?_
        rintro j ⟨hreach, hj⟩
        exact h.answered hanswering hcovers
          (h.outstanding_mono hopen hget hj)
          (hi₁ j (hi₂.trans hj)).1 hreach
      -- One of the acknowledgements is sent again and again.
      obtain ⟨k, -, hsends⟩ := exists_recurring hanswered
      obtain ⟨j, hj, hcovered, hle, packet, hpacket, -⟩ :=
        exists_of_recurs hsends i₂
      have hback := hfair.toTx packet (hsends.mono fun j' hj' => by
        obtain ⟨-, -, packet', hpacket', hsend⟩ := hj'
        rw [hpacket] at hpacket'
        cases hpacket'
        exact hsend)
      obtain ⟨m, hm, hmem, input, hdelivery⟩ := exists_of_recurs hback j
      have htx : (moment T R txAddr rxAddr es (m + 1)).tx =
          T.step (moment T R txAddr rxAddr es m).tx
            (.incoming packet rxAddr input) := by
        rw [moment_succ, hdelivery, Link.step, if_pos hmem]
        rfl
      have hflies := h.outstanding_mono hopen hget (hj.trans hm)
      have hflies' := h.outstanding_mono hopen hget
        ((hj.trans hm).trans (Nat.le_succ m))
      rw [txLane, htx] at hflies'
      exact P.completes _ packet k input (h.healthy m).2 (P.inv h hcovers m)
        (h.healthy m).1.alive.tx (isAck_of_ackPacket hpacket)
        (hle.trans (h.nextSeq_mono hm)) q
        (Dict.mem_keys.mpr ⟨raw, hflies⟩) hcovered
        (Dict.mem_keys.mpr ⟨raw, hflies'⟩)

include P h in
/-- Everything accepted is delivered in the end, at its own place. -/
theorem Prompt.eventually_delivered (hanswering : Answering T R txAddr)
    (hfair : Fair T R txAddr rxAddr es)
    (hcovers : ∀ k q, T.discipline.covers k q → R.discipline.covers k q)
    {q i : ℕ} {payload : Bytes}
    (hq : (txLane T R txAddr rxAddr es i).handed[q]? = some payload) :
    ∀ᶠ j in atTop, (txLane T R txAddr rxAddr es j).Completed q ∧
      (rxLane T R txAddr rxAddr es j).delivered[q]? = some payload := by
  have hlt : q < (txLane T R txAddr rxAddr es i).nextSeq := by
    rw [txLane, ((h.healthy i).2 rxAddr).nextSeq_eq]
    exact (List.getElem?_eq_some_iff.mp hq).1
  have hall : ∀ᶠ j in atTop, ∀ p ∈ Set.Iic q,
      (txLane T R txAddr rxAddr es j).Completed p :=
    (eventually_all_finite (Set.finite_Iic q)).mpr fun p hp =>
      P.eventually_completed h hanswering hfair hcovers (lt_of_le_of_lt hp hlt)
  filter_upwards [hall, eventually_ge_atTop i] with j hj hij
  refine ⟨hj q (Set.mem_Iic.mpr le_rfl), ?_⟩
  have hsound := h.sound hcovers j
  have hexpected := hsound.receiver.reassembles.le_expected (q := q + 1)
    fun p hp => hsound.completed p (hj p (Set.mem_Iic.mpr (Nat.le_of_lt_succ hp)))
  obtain ⟨payload', hhanded, hdelivered⟩ :=
    hsound.delivered_getElem? hexpected
  obtain ⟨later, hlater⟩ := h.handed_mono hij
  have hsame : (txLane T R txAddr rxAddr es j).handed[q]? = some payload := by
    rw [← hlater]
    rwa [List.getElem?_append_left (List.getElem?_eq_some_iff.mp hq).1]
  rw [txLane, hhanded] at hsame
  rw [rxLane, hdelivered, hsame]

include P h in
/-- Once nothing more is handed over, everything is delivered in the end and
`flush` returns. -/
theorem Prompt.eventually_flushed (hanswering : Answering T R txAddr)
    (hfair : Fair T R txAddr rxAddr es)
    (hcovers : ∀ k q, T.discipline.covers k q → R.discipline.covers k q)
    {i : ℕ} {handed : List Bytes}
    (hlast : ∀ j, i ≤ j → (txLane T R txAddr rxAddr es j).handed = handed) :
    ∀ᶠ j in atTop, (rxLane T R txAddr rxAddr es j).delivered = handed ∧
      ∀ remaining, (T.core (moment T R txAddr rxAddr es j).tx).flush
        (some rxAddr) remaining = .returned := by
  have hlen : (txLane T R txAddr rxAddr es i).nextSeq = handed.length := by
    rw [txLane, ((h.healthy i).2 rxAddr).nextSeq_eq]
    exact congrArg List.length (hlast i le_rfl)
  have hall : ∀ᶠ j in atTop, ∀ p ∈ Set.Iio handed.length,
      (txLane T R txAddr rxAddr es j).Completed p :=
    (eventually_all_finite (Set.finite_Iio _)).mpr fun p hp =>
      P.eventually_completed h hanswering hfair hcovers
        (hlen.symm ▸ Set.mem_Iio.mp hp)
  filter_upwards [hall, eventually_ge_atTop i] with j hj hij
  have hhanded := hlast j hij
  constructor
  · rw [← hhanded]
    apply (h.sound hcovers j).delivered_eq
    intro q hq
    apply hj q
    rwa [← hhanded]
  · intro remaining
    have hpeer : ∀ a, FlushesPeer (some rxAddr) a → a = rxAddr := by
      simp [FlushesPeer, eq_comm]
    apply Endpoint.flush_returned (h.healthy j).2
    · intro a ha
      rw [hpeer a ha]
      exact (h.healthy j).1.lane.unfailed
    · intro a ha
      rw [hpeer a ha]
      refine (h.healthy j).1.lane.not_held_of_completed ((h.healthy j).2 rxAddr)
        fun p hp => ?_
      exact hj p (hp.trans_eq (congrArg List.length hhanded))

include P h in
/-- Everything accepted is delivered in the end. -/
theorem Prompt.delivers_all (hanswering : Answering T R txAddr)
    (hfair : Fair T R txAddr rxAddr es)
    (hcovers : ∀ k q, T.discipline.covers k q → R.discipline.covers k q) :
    DeliversAll T R txAddr rxAddr es where
  delivers _ _ _ hq := P.eventually_delivered h hanswering hfair hcovers hq
  flushes _ _ hlast := P.eventually_flushed h hanswering hfair hcovers hlast

end

/-! ## A flush of all peers -/

/-- Nothing has failed at a peer to which nothing has been handed. -/
theorem CalmRun.unfailed (h : CalmRun T R txAddr rxAddr es)
    (hgives : T.GivesUpOutstanding) {a : Address} {i : ℕ}
    (hnone : (T.lane (moment T R txAddr rxAddr es i).tx a).handed = []) :
    (T.lane (moment T R txAddr rxAddr es i).tx a).error = none := by
  induction i with
  | zero =>
      simp only [moment, stateAt, init, Endpoint.lane, T.lane_init]
  | succ i ih =>
      have hwf := (h.healthy i).2
      rw [moment_succ] at hnone ⊢
      rcases tx_cases T R txAddr rxAddr (moment T R txAddr rxAddr es i) (es i)
        with hsame | ⟨e, -, hstep⟩
      · rw [hsame] at hnone ⊢
        exact ih hnone
      · rw [hstep] at hnone ⊢
        have hlane := hwf.lane_step e a
        have hbefore := List.prefix_nil.mp (hnone ▸ hlane.handed)
        exact hlane.unfailed (hwf a) (hgives _ a) hbefore (ih hbefore)

/-- Once nothing more is handed over, and the receiver is the only peer to which
something has been handed, `flush` of all peers returns in the end. -/
theorem CalmRun.eventually_flush_all (h : CalmRun T R txAddr rxAddr es)
    (hall : DeliversAll T R txAddr rxAddr es) (hgives : T.GivesUpOutstanding)
    {handed : List Bytes}
    (hlast : ∀ᶠ j in atTop, (T.core (moment T R txAddr rxAddr es j).tx).handed =
      handed.map fun data => (data, rxAddr)) :
    ∀ᶠ j in atTop, ∀ remaining,
      (T.core (moment T R txAddr rxAddr es j).tx).flush none remaining =
        .returned := by
  have hlanes : ∀ᶠ j in atTop,
      (txLane T R txAddr rxAddr es j).handed = handed ∧
        ∀ a ≠ rxAddr,
          (T.lane (moment T R txAddr rxAddr es j).tx a).handed = [] := by
    filter_upwards [hlast] with j hj
    constructor
    · change toPeer rxAddr (T.core _).handed = handed
      rw [hj, toPeer_map, if_pos rfl]
    · intro a ha
      change toPeer a (T.core _).handed = []
      rw [hj, toPeer_map, if_neg ha]
  obtain ⟨i, hi⟩ := eventually_atTop.mp hlanes
  have hcompleted : ∀ᶠ j in atTop, ∀ p ∈ Set.Iio handed.length,
      (txLane T R txAddr rxAddr es j).Completed p := by
    refine (eventually_all_finite (Set.finite_Iio _)).mpr fun p hp => ?_
    have hget : (txLane T R txAddr rxAddr es i).handed[p]? = some handed[p] := by
      rw [(hi i le_rfl).1, List.getElem?_eq_getElem hp]
    exact (hall.delivers i p _ hget).mono fun j hj => hj.1
  filter_upwards [hcompleted, eventually_ge_atTop i] with j hj hij
  obtain ⟨hhanded, hothers⟩ := hi j hij
  obtain ⟨hhealthy, hwf⟩ := h.healthy j
  apply Endpoint.flush_returned hwf
  · intro a _
    by_cases ha : a = rxAddr
    · rw [ha]
      exact hhealthy.lane.unfailed
    · exact h.unfailed hgives (hothers a ha)
  · intro a _
    by_cases ha : a = rxAddr
    · rw [ha]
      refine hhealthy.lane.not_held_of_completed (hwf rxAddr) fun p hp => ?_
      exact hj p (hp.trans_eq (congrArg List.length hhanded))
    · exact (hwf a).not_held (hothers a ha)

end Link

end UdpArq
