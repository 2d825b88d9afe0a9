import UdpArq.Transport.Link
import UdpArq.Transport.Loop
import UdpArq.Transport.Tracking
import UdpArq.Transport.Transmission
import UdpArq.Windowed.Deadlock
import UdpArq.Windowed.Flush

/-!
# Steps in which nothing fails

In a calm step of a link neither thread dies, no acknowledgement raises, and the
sender marks no datagram of the receiver failed.  As long as all steps are calm,
every datagram is completed or held, and a datagram that waits behind completed
ones only is the next one to be sent.
-/

namespace UdpArq

open UdpArq.Core

namespace Lane

variable {cfg : Config} {D : Discipline} {fails : SweepInput → Prop}
  {l l' : Lane} {e : Event}

/-- A sender on which nothing has failed. -/
structure Healthy (cfg : Config) (l : Lane) : Prop where
  alive : l.crashed = false
  tracked : l.Tracked
  settles : l.Settles
  clean : ∀ q, (l.status q).error = none
  unfailed : l.error = none
  opened : ∃ lo n, l.Open cfg lo n

theorem healthy_fresh (cfg : Config) (addr : Address) :
    Healthy cfg ({ peer := addr } : Lane) where
  alive := rfl
  tracked := by simp [Tracked]
  settles := by simp [Settles]
  clean _ := rfl
  unfailed := rfl
  opened := ⟨0, 0, ⟨rfl, le_rfl, fun _ => rfl, by simp⟩, by simp, by simp⟩

/-- What blocks the lane marks something failed. -/
theorem Blocks.marks (h : l.Blocks cfg fails e) : l.Marks cfg fails e := by
  cases e with
  | pump addr input =>
      obtain ⟨haddr, hsend, -, seq, item, hnext, -⟩ := h
      exact ⟨haddr, by simp [hnext], hsend⟩
  | timeouts input => exact h.1
  | _ => exact h.elim

theorem Healthy.step (h : l.Healthy cfg) (hwf : l.WellFormed)
    (hstep : Step cfg D fails l e l') (hcalm : ¬ l.Marks cfg fails e)
    (halive : l'.crashed = false)
    (hfit : ∀ input seq item, e = .pump l.peer input →
      l.nextToSend cfg = some (seq, item) →
        ∃ packet, dataPacket seq item.data = .ok packet) :
    l'.Healthy cfg where
  alive := halive
  tracked := h.tracked.step hwf hstep hfit
  settles := by
    apply h.settles.step hwf hstep
    rintro rfl
    exact hcalm trivial
  clean q := by
    by_contra hne
    rcases hstep.error hne with hold | hmarks
    · exact hold (h.clean q)
    · exact hcalm hmarks
  unfailed := by
    cases hstep with
    | accept => rfl
    | giveUp _ hfails => exact absurd hfails hcalm
    | close => exact absurd trivial hcalm
    | _ => exact h.unfailed
  opened := Open.step (fun _ => h.opened) hwf hstep
    (fun hblocks => hcalm hblocks.marks) halive

/-- A datagram is completed once its event is set. -/
theorem Healthy.completed_iff (h : l.Healthy cfg) {q : ℕ} :
    l.Completed q ↔ (l.status q).event = true :=
  ⟨fun hq => hq.1, fun hq => ⟨hq, h.clean q⟩⟩

/-- What is assigned and not completed is held. -/
theorem Healthy.held (h : l.Healthy cfg) {q : ℕ} (hq : q < l.nextSeq)
    (hopen : ¬ l.Completed q) : l.Held q := by
  rcases h.tracked q hq with hset | hheld
  · exact absurd (h.completed_iff.mpr hset) hopen
  · exact hheld

theorem Healthy.not_held (h : l.Healthy cfg) {q : ℕ} (hq : l.Completed q) :
    ¬ l.Held q :=
  (h.settles q hq.1).2

/-- A datagram that waits behind completed ones only is the first one that
waits, and nothing is in flight. -/
theorem Healthy.first (h : l.Healthy cfg) (hwf : l.WellFormed) {q : ℕ}
    (hwaits : q ∈ l.waiting) (hbelow : ∀ p < q, l.Completed p) :
    l.outstanding.keys = [] ∧ ∀ lo n, l.Span lo n → lo = q := by
  have hfirst : ∀ lo n, l.Span lo n → lo = q := by
    intro lo n hspan
    rw [hspan.waiting_eq, List.mem_range'_1] at hwaits
    by_contra hne
    have hlt : lo < q := lt_of_le_of_ne hwaits.1 hne
    apply h.not_held (hbelow lo hlt)
    right
    rw [hspan.waiting_eq, List.mem_range'_1]
    omega
  refine ⟨?_, hfirst⟩
  obtain ⟨lo, n, hspan⟩ := hwf.span
  rw [List.eq_nil_iff_forall_not_mem]
  intro p hp
  have hlt : p < q := hfirst lo n hspan ▸ hspan.outstanding_lt p hp
  exact h.not_held (hbelow p hlt) (Or.inl hp)

/-- Such a datagram can be sent as soon as it is in `_pending`. -/
theorem Healthy.nextToSend (h : l.Healthy cfg) (hwf : l.WellFormed) {q : ℕ}
    (hpending : q ∈ l.pending.keys) (hbelow : ∀ p < q, l.Completed p) :
    ∃ item, l.nextToSend cfg = some (q, item) := by
  obtain ⟨hnil, hfirst⟩ :=
    h.first hwf (List.mem_append_left _ hpending) hbelow
  obtain ⟨lo, n, hopen⟩ := h.opened
  rcases hnext : l.nextToSend cfg with _ | ⟨seq, item⟩
  · rw [hopen.pending_eq_nil hwf hnext hnil] at hpending
    cases hpending
  · have hseq : seq = lo := (hopen.span.next hnext).1
    rw [hseq, hfirst lo n hopen.span]
    exact ⟨item, rfl⟩

theorem pending_ne_erase {q : ℕ} {item : Item}
    (hnext : l.nextToSend cfg = some (q, item)) :
    l.pending.erase q ≠ l.pending := by
  intro heq
  have hget := congrArg (fun d => d.get? q) heq
  simp [pending_of_nextToSend hnext] at hget

/-- A pump that takes the next datagram out and leaves the thread alive has
encoded it. -/
theorem Step.pump_encodes {input : PumpInput} {q : ℕ} {item : Item}
    (h : Step cfg D fails l (.pump l.peer input) l')
    (halive : l'.crashed = false) (hnext : l.nextToSend cfg = some (q, item))
    (hpopped : l'.pending = l.pending.erase q) :
    ∃ packet, dataPacket q item.data = .ok packet := by
  generalize he : Event.pump l.peer input = e at h
  cases h with
  | idle => exact absurd hpopped.symm (pending_ne_erase hnext)
  | crash => cases halive
  | @send _ _ _ packet hnext' hpacket =>
      rw [hnext] at hnext'
      cases hnext'
      exact ⟨packet, hpacket⟩
  | @unsent _ _ _ packet _ hnext' hpacket =>
      rw [hnext] at hnext'
      cases hnext'
      exact ⟨packet, hpacket⟩
  | unencodable => cases halive
  | _ => cases he

/-- If it fails nothing, the datagram is in the window. -/
theorem Step.pump_outstanding {input : PumpInput} {q : ℕ} {item : Item}
    (h : Step cfg D fails l (.pump l.peer input) l')
    (hcalm : ¬ l.Marks cfg fails (.pump l.peer input))
    (halive : l'.crashed = false) (hnext : l.nextToSend cfg = some (q, item))
    (hpopped : l'.pending = l.pending.erase q) : q ∈ l'.outstanding.keys := by
  generalize he : Event.pump l.peer input = e at h hcalm
  cases h with
  | idle => exact absurd hpopped.symm (pending_ne_erase hnext)
  | crash => cases halive
  | send hnext' =>
      rw [hnext] at hnext'
      cases hnext'
      exact Dict.mem_keys_set.mpr (Or.inl rfl)
  | unsent hnext' _ hraise =>
      exact absurd ⟨rfl, by simp [hnext'], by simp [hraise]⟩ hcalm
  | unencodable => cases halive
  | _ => cases he

/-- What leaves the window is completed or marked failed, and what stays keeps
its packet. -/
theorem Step.outstanding_get? (h : Step cfg D fails l e l') (hwf : l.WellFormed)
    {q : ℕ} {raw : Bytes} (hget : l.outstanding.get? q = some raw)
    (hq : q ∈ l'.outstanding.keys) : l'.outstanding.get? q = some raw := by
  have hout : q ∈ l.outstanding.keys := Dict.mem_keys.mpr ⟨raw, hget⟩
  have hnew : ∀ {seq item}, l.nextToSend cfg = some (seq, item) → q ≠ seq := by
    rintro seq item hnext rfl
    exact hwf.disjoint.2 q hout (mem_waiting_of_nextToSend hnext)
  cases h with
  | send hnext => simpa [transmit, launch, Lane.popPending, hnew hnext]
  | unsent hnext =>
      simpa [discard, launch, Lane.popPending, hnew hnext]
  | giveUp => cases hq
  | @ack _ _ n base seqs =>
      obtain ⟨x, hx⟩ := Dict.mem_keys.mp hq
      simp only [slideTo, Lane.complete, Dict.get?_eraseAll] at hx ⊢
      split_ifs at hx ⊢ with hmem
      exact hget
  | close =>
      unfold Lane.close
      split <;> exact hget
  | _ => exact hget

/-- What waits in `_pending` stays there until it enters the window, unless
something fails. -/
theorem Step.pending_or_outstanding (h : Step cfg D fails l e l')
    (hcalm : ¬ l.Marks cfg fails e) (halive : l'.crashed = false) {q : ℕ}
    (hq : q ∈ l.pending.keys) :
    q ∈ l'.pending.keys ∨ q ∈ l'.outstanding.keys := by
  cases h with
  | register => exact Or.inl (Dict.mem_keys_set.mpr (Or.inr hq))
  | registerCrash => cases halive
  | @send _ seq =>
      by_cases hseq : q = seq
      · exact Or.inr (Dict.mem_keys_set.mpr (Or.inl hseq))
      · exact Or.inl (Dict.mem_keys_erase.mpr ⟨hq, hseq⟩)
  | unsent hnext _ hraise =>
      exact absurd ⟨rfl, by simp [hnext], by simp [hraise]⟩ hcalm
  | unencodable => cases halive
  | giveUp _ hfails => exact absurd hfails hcalm
  | close => exact absurd trivial hcalm
  | _ => exact Or.inl hq

/-- What is in flight stays in flight until it is completed. -/
theorem Healthy.outstanding_step (h' : l'.Healthy cfg) (hwf : l.WellFormed)
    (hstep : Step cfg D fails l e l') {q : ℕ}
    (hq : q ∈ l.outstanding.keys) (hopen : ¬ l'.Completed q) :
    q ∈ l'.outstanding.keys := by
  have hlt : q < l.nextSeq := lt_nextSeq_of_held hwf (Or.inl hq)
  rcases h'.held (hlt.trans_le hstep.nextSeq_le) hopen with hout | hwaits
  · exact hout
  · rcases hstep.waiting hwf hwaits with hold | hnew
    · exact absurd hold (hwf.disjoint.2 q hq)
    · exact absurd hnew hlt.ne

/-- A receiving half that has everything below `q` does not expect less. -/
theorem Reassembles.le_expected {window q : ℕ} {handed : List Bytes}
    (h : l.Reassembles window handed) (hall : ∀ p < q, l.Has p) :
    q ≤ l.expected := by
  by_contra hlt
  rcases hall l.expected (not_le.mp hlt) with hself | hbuffer
  · exact lt_irrefl _ hself
  · obtain ⟨payload, hget⟩ := Dict.mem_keys.mp hbuffer
    exact lt_irrefl _ (h.buffered _ payload hget).1

/-- When everything handed over is completed, nothing is held. -/
theorem Healthy.not_held_of_completed (h : l.Healthy cfg) (hwf : l.WellFormed)
    (hall : ∀ p < l.handed.length, l.Completed p) (q : ℕ) : ¬ l.Held q := by
  intro hheld
  have hlt := lt_nextSeq_of_held hwf hheld
  rw [hwf.nextSeq_eq] at hlt
  exact h.not_held (hall q hlt) hheld

/-- A lane to which nothing has been handed holds nothing. -/
theorem WellFormed.not_held (hwf : l.WellFormed) (hnone : l.handed = [])
    (q : ℕ) : ¬ l.Held q := by
  intro hheld
  have hlt := lt_nextSeq_of_held hwf hheld
  rw [hwf.nextSeq_eq, hnone] at hlt
  exact Nat.not_lt_zero q hlt

/-- Such a lane is not given up, as long as a peer is given up for outstanding
packets only. -/
theorem Step.unfailed (h : Step cfg D fails l e l') (hwf : l.WellFormed)
    (hfails : ∀ input, fails input → l.outstanding.keys ≠ [])
    (hnone : l.handed = []) (herror : l.error = none) : l'.error = none := by
  cases h with
  | accept => rfl
  | giveUp _ hgiven =>
      refine absurd (List.eq_nil_iff_forall_not_mem.mpr ?_) (hfails _ hgiven)
      exact fun q hq => hwf.not_held hnone q (Or.inl hq)
  | close =>
      unfold Lane.close
      split_ifs
      · exact herror
      · exact herror
  | _ => exact herror

/-- A completed datagram stays completed. -/
theorem Healthy.completed_step (h' : l'.Healthy cfg)
    (hstep : Step cfg D fails l e l') {q : ℕ} (hq : l.Completed q) :
    l'.Completed q :=
  h'.completed_iff.mpr (hstep.event hq.1)

end Lane

/-! ## Calm steps of an endpoint -/

namespace Endpoint

variable {cfg : Config} {E : Endpoint cfg}

theorem lane_crashed {s : E.State} (h : (E.core s).crashed = none)
    (addr : Address) : (E.lane s addr).crashed = false := by
  simp [Endpoint.lane, Core.lane, h]

variable (E) in
/-- A peer is given up only while packets of it are outstanding. -/
def GivesUpOutstanding : Prop :=
  ∀ s a input, E.PeerFails s a input → (E.lane s a).outstanding.keys ≠ []

/-- When nothing of the peers that `flush` waits for is held and none of them
has an error, it returns. -/
theorem flush_returned {s : E.State} {addr : Option Address}
    (hwf : E.WellFormed s)
    (herror : ∀ a, FlushesPeer addr a → (E.lane s a).error = none)
    (hidle : ∀ a, FlushesPeer addr a → ∀ q, ¬ (E.lane s a).Held q)
    (remaining : ℚ) : (E.core s).flush addr remaining = .returned := by
  have hpeer : ∀ a ∈ (E.core s).flushAddrs addr, FlushesPeer addr a := by
    intro a ha
    cases addr with
    | none => exact Or.inl rfl
    | some b => exact Or.inr (congrArg some (List.mem_singleton.mp ha).symm)
  have hpending : ∀ a, FlushesPeer addr a →
      sub (E.core s).pending a = ∅ := by
    intro a ha
    rw [Dict.eq_empty_iff, List.eq_nil_iff_forall_not_mem]
    exact fun q hq => hidle a ha q (Or.inr (List.mem_append_left _ hq))
  have hsent : ∀ a, FlushesPeer addr a → sub (E.core s).sentItems a = ∅ := by
    intro a ha
    rw [Dict.eq_empty_iff, List.eq_nil_iff_forall_not_mem]
    exact fun q hq =>
      hidle a ha q (Or.inl (((hwf a).labelled.keys q).mp hq))
  have houtbound : (if addr = none then (E.core s).outbound else []) = [] := by
    split_ifs with hall
    · rw [List.eq_nil_iff_forall_not_mem]
      intro item hitem
      apply hidle item.addr (Or.inl hall) item.seq
      refine Or.inr (List.mem_append_right _ (List.mem_map_of_mem ?_))
      exact List.mem_filter.mpr ⟨hitem, by simp⟩
    · rfl
  have hitems : (E.core s).flushItems addr = [] := by
    rw [flushItems, houtbound, List.append_nil, List.flatMap_eq_nil_iff]
    intro a ha
    rw [hpending a (hpeer a ha), hsent a (hpeer a ha)]
    rfl
  rw [flush_eq_returned_iff, flushErrors, hitems]
  refine ⟨?_, rfl⟩
  rw [List.filterMap_nil, List.append_nil, List.filterMap_eq_nil_iff]
  exact fun a ha => herror a (hpeer a ha)

/-- A calm step keeps a lane healthy. -/
theorem healthy_step {s : E.State} {addr : Address} {e : Event}
    (hwf : E.WellFormed s) (h : (E.lane s addr).Healthy cfg)
    (hrun : (E.core s).crashed = none)
    (hrun' : (E.core (E.step s e)).crashed = none)
    (hcalm : ¬ (E.lane s addr).Marks cfg (E.PeerFails s addr) e) :
    (E.lane (E.step s e) addr).Healthy cfg := by
  apply h.step (hwf addr) (hwf.lane_step e addr) hcalm (lane_crashed hrun' addr)
  rintro input seq item rfl hnext
  exact (hwf.lane_step _ addr).pump_encodes (lane_crashed hrun' addr) hnext
    (E.pump_pending s addr input seq item hrun hnext)

end Endpoint

/-! ## Calm steps of a link -/

namespace Link

variable {cfgT cfgR : Config} (T : Endpoint cfgT) (R : Endpoint cfgR)
  (txAddr rxAddr : Address)

/-- Both background threads are alive. -/
structure Alive (n : Link T R) : Prop where
  tx : (T.core n.tx).crashed = none
  rx : (R.core n.rx).crashed = none

/-- Nothing fails in this step. -/
structure Calm (n : Link T R) (e : LinkEvent) : Prop where
  replies : AckReturns e
  undisturbed : Undisturbed T R rxAddr n e
  alive : Alive T R (step T R txAddr rxAddr n e)

variable {T R txAddr rxAddr}

theorem Calm.not_marks {n : Link T R} {e : LinkEvent}
    (h : Calm T R txAddr rxAddr n e) {e' : Event}
    (he : txEvent T R txAddr rxAddr n e = some e') :
    ¬ (T.lane n.tx rxAddr).Marks cfgT (T.PeerFails n.tx rxAddr) e' := by
  cases e with
  | tx e =>
      simp only [txEvent, Option.ite_none_left_eq_some, Option.some.injEq] at he
      obtain ⟨-, rfl⟩ := he
      exact h.undisturbed
  | rx e => cases he
  | toRx raw flip input => cases he
  | toTx raw flip input =>
      simp only [txEvent, Option.ite_none_right_eq_some, Option.some.injEq] at he
      obtain ⟨-, rfl⟩ := he
      exact id

/-- A step of a link is no step of the sender, or one of its events. -/
theorem tx_cases (T : Endpoint cfgT) (R : Endpoint cfgR)
    (txAddr rxAddr : Address) (n : Link T R) (e : LinkEvent) :
    (step T R txAddr rxAddr n e).tx = n.tx ∨
      ∃ e', txEvent T R txAddr rxAddr n e = some e' ∧
        (step T R txAddr rxAddr n e).tx = T.step n.tx e' := by
  rw [tx_step]
  cases txEvent T R txAddr rxAddr n e with
  | none => exact Or.inl rfl
  | some e' => exact Or.inr ⟨e', rfl, rfl⟩

/-- What the endpoints are as long as all steps are calm. -/
structure Healthy (rxAddr : Address) (n : Link T R) : Prop where
  alive : Alive T R n
  lane : (T.lane n.tx rxAddr).Healthy cfgT

theorem alive_init : Alive T R (init T R) where
  tx := by
    have hlane := congrArg Lane.crashed (T.lane_init ("", 0))
    simpa [init, Core.lane] using hlane
  rx := by
    have hlane := congrArg Lane.crashed (R.lane_init ("", 0))
    simpa [init, Core.lane] using hlane

theorem healthy_init : Healthy rxAddr (init T R) where
  alive := alive_init
  lane := by
    simp only [init, Endpoint.lane, T.lane_init]
    exact Lane.healthy_fresh cfgT rxAddr

/-- A property of the sender that its calm steps keep is kept by the calm steps
of the link. -/
theorem Calm.keeps {n : Link T R} {e : LinkEvent}
    (h : Calm T R txAddr rxAddr n e) (halive : Alive T R n)
    {P : T.State → Prop} (hP : P n.tx)
    (hstep : ∀ e', ¬ (T.lane n.tx rxAddr).Marks cfgT (T.PeerFails n.tx rxAddr)
      e' → (T.core n.tx).crashed = none →
        (T.core (T.step n.tx e')).crashed = none → P (T.step n.tx e')) :
    P (step T R txAddr rxAddr n e).tx := by
  rcases tx_cases T R txAddr rxAddr n e with hsame | ⟨e', he, htx⟩
  · rwa [hsame]
  · rw [htx]
    apply hstep e' (h.not_marks he) halive.tx
    rw [← htx]
    exact h.alive.tx

theorem Healthy.step {n : Link T R} (h : Healthy rxAddr n)
    (hwf : T.WellFormed n.tx) {e : LinkEvent}
    (hcalm : Calm T R txAddr rxAddr n e) :
    Healthy rxAddr (step T R txAddr rxAddr n e) where
  alive := hcalm.alive
  lane :=
    hcalm.keeps (P := fun s => (T.lane s rxAddr).Healthy cfgT) h.alive h.lane
      fun _ hmarks hrun hrun' =>
        Endpoint.healthy_step hwf h.lane hrun hrun' hmarks

end Link

end UdpArq
