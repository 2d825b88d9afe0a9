import UdpArq.Channel.Socket
import UdpArq.GoBackN.Refinement
import UdpArq.SelectiveRepeat.Refinement
import UdpArq.Transport.Link
import UdpArq.Transport.Transmission

/-!
# Transports over channel emulators

A transport sends through the `Channel` that it owns, and the real socket passes
on what the delivery thread of the channel hands to it.  Two such stations
behave like a link whose network loses, duplicates, delays, reorders and damages
packets.

Nothing is assumed about acknowledgements here.  The send of an acknowledgement
raises only when the channel has been closed, and then no later one succeeds:
what the receiver has delivered stays as it is, and so does its part of the link.
-/

namespace UdpArq

open UdpArq.Core

/-! ## Stations -/

open Channel

/-- The acknowledgement that the step sends does not raise. -/
def Event.ackReturns : Event → Bool
  | .incoming _ _ input => input.sendResult.isNone
  | _ => true

/-- A transport and the channel that it owns. -/
structure Station {cfg : Config} (E : Endpoint cfg) where
  transport : E.State
  channel : Channel

/-- Payloads are delivered with their acknowledgement. -/
theorem Lane.Step.delivered {cfg : Config} {D : Discipline}
    {fails : SweepInput → Prop} {l l' : Lane} {e : Event}
    (h : Lane.Step cfg D fails l e l') (hwire : l'.wire = l.wire) :
    l'.delivered = l.delivered := by
  cases h with
  | reply =>
      exact absurd (congrArg List.length hwire)
        (by simp [Lane.deliver, Lane.transmit, Lane.advance])
  | close =>
      unfold Lane.close
      split <;> rfl
  | _ => rfl

namespace Station

variable {cfg : Config} {E : Endpoint cfg}

def init : Station E := ⟨E.init, Channel.init⟩

/-- What `channel.sendto` takes in one step of the transport, oldest first. -/
def packets (m : Station E) (e : Event) : List (Bytes × Address) :=
  let log := (E.core (E.step m.transport e)).channel
  (log.take (log.length - (E.core m.transport).channel.length)).reverse

/-- The step can be taken with this channel: a closed one takes nothing; an open
one takes only what fits into a datagram, and always takes an acknowledgement. -/
def Answered (m : Station E) (e : Event) : Prop :=
  if m.channel.closed then
    (E.core (E.step m.transport e)).channel = (E.core m.transport).channel
  else e.ackReturns ∧ ∀ x ∈ m.packets e, x.1.length ≤ MAX_DATAGRAM

instance (m : Station E) (e : Event) : Decidable (m.Answered e) :=
  inferInstanceAs (Decidable (ite _ _ _))

/-- One step of the transport, with the calls of `channel.sendto` that it
makes. -/
def act (p : Emulator) (m : Station E) (e : Event) (nows : ℕ → ℚ) : Station E :=
  if m.Answered e then
    { transport := E.step m.transport e
      channel := run (Channel.step p.impairments p.draws) m.channel
        (calls (m.packets e) nows) }
  else m

/-- A step of the delivery thread, or a part of `channel.close()`. -/
def turn (p : Emulator) (m : Station E) (e : Channel.Event) : Station E :=
  if e.call.isSome then m
  else { m with channel := Channel.step p.impairments p.draws m.channel e }

variable {p : Emulator} {m : Station E}

/-- A channel remembers what the transport hands to it. -/
theorem accepted_act (hwf : E.WellFormed m.transport)
    (h : ∀ x ∈ m.channel.accepted,
      (x.data, x.addr) ∈ (E.core m.transport).channel)
    (e : Event) (nows : ℕ → ℚ) :
    ∀ x ∈ (m.act p e nows).channel.accepted,
      (x.data, x.addr) ∈ (E.core (m.act p e nows).transport).channel := by
  unfold act
  split_ifs with hanswered
  · intro x hx
    rcases mem_accepted_calls p m.channel (m.packets e) nows hx with hold | hnew
    · -- The log of the channel only grows.
      apply mem_toPeer.mp
      apply (hwf.lane_step e x.addr).wire
      exact mem_toPeer.mpr (h x hold)
    · exact List.mem_of_mem_take (List.mem_reverse.mp hnew)
  · exact h

theorem reachable_act (h : Reachable p m.channel) (e : Event) (nows : ℕ → ℚ) :
    Reachable p (m.act p e nows).channel := by
  unfold act
  split_ifs
  · exact h.run _
  · exact h

theorem reachable_turn (h : Reachable p m.channel) (e : Channel.Event) :
    Reachable p (m.turn p e).channel := by
  unfold turn
  split_ifs
  · exact h
  · exact h.run [e]

theorem transport_turn (p : Emulator) (m : Station E) (e : Channel.Event) :
    (m.turn p e).transport = m.transport := by
  unfold turn
  split_ifs <;> rfl

theorem accepted_turn (p : Emulator) (m : Station E) (e : Channel.Event) :
    (m.turn p e).channel.accepted = m.channel.accepted := by
  unfold turn
  split_ifs with hcall
  · rfl
  · exact (idle_step (Option.not_isSome_iff_eq_none.mp hcall) p.impairments
      p.draws m.channel).accepted

theorem open_of_turn {e : Channel.Event}
    (hopen : (m.turn p e).channel.closed = false) :
    m.channel.closed = false := by
  rw [← Bool.not_eq_true]
  intro hclosed
  unfold turn at hopen
  split_ifs at hopen
  · rw [hclosed] at hopen
    cases hopen
  · rw [Channel.closed_step p hclosed e] at hopen
    cases hopen

theorem closed_act (hclosed : m.channel.closed = true) (e : Event)
    (nows : ℕ → ℚ) : (m.act p e nows).channel.closed = true := by
  unfold act
  split_ifs
  · exact run_invariant (fun c : Channel => c.closed = true)
      (fun _ e h => Channel.closed_step p h e) hclosed _
  · exact hclosed

/-- With its channel closed a transport delivers nothing. -/
theorem delivered_act (hwf : E.WellFormed m.transport)
    (hclosed : m.channel.closed = true) (e : Event) (nows : ℕ → ℚ)
    (b : Address) : (E.lane (m.act p e nows).transport b).delivered =
      (E.lane m.transport b).delivered := by
  unfold act
  split_ifs with hanswered
  · rw [Answered, if_pos hclosed] at hanswered
    apply (hwf.lane_step e b).delivered
    exact congrArg (toPeer b) hanswered
  · rfl

end Station

/-! ## Two stations -/

structure EmulatedLink {cfgT cfgR : Config} (T : Endpoint cfgT)
    (R : Endpoint cfgR) where
  tx : Station T
  rx : Station R

/-- The steps of two stations: a transport or a channel acts on its own, or a
transport reads a packet that the socket of the other station has taken. -/
inductive EmulatedEvent
  | tx (e : Event) (nows : ℕ → ℚ)
  | rx (e : Event) (nows : ℕ → ℚ)
  | txChannel (e : Channel.Event)
  | rxChannel (e : Channel.Event)
  | toRx (raw : Bytes) (input : IncomingInput) (nows : ℕ → ℚ)
  | toTx (raw : Bytes) (input : IncomingInput) (nows : ℕ → ℚ)

namespace EmulatedLink

variable {cfgT cfgR : Config} (T : Endpoint cfgT) (R : Endpoint cfgR)
  (txAddr rxAddr : Address) (p q : Emulator)

def init : EmulatedLink T R := ⟨Station.init, Station.init⟩

def step (w : EmulatedLink T R) : EmulatedEvent → EmulatedLink T R
  | .tx e nows =>
      if e.isFrom rxAddr then w else { w with tx := w.tx.act p e nows }
  | .rx e nows =>
      if e.isFrom txAddr then w else { w with rx := w.rx.act q e nows }
  | .txChannel e => { w with tx := w.tx.turn p e }
  | .rxChannel e => { w with rx := w.rx.turn q e }
  | .toRx raw input nows =>
      if w.tx.channel.onWire.contains (raw, rxAddr) then
        { w with rx := w.rx.act q (.incoming raw txAddr input) nows }
      else w
  | .toTx raw input nows =>
      if w.rx.channel.onWire.contains (raw, txAddr) then
        { w with tx := w.tx.act p (.incoming raw rxAddr input) nows }
      else w

/-- Two stations after the events `es`, from fresh transports and channels. -/
def after (es : List EmulatedEvent) : EmulatedLink T R :=
  run (step T R txAddr rxAddr p q) (init T R) es

/-! ## The link that two stations are -/

variable {T R txAddr rxAddr p q}

variable (txAddr p q) in
/-- What the link `n` has in common with the two stations.  The receiver of the
link stops where the channel of the receiver is closed. -/
structure Matches (w : EmulatedLink T R) (n : Link T R) : Prop where
  tx : n.tx = w.tx.transport
  rx : w.rx.channel.closed = false → n.rx = w.rx.transport
  delivered : (R.lane n.rx txAddr).delivered =
    (R.lane w.rx.transport txAddr).delivered
  taken : ∀ x ∈ w.tx.channel.accepted, (x.data, x.addr) ∈ (T.core n.tx).channel
  acked : ∀ x ∈ w.rx.channel.accepted, (x.data, x.addr) ∈ (R.core n.rx).channel
  txWell : T.WellFormed w.tx.transport
  rxWell : R.WellFormed w.rx.transport
  txReachable : Channel.Reachable p w.tx.channel
  rxReachable : Channel.Reachable q w.rx.channel

theorem matches_init :
    Matches txAddr p q (init T R) (Link.init T R) where
  tx := rfl
  rx _ := rfl
  delivered := rfl
  taken x hx := by cases hx
  acked x hx := by cases hx
  txWell := Endpoint.WellFormed.init
  rxWell := Endpoint.WellFormed.init
  txReachable := ⟨[], rfl⟩
  rxReachable := ⟨[], rfl⟩

variable {w : EmulatedLink T R} {n : Link T R}

/-- A step of the sender. -/
theorem Matches.txAct (h : Matches txAddr p q w n)
    {e : Event} (e' : LinkEvent) (nows : ℕ → ℚ)
    (hlink : Link.step T R txAddr rxAddr n e' = ⟨T.step n.tx e, n.rx⟩)
    (hack : Link.AckReturns e') :
    ∃ es, Meets (Link.step T R txAddr rxAddr) (fun _ e => Link.AckReturns e) n es ∧
      Matches txAddr p q
        { w with tx := w.tx.act p e nows }
        (run (Link.step T R txAddr rxAddr) n es) := by
  by_cases hanswered : w.tx.Answered e
  · refine ⟨[e'], by simpa using hack, ?_⟩
    rw [run_cons, run_nil, hlink]
    have hact : (w.tx.act p e nows).transport = T.step w.tx.transport e := by
      rw [Station.act, if_pos hanswered]
    refine ⟨?_, h.rx, h.delivered, ?_, h.acked, ?_, h.rxWell,
      Station.reachable_act h.txReachable e nows, h.rxReachable⟩
    · rw [hact, h.tx]
    · have htaken := h.taken
      rw [h.tx] at htaken ⊢
      rw [← hact]
      exact Station.accepted_act h.txWell htaken e nows
    · rw [hact]
      exact h.txWell.step e
  · refine ⟨[], by simp, ?_⟩
    have hact : w.tx.act p e nows = w.tx := by
      rw [Station.act, if_neg hanswered]
    rw [hact]
    exact h

/-- A step of the receiver. -/
theorem Matches.rxAct (h : Matches txAddr p q w n)
    {e : Event} (e' : LinkEvent) (nows : ℕ → ℚ)
    (hlink : Link.step T R txAddr rxAddr n e' = ⟨n.tx, R.step n.rx e⟩)
    (hack : e.ackReturns → Link.AckReturns e') :
    ∃ es, Meets (Link.step T R txAddr rxAddr) (fun _ e => Link.AckReturns e) n es ∧
      Matches txAddr p q
        { w with rx := w.rx.act q e nows }
        (run (Link.step T R txAddr rxAddr) n es) := by
  by_cases hanswered : w.rx.Answered e
  · have hact : (w.rx.act q e nows).transport = R.step w.rx.transport e := by
      rw [Station.act, if_pos hanswered]
    have hwell : R.WellFormed (w.rx.act q e nows).transport := by
      rw [hact]
      exact h.rxWell.step e
    rcases hclosed : w.rx.channel.closed with _ | _
    · -- The channel is open, and the receiver of the link goes along.
      have hrx := h.rx hclosed
      have hreturns := hanswered
      rw [Station.Answered, hclosed, if_neg Bool.false_ne_true] at hreturns
      refine ⟨[e'], by simpa using hack hreturns.1, ?_⟩
      rw [run_cons, run_nil, hlink]
      refine ⟨h.tx, fun _ => ?_, ?_, h.taken, ?_, h.txWell, hwell,
        h.txReachable, Station.reachable_act h.rxReachable e nows⟩
      · rw [hact, hrx]
      · rw [hact, hrx]
      · have hacked := h.acked
        rw [hrx] at hacked ⊢
        rw [← hact]
        exact Station.accepted_act h.rxWell hacked e nows
    · -- The channel is closed, and nothing more comes of the receiver.
      refine ⟨[], by simp, h.tx, fun hopen => ?_, ?_, h.taken, ?_, h.txWell,
        hwell, h.txReachable, Station.reachable_act h.rxReachable e nows⟩
      · rw [Station.closed_act hclosed e nows] at hopen
        cases hopen
      · exact h.delivered.trans
          (Station.delivered_act h.rxWell hclosed e nows txAddr).symm
      · intro x hx
        have hnone : w.rx.packets e = [] := by
          rw [Station.Answered, hclosed, if_pos rfl] at hanswered
          simp [Station.packets, hanswered]
        rw [Station.act, if_pos hanswered] at hx
        rcases mem_accepted_calls q w.rx.channel (w.rx.packets e) nows hx with
          hold | hnew
        · exact h.acked x hold
        · rw [hnone] at hnew
          cases hnew
  · refine ⟨[], by simp, ?_⟩
    have hact : w.rx.act q e nows = w.rx := by
      rw [Station.act, if_neg hanswered]
    rw [hact]
    exact h

/-- Every step of the stations is a step of the link or none. -/
theorem Matches.step (h : Matches txAddr p q w n) (e : EmulatedEvent) :
    ∃ es, Meets (Link.step T R txAddr rxAddr) (fun _ e => Link.AckReturns e) n es ∧
      Matches txAddr p q (EmulatedLink.step T R txAddr rxAddr p q w e)
        (run (Link.step T R txAddr rxAddr) n es) := by
  have hstay : ∀ w', Matches txAddr p q w' n →
      ∃ es, Meets (Link.step T R txAddr rxAddr) (fun _ e => Link.AckReturns e) n es ∧
        Matches txAddr p q w' (run (Link.step T R txAddr rxAddr) n es) :=
    fun w' h' => ⟨[], trivial, h'⟩
  cases e with
  | tx e nows =>
      simp only [EmulatedLink.step]
      split_ifs with hfrom
      · exact hstay w h
      · refine h.txAct (.tx e) nows ?_ trivial
        rw [Link.step, if_neg hfrom]
  | rx e nows =>
      simp only [EmulatedLink.step]
      split_ifs with hfrom
      · exact hstay w h
      · refine h.rxAct (.rx e) nows ?_ fun _ => trivial
        rw [Link.step, if_neg hfrom]
  | txChannel e =>
      apply hstay
      simp only [EmulatedLink.step]
      refine ⟨?_, h.rx, h.delivered, ?_, h.acked, ?_, h.rxWell,
        Station.reachable_turn h.txReachable e, h.rxReachable⟩
      · rw [Station.transport_turn, h.tx]
      · rw [Station.accepted_turn]
        exact h.taken
      · rw [Station.transport_turn]
        exact h.txWell
  | rxChannel e =>
      apply hstay
      simp only [EmulatedLink.step]
      refine ⟨h.tx, fun hopen => ?_, ?_, h.taken, ?_, h.txWell, ?_,
        h.txReachable, Station.reachable_turn h.rxReachable e⟩
      · rw [Station.transport_turn]
        exact h.rx (Station.open_of_turn hopen)
      · rw [Station.transport_turn, h.delivered]
      · rw [Station.accepted_turn]
        exact h.acked
      · rw [Station.transport_turn]
        exact h.rxWell
  | toRx raw input nows =>
      simp only [EmulatedLink.step]
      split_ifs with hwire
      · obtain ⟨x, hx, flip, heq⟩ :=
          h.txReachable.mem_onWire (List.contains_iff_mem.mp hwire)
        obtain ⟨rfl, haddr⟩ := Prod.mk.inj heq
        have hmem := h.taken x hx
        rw [← haddr] at hmem
        refine h.rxAct (.toRx x.data flip input) nows ?_ fun hreturns =>
          Option.isNone_iff_eq_none.mp hreturns
        rw [Link.step, if_pos hmem]
      · exact hstay w h
  | toTx raw input nows =>
      simp only [EmulatedLink.step]
      split_ifs with hwire
      · obtain ⟨x, hx, flip, heq⟩ :=
          h.rxReachable.mem_onWire (List.contains_iff_mem.mp hwire)
        obtain ⟨rfl, haddr⟩ := Prod.mk.inj heq
        have hmem := h.acked x hx
        rw [← haddr] at hmem
        refine h.txAct (.toTx x.data flip input) nows ?_ trivial
        rw [Link.step, if_pos hmem]
      · exact hstay w h

variable (txAddr rxAddr) in
/-- What the receiver has delivered is a prefix of what the sender accepted for
it, and all of it once everything is completed without an error. -/
def Transfers (m : Station T) (m' : Station R) : Prop :=
  let handed := toPeer rxAddr (T.core m.transport).handed
  let delivered := toPeer txAddr (R.core m'.transport).incomingData.puts
  handed.length < 2 ^ 32 → delivered <+: handed ∧
    ((∀ s < handed.length, (T.lane m.transport rxAddr).Completed s) →
      delivered = handed)

variable (T R txAddr rxAddr p q) in
theorem transfers
    (hcovers : ∀ k s, T.discipline.covers k s → R.discipline.covers k s)
    (es : List EmulatedEvent) :
    Transfers txAddr rxAddr (after T R txAddr rxAddr p q es).tx
      (after T R txAddr rxAddr p q es).rx := by
  intro hfew
  obtain ⟨es', hacks, hmatches⟩ :=
    @exists_run_of_matched _ _ (step T R txAddr rxAddr p q) _ _ _
      (Matches txAddr p q) _ (fun w n e h => h.step e) _ _ matches_init es
  have htx : (Link.after T R txAddr rxAddr es').tx =
      (after T R txAddr rxAddr p q es).tx.transport := hmatches.tx
  have hdelivered : (R.lane (Link.after T R txAddr rxAddr es').rx
      txAddr).delivered = toPeer txAddr (R.core
        (after T R txAddr rxAddr p q es).rx.transport).incomingData.puts :=
    hmatches.delivered
  have hsound : Link.Sound T R txAddr rxAddr
      (Link.after T R txAddr rxAddr es') :=
    Link.sound_after hcovers hacks.forall (by rw [htx]; exact hfew)
  have hpre := hsound.delivered_prefix
  have hall := hsound.delivered_eq
  rw [htx, hdelivered] at hpre hall
  exact ⟨hpre, hall⟩

/-! ## The other direction -/

/-- The two stations, with the receiver in the place of the sender. -/
def swap (w : EmulatedLink T R) : EmulatedLink R T := ⟨w.rx, w.tx⟩

end EmulatedLink

def EmulatedEvent.swap : EmulatedEvent → EmulatedEvent
  | .tx e nows => .rx e nows
  | .rx e nows => .tx e nows
  | .txChannel e => .rxChannel e
  | .rxChannel e => .txChannel e
  | .toRx raw input nows => .toTx raw input nows
  | .toTx raw input nows => .toRx raw input nows

namespace EmulatedLink

variable {cfgT cfgR : Config} {T : Endpoint cfgT} {R : Endpoint cfgR}

theorem swap_step (txAddr rxAddr : Address) (p q : Emulator)
    (w : EmulatedLink T R) (e : EmulatedEvent) :
    (step T R txAddr rxAddr p q w e).swap =
      step R T rxAddr txAddr q p w.swap e.swap := by
  cases e with
  | txChannel e => rfl
  | rxChannel e => rfl
  | tx e nows =>
      simp only [step, EmulatedEvent.swap]
      exact apply_ite swap _ _ _
  | rx e nows =>
      simp only [step, EmulatedEvent.swap]
      exact apply_ite swap _ _ _
  | toRx raw input nows =>
      simp only [step, EmulatedEvent.swap]
      exact apply_ite swap _ _ _
  | toTx raw input nows =>
      simp only [step, EmulatedEvent.swap]
      exact apply_ite swap _ _ _

/-- Two stations treat both directions alike. -/
theorem swap_after (txAddr rxAddr : Address) (p q : Emulator)
    (es : List EmulatedEvent) :
    (after T R txAddr rxAddr p q es).swap =
      after R T rxAddr txAddr q p (es.map EmulatedEvent.swap) := by
  induction es using List.reverseRecOn with
  | nil => rfl
  | append_singleton es e ih =>
      rw [List.map_append, List.map_singleton, after, after, run_concat,
        run_concat, swap_step]
      exact congrArg (step R T rxAddr txAddr q p · e.swap) ih

theorem transfers_back (txAddr rxAddr : Address) (p q : Emulator)
    (hcovers : ∀ k s, R.discipline.covers k s → T.discipline.covers k s)
    (es : List EmulatedEvent) :
    Transfers rxAddr txAddr (after T R txAddr rxAddr p q es).rx
      (after T R txAddr rxAddr p q es).tx := by
  have hback := transfers R T rxAddr txAddr q p hcovers
    (es.map EmulatedEvent.swap)
  rw [← swap_after] at hback
  exact hback

end EmulatedLink

/-- Whatever the settings of the two emulators, their draws, the clocks and the
order of all steps, each station delivers a prefix of the payloads that the
other one has accepted for it, and all of them once they are completed. -/
theorem emulated_transfers (cfgT cfgR : Config) (txAddr rxAddr : Address)
    (p q : Channel.Emulator) (es : List EmulatedEvent) :
    (let w := EmulatedLink.after (GoBackNTransport.endpoint cfgT)
       (GoBackNTransport.endpoint cfgR) txAddr rxAddr p q es
     EmulatedLink.Transfers txAddr rxAddr w.tx w.rx ∧
       EmulatedLink.Transfers rxAddr txAddr w.rx w.tx) ∧
    (let w := EmulatedLink.after (SelectiveRepeatTransport.endpoint cfgT)
       (SelectiveRepeatTransport.endpoint cfgR) txAddr rxAddr p q es
     EmulatedLink.Transfers txAddr rxAddr w.tx w.rx ∧
       EmulatedLink.Transfers rxAddr txAddr w.rx w.tx) := by
  constructor
  · constructor
    · apply EmulatedLink.transfers
      exact fun _ _ h => h
    · apply EmulatedLink.transfers_back
      exact fun _ _ h => h
  · constructor
    · apply EmulatedLink.transfers
      exact fun _ _ h => h
    · apply EmulatedLink.transfers_back
      exact fun _ _ h => h

/-- A channel that holds every packet back for a second and delivers it
twice. -/
def exampleEmulator : Channel.Emulator where
  impairments := { delay := 1, duplication := 1, valid := by decide +kernel }
  draws _ := Channel.Draw.sixteenths 8

/-- One datagram and its acknowledgement, each of which arrives twice. -/
def exampleEmulatedRun (rxAddr : Address) (data : Bytes) : List EmulatedEvent :=
  let packet := (Core.dataPacket 0 data).toOption.getD []
  let ack := (Core.ackPacket 1).toOption.getD []
  [.tx (.sendto data rxAddr) fun _ => 0, .tx .drain fun _ => 0,
    .tx (.pump rxAddr ⟨0, 0, none⟩) fun _ => 0,
    .txChannel (.wake 1 false), .txChannel (.wake 1 false),
    .toRx packet ⟨1, 1, none⟩ fun _ => 1, .toRx packet ⟨1, 1, none⟩ fun _ => 1,
    .rxChannel (.wake 2 false), .toTx ack ⟨2, 2, none⟩ fun _ => 2]

/-- The second copy changes nothing, and what the sender considers delivered has
been delivered. -/
theorem emulated_transfers_exampleEmulatedRun :
    let w := EmulatedLink.after (SelectiveRepeatTransport.endpoint {})
      (SelectiveRepeatTransport.endpoint {}) ("a", 1) ("b", 2) exampleEmulator
      exampleEmulator (exampleEmulatedRun ("b", 2) [7])
    toPeer ("b", 2) w.tx.transport.handed = [[7]] ∧
      toPeer ("a", 1) w.rx.transport.incomingData.puts =
        toPeer ("b", 2) w.tx.transport.handed := by
  intro w
  refine ⟨by decide +kernel, ?_⟩
  exact ((emulated_transfers {} {} ("a", 1) ("b", 2) exampleEmulator
    exampleEmulator (exampleEmulatedRun ("b", 2) [7])).2.1
      (by decide +kernel)).2 (by decide +kernel)

end UdpArq
