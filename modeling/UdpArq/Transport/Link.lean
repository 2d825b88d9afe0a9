import UdpArq.Transport.Effects
import UdpArq.Transport.Endpoint

/-!
# A sender and a receiver over an unreliable network

Two endpoints whose packets travel over a network that never forgets: the
packets handed to `channel.sendto` stay in the log of the sender, and the
network may deliver a copy of any of them at any time, any number of times,
intact or with one bit flipped.  Loss, duplication, delay and reordering are the
choices of which copies are delivered and when.

Nothing else is restricted.  Both endpoints may send, talk to other peers, fail
and close, and every call of `channel.sendto` may raise.
-/

namespace UdpArq

/-- The event is the arrival of a packet from `addr`. -/
def Event.isFrom (addr : Address) : Event → Bool
  | .incoming _ a _ => decide (a = addr)
  | _ => false

structure Link {cfgT cfgR : Config} (T : Endpoint cfgT) (R : Endpoint cfgR) where
  tx : T.State
  rx : R.State

/-- The steps of a link: an endpoint acts on its own, or the network delivers a
copy of a packet from the sender or of one from the receiver. -/
inductive LinkEvent
  | tx (e : Event)
  | rx (e : Event)
  | toRx (raw : Bytes) (flip : Option ℕ) (input : IncomingInput)
  | toTx (raw : Bytes) (flip : Option ℕ) (input : IncomingInput)

namespace Link

variable {cfgT cfgR : Config} (T : Endpoint cfgT) (R : Endpoint cfgR)
  (txAddr rxAddr : Address)

def init : Link T R := ⟨T.init, R.init⟩

def step (n : Link T R) : LinkEvent → Link T R
  | .tx e => if e.isFrom rxAddr then n else ⟨T.step n.tx e, n.rx⟩
  | .rx e => if e.isFrom txAddr then n else ⟨n.tx, R.step n.rx e⟩
  | .toRx raw flip input =>
      if (raw, rxAddr) ∈ (T.core n.tx).channel then
        ⟨n.tx, R.step n.rx (.incoming (corrupt raw flip) txAddr input)⟩
      else n
  | .toTx raw flip input =>
      if (raw, txAddr) ∈ (R.core n.rx).channel then
        ⟨T.step n.tx (.incoming (corrupt raw flip) rxAddr input), n.rx⟩
      else n

/-- The link after the events `es`, from fresh endpoints. -/
def after (es : List LinkEvent) : Link T R :=
  run (step T R txAddr rxAddr) (init T R) es

/-- The step that the sender takes in an event of the link. -/
def txEvent (n : Link T R) : LinkEvent → Option Event
  | .tx e => if e.isFrom rxAddr then none else some e
  | .rx _ => none
  | .toRx _ _ _ => none
  | .toTx raw flip input =>
      if (raw, txAddr) ∈ (R.core n.rx).channel then
        some (.incoming (corrupt raw flip) rxAddr input)
      else none

theorem tx_step (n : Link T R) (e : LinkEvent) :
    (step T R txAddr rxAddr n e).tx =
      (txEvent T R txAddr rxAddr n e).elim n.tx (T.step n.tx) := by
  cases e with
  | tx e =>
      simp only [step, txEvent]
      split <;> rfl
  | rx e =>
      simp only [step, txEvent]
      split <;> rfl
  | toRx raw flip input =>
      simp only [step, txEvent]
      split <;> rfl
  | toTx raw flip input =>
      simp only [step, txEvent]
      split <;> rfl

/-- A short run: one datagram reaches the receiver in a damaged copy and then
intact, and its acknowledgement comes back. -/
def exampleRun (rxAddr : Address) (data : Bytes) : List LinkEvent :=
  let packet := (Core.dataPacket 0 data).toOption.getD []
  let ack := (Core.ackPacket 1).toOption.getD []
  [.tx (.sendto data rxAddr), .tx .drain, .tx (.pump rxAddr ⟨0, 0, none⟩),
    .toRx packet (some 3) ⟨0, 0, none⟩, .toRx packet none ⟨0, 0, none⟩,
    .toTx ack none ⟨0, 0, none⟩]

/-- What relates the two lanes of a link. -/
structure Sound (n : Link T R) : Prop where
  tx : T.WellFormed n.tx
  rx : R.WellFormed n.rx
  receiver : (R.lane n.rx txAddr).Acknowledges R.discipline
    (T.lane n.tx rxAddr).handed
  completed : ∀ q, (T.lane n.tx rxAddr).Completed q →
    (R.lane n.rx txAddr).Has q

variable {T R txAddr rxAddr}

theorem sound_init : Sound T R txAddr rxAddr (init T R) where
  tx := Endpoint.WellFormed.init
  rx := Endpoint.WellFormed.init
  receiver := by
    simp only [init, Endpoint.lane, R.lane_init, T.lane_init]
    exact ⟨⟨rfl, le_rfl, by simp⟩, by simp⟩
  completed := by
    intro q hq
    simp [init, Endpoint.lane, T.lane_init, Lane.Completed] at hq

/-- A step of the sender keeps the link sound, provided that the
acknowledgements that it handles cover nothing but what the receiver has. -/
theorem Sound.txStep {n : Link T R} (h : Sound T R txAddr rxAddr n)
    (e : Event)
    (hack : ∀ raw input k, e = .incoming raw rxAddr input → IsAck raw k →
      ∀ q, T.discipline.covers k q → (R.lane n.rx txAddr).Has q) :
    Sound T R txAddr rxAddr ⟨T.step n.tx e, n.rx⟩ where
  tx := h.tx.step e
  rx := h.rx
  receiver := h.receiver.mono (h.tx.lane_step e rxAddr).handed
  completed := by
    intro q hq
    rcases (h.tx.lane_step e rxAddr).completed hq with
      hold | ⟨raw, input, k, he, -, hraw, hcovers⟩
    · exact h.completed q hold
    · exact hack raw input k he hraw q hcovers

/-- A step of the receiver keeps the link sound, provided that the datagrams
that it handles are the sender's and no payload is lost with its
acknowledgement. -/
theorem Sound.rxStep {n : Link T R} (h : Sound T R txAddr rxAddr n) (e : Event)
    (hdata : ∀ raw input seq payload, e = .incoming raw txAddr input →
      IsData raw seq payload →
        (T.lane n.tx rxAddr).handed[seq]? = some payload ∧
          (R.lane n.rx txAddr).Delivers R.discipline seq payload
            input.sendResult) :
    Sound T R txAddr rxAddr ⟨n.tx, R.step n.rx e⟩ ∧
      ∀ q, (R.lane n.rx txAddr).Has q →
        (R.lane (R.step n.rx e) txAddr).Has q := by
  obtain ⟨hreceiver, hkeeps⟩ := h.receiver.step (h.rx txAddr).labelled
    (h.rx.lane_step e txAddr) hdata
  exact ⟨⟨h.tx, h.rx.step e, hreceiver,
    fun q hq => hkeeps q (h.completed q hq)⟩, hkeeps⟩

/-- A packet that the sender sent and that is read as a datagram is one of the
datagrams handed to it. -/
theorem Sound.datagram {n : Link T R} (h : Sound T R txAddr rxAddr n)
    {raw payload : Bytes} {seq : ℕ} {flip : Option ℕ}
    (hmem : (raw, rxAddr) ∈ (T.core n.tx).channel)
    (hraw : IsData (corrupt raw flip) seq payload) :
    (T.lane n.tx rxAddr).handed[seq]? = some payload := by
  have hwire : raw ∈ (T.lane n.tx rxAddr).wire := Core.mem_toPeer.mpr hmem
  rcases (h.tx rxAddr).labelled.wire raw hwire with
    ⟨q, p, hq, hdata⟩ | ⟨k, hack⟩
  · obtain ⟨rfl, rfl⟩ := (hraw.corrupt hdata.1).unique hdata
    exact hq
  · exact absurd hack (hraw.corrupt hack.1).not_isAck

/-- A packet that the receiver sent and that is read as an acknowledgement
covers only what the receiver has. -/
theorem Sound.acknowledgement {n : Link T R} (h : Sound T R txAddr rxAddr n)
    {raw : Bytes} {k : ℕ} {flip : Option ℕ}
    (hmem : (raw, txAddr) ∈ (R.core n.rx).channel)
    (hraw : IsAck (corrupt raw flip) k) {q : ℕ}
    (hcovers : R.discipline.covers k q) : (R.lane n.rx txAddr).Has q := by
  have hwire : raw ∈ (R.lane n.rx txAddr).wire := Core.mem_toPeer.mpr hmem
  have hverify := (h.rx txAddr).labelled.verify hwire
  exact h.receiver.acks raw hwire k (hraw.corrupt hverify) q hcovers

theorem wellFormed_step {n : Link T R} (h : T.WellFormed n.tx)
    (e : LinkEvent) : T.WellFormed (step T R txAddr rxAddr n e).tx := by
  cases e with
  | tx e =>
      simp only [step]
      split
      · exact h
      · exact h.step e
  | rx e =>
      simp only [step]
      split <;> exact h
  | toRx raw flip input =>
      simp only [step]
      split <;> exact h
  | toTx raw flip input =>
      simp only [step]
      split
      · exact h.step _
      · exact h

/-- The history of the sender only grows. -/
theorem handed_step {n : Link T R} (h : T.WellFormed n.tx) (e : LinkEvent) :
    (T.lane n.tx rxAddr).handed <+:
      (T.lane (step T R txAddr rxAddr n e).tx rxAddr).handed := by
  cases e with
  | tx e =>
      simp only [step]
      split
      · exact List.prefix_rfl
      · exact (h.lane_step e rxAddr).handed
  | rx e =>
      simp only [step]
      split <;> exact List.prefix_rfl
  | toRx raw flip input =>
      simp only [step]
      split <;> exact List.prefix_rfl
  | toTx raw flip input =>
      simp only [step]
      split
      · exact (h.lane_step _ rxAddr).handed
      · exact List.prefix_rfl

variable (T R txAddr rxAddr) in
/-- In this step no payload is lost with its acknowledgement. -/
def Delivers (n : Link T R) : LinkEvent → Prop
  | .toRx raw flip input => (raw, rxAddr) ∈ (T.core n.tx).channel →
      ∀ seq payload, IsData (corrupt raw flip) seq payload →
        (R.lane n.rx txAddr).Delivers R.discipline seq payload input.sendResult
  | _ => True

/-- Every step in which no payload is lost with its acknowledgement keeps a
link sound, and the receiver keeps what it has. -/
theorem Sound.step
    (hcovers : ∀ k q, T.discipline.covers k q → R.discipline.covers k q)
    {n : Link T R} (h : Sound T R txAddr rxAddr n) {e : LinkEvent}
    (he : Delivers T R txAddr rxAddr n e) :
    Sound T R txAddr rxAddr (step T R txAddr rxAddr n e) ∧
      ∀ q, (R.lane n.rx txAddr).Has q →
        (R.lane (step T R txAddr rxAddr n e).rx txAddr).Has q := by
  cases e with
  | tx e =>
      simp only [Link.step]
      split_ifs with hfrom
      · exact ⟨h, fun _ hq => hq⟩
      · refine ⟨h.txStep e fun raw input k he => ?_, fun _ hq => hq⟩
        simp [he, Event.isFrom] at hfrom
  | rx e =>
      simp only [Link.step]
      split_ifs with hfrom
      · exact ⟨h, fun _ hq => hq⟩
      · refine h.rxStep e fun raw input seq payload he => ?_
        simp [he, Event.isFrom] at hfrom
  | toRx raw flip input =>
      simp only [Link.step]
      split_ifs with hmem
      · refine h.rxStep _ fun raw' input' seq payload heq hraw => ?_
        cases heq
        exact ⟨h.datagram hmem hraw, he hmem seq payload hraw⟩
      · exact ⟨h, fun _ hq => hq⟩
  | toTx raw flip input =>
      simp only [Link.step]
      split_ifs with hmem
      · refine ⟨h.txStep _ fun raw' input' k heq hraw q hq => ?_,
          fun _ hq => hq⟩
        cases heq
        exact h.acknowledgement hmem hraw (hcovers k q hq)
      · exact ⟨h, fun _ hq => hq⟩

/-- A link is sound in every state that it reaches without losing a payload
with its acknowledgement. -/
theorem sound_after_of_delivers
    (hcovers : ∀ k q, T.discipline.covers k q → R.discipline.covers k q)
    {es : List LinkEvent}
    (hes : Meets (step T R txAddr rxAddr) (Delivers T R txAddr rxAddr)
      (init T R) es) :
    Sound T R txAddr rxAddr (after T R txAddr rxAddr es) :=
  run_invariant_of_meets (Sound T R txAddr rxAddr)
    (fun _ _ h he => (h.step hcovers he).1) sound_init hes

/-! ## Runs with fewer than `2 ^ 32` datagrams -/

/-- The acknowledgement that the receiver sends in this step does not raise. -/
def AckReturns : LinkEvent → Prop
  | .toRx _ _ input => input.sendResult = none
  | _ => True

theorem ackReturns_exampleRun (rxAddr : Address) (data : Bytes) :
    ∀ e ∈ exampleRun rxAddr data, AckReturns e := by
  simp [exampleRun, AckReturns]

variable (T R txAddr rxAddr) in
/-- The invariant of runs: sound unless the sequence numbers have run out. -/
def SoundIfFew (n : Link T R) : Prop :=
  T.WellFormed n.tx ∧ ((T.lane n.tx rxAddr).handed.length < 2 ^ 32 →
    Sound T R txAddr rxAddr n)

theorem soundIfFew_init : SoundIfFew T R txAddr rxAddr (init T R) :=
  ⟨Endpoint.WellFormed.init, fun _ => sound_init⟩

/-- While the numbers fit the header, no payload is lost unless a send of the
receiver raises. -/
theorem Sound.delivers {n : Link T R} (h : Sound T R txAddr rxAddr n)
    (hfew : (T.lane n.tx rxAddr).handed.length < 2 ^ 32) {e : LinkEvent}
    (hack : AckReturns e) : Delivers T R txAddr rxAddr n e := by
  cases e with
  | toRx raw flip input =>
      intro hmem seq payload hraw _
      have hseq := h.datagram hmem hraw
      have hle := (R.discipline.receive_sound h.receiver.reassembles
        hseq).ackFor_le
      exact ⟨hack, by omega⟩
  | _ => trivial

theorem SoundIfFew.step
    (hcovers : ∀ k q, T.discipline.covers k q → R.discipline.covers k q)
    {n : Link T R} (h : SoundIfFew T R txAddr rxAddr n) {e : LinkEvent}
    (hack : AckReturns e) :
    SoundIfFew T R txAddr rxAddr (step T R txAddr rxAddr n e) := by
  obtain ⟨hwf, hsound⟩ := h
  refine ⟨wellFormed_step hwf e, fun hfew' => ?_⟩
  have hgrow : (T.lane n.tx rxAddr).handed.length ≤
      (T.lane (Link.step T R txAddr rxAddr n e).tx rxAddr).handed.length :=
    (handed_step hwf e).length_le
  have hfew := hgrow.trans_lt hfew'
  exact ((hsound hfew).step hcovers ((hsound hfew).delivers hfew hack)).1

theorem handed_run {n : Link T R} (h : T.WellFormed n.tx)
    (es : List LinkEvent) :
    (T.lane n.tx rxAddr).handed <+:
      (T.lane (run (step T R txAddr rxAddr) n es).tx rxAddr).handed := by
  induction es generalizing n with
  | nil => exact List.prefix_rfl
  | cons e es ih => exact (handed_step h e).trans (ih (wellFormed_step h e))

/-- With as few datagrams, no step of the run loses a payload. -/
theorem SoundIfFew.meets_delivers
    (hcovers : ∀ k q, T.discipline.covers k q → R.discipline.covers k q)
    {n : Link T R} (h : SoundIfFew T R txAddr rxAddr n) {es : List LinkEvent}
    (hacks : ∀ e ∈ es, AckReturns e)
    (hfew : (T.lane (run (Link.step T R txAddr rxAddr) n es).tx
      rxAddr).handed.length < 2 ^ 32) :
    Meets (Link.step T R txAddr rxAddr) (Delivers T R txAddr rxAddr) n es := by
  induction es generalizing n with
  | nil => trivial
  | cons e es ih =>
      have hack : AckReturns e := hacks e List.mem_cons_self
      have hgrow : (T.lane n.tx rxAddr).handed <+: (T.lane
          (run (Link.step T R txAddr rxAddr) n (e :: es)).tx rxAddr).handed :=
        handed_run h.1 (e :: es)
      have hnow : (T.lane n.tx rxAddr).handed.length < 2 ^ 32 :=
        hgrow.length_le.trans_lt hfew
      refine ⟨(h.2 hnow).delivers hnow hack, ih (h.step hcovers hack) ?_ hfew⟩
      exact fun e' he' => hacks e' (List.mem_cons_of_mem _ he')

/-- A link is sound in every state that it reaches while fewer than `2 ^ 32`
datagrams have been handed over and no acknowledgement raises. -/
theorem sound_after
    (hcovers : ∀ k q, T.discipline.covers k q → R.discipline.covers k q)
    {es : List LinkEvent} (hacks : ∀ e ∈ es, AckReturns e)
    (hfew : (T.lane (after T R txAddr rxAddr es).tx rxAddr).handed.length <
      2 ^ 32) :
    Sound T R txAddr rxAddr (after T R txAddr rxAddr es) :=
  sound_after_of_delivers hcovers
    (soundIfFew_init.meets_delivers hcovers hacks hfew)

/-- What the receiver has delivered is a prefix of what the sender accepted. -/
theorem Sound.delivered_prefix {n : Link T R}
    (h : Sound T R txAddr rxAddr n) :
    (R.lane n.rx txAddr).delivered <+: (T.lane n.tx rxAddr).handed := by
  rw [h.receiver.reassembles.delivered]
  exact List.take_prefix _ _

/-- A datagram below the next expected one is delivered at its own place. -/
theorem Sound.delivered_getElem? {n : Link T R}
    (h : Sound T R txAddr rxAddr n) {q : ℕ}
    (hq : q < (R.lane n.rx txAddr).expected) :
    ∃ payload, (T.lane n.tx rxAddr).handed[q]? = some payload ∧
      (R.lane n.rx txAddr).delivered[q]? = some payload := by
  have hlt := hq.trans_le h.receiver.reassembles.expected_le
  refine ⟨(T.lane n.tx rxAddr).handed[q], List.getElem?_eq_getElem hlt, ?_⟩
  rw [h.receiver.reassembles.delivered, List.getElem?_take_of_lt hq]
  exact List.getElem?_eq_getElem hlt

/-! ## Runs in which nothing fails -/

variable (T R rxAddr) in
/-- The sender does not mark datagrams of the receiver failed in this step. -/
def Undisturbed (n : Link T R) : LinkEvent → Prop
  | .tx e => ¬ Lane.Marks cfgT (T.PeerFails n.tx rxAddr) (T.lane n.tx rxAddr) e
  | _ => True

theorem error_eq_none_step {n : Link T R} (h : T.WellFormed n.tx)
    (hnone : ∀ q, ((T.lane n.tx rxAddr).status q).error = none)
    {e : LinkEvent} (he : Undisturbed T R rxAddr n e) (q : ℕ) :
    ((T.lane (step T R txAddr rxAddr n e).tx rxAddr).status q).error = none := by
  by_contra hq
  cases e with
  | tx e =>
      simp only [step] at hq
      split at hq
      · exact hq (hnone q)
      · rcases (h.lane_step e rxAddr).error hq with hold | hmarks
        · exact hold (hnone q)
        · exact he hmarks
  | rx e =>
      simp only [step] at hq
      split at hq <;> exact hq (hnone q)
  | toRx raw flip input =>
      simp only [step] at hq
      split at hq <;> exact hq (hnone q)
  | toTx raw flip input =>
      simp only [step] at hq
      split at hq
      · rcases (h.lane_step _ rxAddr).error hq with hold | hmarks
        · exact hold (hnone q)
        · exact hmarks
      · exact hq (hnone q)

/-- Without failures no datagram is marked failed. -/
theorem error_eq_none_after {es : List LinkEvent}
    (hes : Meets (step T R txAddr rxAddr) (Undisturbed T R rxAddr) (init T R) es)
    (q : ℕ) :
    ((T.lane (after T R txAddr rxAddr es).tx rxAddr).status q).error =
      none := by
  have hinit : T.WellFormed (init T R).tx ∧
      ∀ q, ((T.lane (init T R).tx rxAddr).status q).error = none := by
    refine ⟨Endpoint.WellFormed.init, fun q => ?_⟩
    simp only [init, Endpoint.lane, T.lane_init]
  have hinv := run_invariant_of_meets
    (fun n : Link T R => T.WellFormed n.tx ∧
      ∀ q, ((T.lane n.tx rxAddr).status q).error = none)
    (fun n e hn he =>
      ⟨wellFormed_step hn.1 e, error_eq_none_step hn.1 hn.2 he⟩) hinit hes
  exact hinv.2 q

/-- When everything accepted is completed, everything is delivered. -/
theorem Sound.delivered_eq {n : Link T R} (h : Sound T R txAddr rxAddr n)
    (hall : ∀ q < (T.lane n.tx rxAddr).handed.length,
      (T.lane n.tx rxAddr).Completed q) :
    (R.lane n.rx txAddr).delivered = (T.lane n.tx rxAddr).handed := by
  have hge : (T.lane n.tx rxAddr).handed.length ≤
      (R.lane n.rx txAddr).expected := by
    by_contra hlt
    rcases h.completed _ (hall _ (not_le.mp hlt)) with hself | hbuffer
    · exact lt_irrefl _ hself
    · obtain ⟨payload, hget⟩ := Dict.mem_keys.mp hbuffer
      exact lt_irrefl _ (h.receiver.reassembles.buffered _ payload hget).1
  rw [h.receiver.reassembles.delivered, List.take_of_length_le hge]

end Link

end UdpArq
