import UdpArq.GoBackN.Refinement
import UdpArq.SelectiveRepeat.Refinement
import UdpArq.Transport.Link
import UdpArq.Transport.Retention

/-!
# Acknowledged datagrams and the gaps below them

A datagram that was acknowledged out of order reaches the application only
after everything below it.  Giving a peer up drops datagrams for good, so under
Selective Repeat an acknowledged datagram can stay in the receive buffer for
ever.  This does not happen as long as the sender drops nothing that the
receiver lacks.
-/

namespace UdpArq

namespace Link

variable {cfgT cfgR : Config} (T : Endpoint cfgT) (R : Endpoint cfgR)
  (txAddr rxAddr : Address)

/-- The payload of datagram `q` is delivered or buffered at the receiver. -/
def Arrived (n : Link T R) (q : ℕ) : Prop :=
  q < (R.lane n.rx txAddr).delivered.length ∨
    q ∈ (R.lane n.rx txAddr).buffer.keys

instance (n : Link T R) (q : ℕ) : Decidable (Arrived T R txAddr n q) :=
  inferInstanceAs (Decidable (_ ∨ _))

/-- Every completed datagram is delivered, or the sender still holds every
datagram below it that has not arrived. -/
def NotStranded (n : Link T R) : Prop :=
  ∀ q, (T.lane n.tx rxAddr).Completed q →
    q < (R.lane n.rx txAddr).delivered.length ∨
      ∀ q' < q, ¬ Arrived T R txAddr n q' → (T.lane n.tx rxAddr).Held q'

/-- The sender drops no datagram that the receiver lacks. -/
def Keeps (n : Link T R) : LinkEvent → Prop
  | .tx e => ∀ q, Lane.Drops cfgT (T.PeerFails n.tx rxAddr)
      (T.lane n.tx rxAddr) e q → (R.lane n.rx txAddr).Has q
  | _ => True

variable {T R txAddr rxAddr}

theorem Sound.has_iff_arrived {n : Link T R} (h : Sound T R txAddr rxAddr n)
    (q : ℕ) : (R.lane n.rx txAddr).Has q ↔ Arrived T R txAddr n q := by
  have hlength : (R.lane n.rx txAddr).delivered.length =
      (R.lane n.rx txAddr).expected := by
    rw [h.receiver.reassembles.delivered, List.length_take]
    exact min_eq_left h.receiver.reassembles.expected_le
  rw [Lane.Has, Arrived, hlength]

variable (T R txAddr rxAddr) in
/-- A sound link whose sender retains what the receiver lacks. -/
def Retaining (n : Link T R) : Prop :=
  Sound T R txAddr rxAddr n ∧
    ∃ m, (T.lane n.tx rxAddr).Retains (R.lane n.rx txAddr).Has m

theorem retaining_init : Retaining T R txAddr rxAddr (init T R) := by
  refine ⟨sound_init, 0, ?_⟩
  simp only [init, Endpoint.lane, T.lane_init]
  exact ⟨le_rfl, fun _ => rfl, by simp [Lane.Held, Lane.waiting],
    by simp [Lane.Completed], by simp⟩

/-- A step of the sender that drops nothing the receiver lacks. -/
theorem Retaining.txStep {n : Link T R} (h : Retaining T R txAddr rxAddr n)
    (e : Event)
    (hdrops : ∀ q, Lane.Drops cfgT (T.PeerFails n.tx rxAddr)
      (T.lane n.tx rxAddr) e q → (R.lane n.rx txAddr).Has q)
    (hack : ∀ raw input k, e = .incoming raw rxAddr input → IsAck raw k →
      ∀ q, T.discipline.covers k q → (R.lane n.rx txAddr).Has q) :
    Retaining T R txAddr rxAddr ⟨T.step n.tx e, n.rx⟩ := by
  obtain ⟨hsound, m, hretains⟩ := h
  refine ⟨hsound.txStep e hack, hretains.step (hsound.tx rxAddr)
    (hsound.tx.lane_step e rxAddr) hdrops ?_⟩
  intro raw input k seqs base he hraw hslide _ q hq
  exact hack raw input k he hraw q
    ((T.discipline.slide_sound hslide).covered q hq).2

theorem Retaining.step
    (hcovers : ∀ k q, T.discipline.covers k q → R.discipline.covers k q)
    {n : Link T R} (h : Retaining T R txAddr rxAddr n) {e : LinkEvent}
    (hdelivers : Delivers T R txAddr rxAddr n e)
    (hkeeps : Keeps T R txAddr rxAddr n e) :
    Retaining T R txAddr rxAddr (step T R txAddr rxAddr n e) := by
  obtain ⟨hsound, hgrow⟩ := h.1.step hcovers hdelivers
  cases e with
  | tx e =>
      simp only [Link.step]
      split_ifs with hfrom
      · exact h
      · refine h.txStep e hkeeps fun raw input k he => ?_
        simp [he, Event.isFrom] at hfrom
  | rx e =>
      obtain ⟨-, m, hretains⟩ := h
      refine ⟨hsound, m, ?_⟩
      have hrx := hretains.mono hgrow
      simp only [Link.step] at hrx ⊢
      split_ifs at hrx ⊢ <;> exact hrx
  | toRx raw flip input =>
      obtain ⟨-, m, hretains⟩ := h
      refine ⟨hsound, m, ?_⟩
      have hrx := hretains.mono hgrow
      simp only [Link.step] at hrx ⊢
      split_ifs at hrx ⊢ <;> exact hrx
  | toTx raw flip input =>
      simp only [Link.step]
      split_ifs with hmem
      · refine h.txStep _ (fun q hq => hq.elim) ?_
        intro raw' input' k heq hraw q hq
        cases heq
        exact h.1.acknowledgement hmem hraw (hcovers k q hq)
      · exact h

theorem Retaining.notStranded {n : Link T R}
    (h : Retaining T R txAddr rxAddr n) : NotStranded T R txAddr rxAddr n := by
  obtain ⟨hsound, m, hretains⟩ := h
  intro q hq
  right
  intro q' hlt hlacks
  have hm := (hretains.completed q hq).1
  rcases hretains.kept q' (hlt.trans hm) with hhas | hheld
  · exact absurd ((hsound.has_iff_arrived q').mp hhas) hlacks
  · exact hheld

end Link

/-- Under Go-Back-N no acknowledged datagram is ever stranded; under Selective
Repeat none is as long as the sender drops nothing that the receiver lacks.
Both need the receiver not to lose payloads with their acknowledgements. -/
theorem acknowledged_not_stranded (cfgT cfgR : Config)
    (txAddr rxAddr : Address) (es : List LinkEvent) :
    (let T := GoBackNTransport.endpoint cfgT
     let R := GoBackNTransport.endpoint cfgR
     Meets (Link.step T R txAddr rxAddr)
        (Link.Delivers T R txAddr rxAddr) (Link.init T R) es →
      Throughout (Link.step T R txAddr rxAddr)
        (Link.NotStranded T R txAddr rxAddr) (Link.init T R) es) ∧
    (let T := SelectiveRepeatTransport.endpoint cfgT
     let R := SelectiveRepeatTransport.endpoint cfgR
     Meets (Link.step T R txAddr rxAddr)
        (fun n e => Link.Delivers T R txAddr rxAddr n e ∧
          Link.Keeps T R txAddr rxAddr n e) (Link.init T R) es →
      Throughout (Link.step T R txAddr rxAddr)
        (Link.NotStranded T R txAddr rxAddr) (Link.init T R) es) := by
  constructor
  · intro T R hes
    have hcovers : ∀ k q, T.discipline.covers k q → R.discipline.covers k q :=
      fun _ _ h => h
    refine throughout_of_meets (fun n e h he => (h.step hcovers he).1)
      (fun n h q hq => ?_) Link.sound_init hes
    left
    have harrived := (h.has_iff_arrived q).mp (h.completed q hq)
    rcases harrived with hlt | hbuffer
    · exact hlt
    · exact absurd hbuffer
        (by simp [R, Endpoint.lane, GoBackNTransport.endpoint, Core.lane])
  · intro T R hes
    have hcovers : ∀ k q, T.discipline.covers k q → R.discipline.covers k q :=
      fun _ _ h => h
    exact throughout_of_meets (fun n e h he => h.step hcovers he.1 he.2)
      (fun n h => h.notStranded) Link.retaining_init hes

/-- Where every send succeeds the sender drops nothing. -/
theorem keeps_exampleRun :
    let T := SelectiveRepeatTransport.endpoint {}
    Meets (Link.step T T ("a", 1) ("b", 2)) (Link.Keeps T T ("a", 1) ("b", 2))
      (Link.init T T) (Link.exampleRun ("b", 2) [7]) := by
  intro T
  refine ⟨fun _ hq => hq.elim, fun _ hq => hq.elim, ?_, trivial, trivial,
    trivial, trivial⟩
  rintro q ⟨-, item, hnext, hdrop⟩
  have hfirst : (T.lane (Link.after T T ("a", 1) ("b", 2)
      [.tx (.sendto [7] ("b", 2)), .tx .drain]).tx ("b", 2)).nextToSend {} =
        some (0, ⟨("b", 2), 0, [7]⟩) := by
    decide +kernel
  obtain ⟨rfl, rfl⟩ := Prod.mk.inj (Option.some.inj (hfirst.symm.trans hnext))
  rcases hdrop with hsend | hpacket
  · exact absurd rfl hsend
  · exact absurd (Core.dataPacket_isOk_iff.mpr (by decide)) hpacket

theorem acknowledged_not_stranded_exampleRun :
    (let T := GoBackNTransport.endpoint {}
     Throughout (Link.step T T ("a", 1) ("b", 2))
        (Link.NotStranded T T ("a", 1) ("b", 2)) (Link.init T T)
        (Link.exampleRun ("b", 2) [7])) ∧
    (let T := SelectiveRepeatTransport.endpoint {}
     Throughout (Link.step T T ("a", 1) ("b", 2))
        (Link.NotStranded T T ("a", 1) ("b", 2)) (Link.init T T)
        (Link.exampleRun ("b", 2) [7])) := by
  obtain ⟨hgbn, hsr⟩ := acknowledged_not_stranded {} {} ("a", 1) ("b", 2)
    (Link.exampleRun ("b", 2) [7])
  constructor
  · apply hgbn
    exact Link.soundIfFew_init.meets_delivers (fun _ _ h => h)
      (Link.ackReturns_exampleRun _ _) (by decide +kernel)
  · apply hsr
    refine Meets.and ?_ keeps_exampleRun
    exact Link.soundIfFew_init.meets_delivers (fun _ _ h => h)
      (Link.ackReturns_exampleRun _ _) (by decide +kernel)

/-- Datagram 1 overtakes datagram 0 and is acknowledged, then the timeout sweeps
at the times `1, …, sweeps` retransmit datagram 0. -/
def strandedRun (rxAddr : Address) (sweeps : ℕ) (sendResult : Option String) :
    List LinkEvent :=
  let packet := (Core.dataPacket 1 [8]).toOption.getD []
  let ack := (Core.ackPacket 2).toOption.getD []
  [.tx (.sendto [7] rxAddr), .tx (.sendto [8] rxAddr), .tx .drain, .tx .drain,
    .tx (.pump rxAddr ⟨0, 0, none⟩), .tx (.pump rxAddr ⟨0, 0, none⟩),
    .toRx packet none ⟨0, 0, none⟩, .toTx ack none ⟨0, 0, none⟩] ++
  (List.range sweeps).map fun i => .tx (.timeouts
    ⟨i + 1, fun _ => i + 1, fun _ _ => i + 1, fun _ _ => sendResult⟩)

/-- Selective Repeat strands datagram 1 once datagram 0 is dropped, whether its
retransmission raises or the retries are used up. -/
theorem strandedRun_strands :
    (let T := SelectiveRepeatTransport.endpoint {}
     ¬ Link.NotStranded T T ("a", 1) ("b", 2)
      (Link.after T T ("a", 1) ("b", 2)
        (strandedRun ("b", 2) 1 (some "unreachable")))) ∧
    (let T := SelectiveRepeatTransport.endpoint { maxRetries := 1 }
     ¬ Link.NotStranded T T ("a", 1) ("b", 2)
      (Link.after T T ("a", 1) ("b", 2) (strandedRun ("b", 2) 2 none))) := by
  constructor
  · intro T h
    have hcompleted : (T.lane (Link.after T T ("a", 1) ("b", 2)
        (strandedRun ("b", 2) 1 (some "unreachable"))).tx
          ("b", 2)).Completed 1 := by
      decide +kernel
    rcases h 1 hcompleted with hdelivered | hheld
    · exact absurd hdelivered (by decide +kernel)
    · exact absurd (hheld 0 (by decide) (by decide +kernel))
        (by decide +kernel)
  · intro T h
    have hcompleted : (T.lane (Link.after T T ("a", 1) ("b", 2)
        (strandedRun ("b", 2) 2 none)).tx ("b", 2)).Completed 1 := by
      decide +kernel
    rcases h 1 hcompleted with hdelivered | hheld
    · exact absurd hdelivered (by decide +kernel)
    · exact absurd (hheld 0 (by decide) (by decide +kernel))
        (by decide +kernel)

end UdpArq
