import UdpArq.Channel.FairLossy
import UdpArq.Windowed.SenderLoop

/-!
# The sender loop over channel emulators

The thread of the sender runs its loop, and the packets of both sides go through
channel emulators.  A run of the whole is a run of the loop together with a run
of each channel that accepts exactly what its transport hands to it.  When the
draws of the emulators do not hit one packet for ever and all threads keep
running, everything is delivered.
-/

namespace UdpArq

open Filter UdpArq.Core

theorem count_toPeer (addr : Address) (log : List (Bytes × Address))
    (raw : Bytes) : (toPeer addr log).count raw = log.count (raw, addr) := by
  induction log with
  | nil => rfl
  | cons x log ih =>
      rw [toPeer_cons, List.count_cons, ← ih]
      obtain ⟨raw', addr'⟩ := x
      by_cases haddr : addr' = addr
      · simp [haddr, List.count_cons]
      · simp [haddr]

namespace LoopedRun

variable {cfgT cfgR : Config} {T : Endpoint cfgT} {R : Endpoint cfgR}
  (r : LoopedRun T R)

/-- What the sender has handed to its channel, oldest first. -/
def sentToRx (i : ℕ) : List (Bytes × Address) := (T.core (r.tx i)).channel.reverse

/-- What the receiver has handed to its channel, oldest first. -/
def sentToTx (i : ℕ) : List (Bytes × Address) :=
  (R.core (r.moment i).link.rx).channel.reverse

/-- The loop runs over two channels.  The thread gets its turns, its clock passes
every time, and the application stops sending at some time, or the thread catches
up with it every time. -/
structure OverChannels (p q : Channel.Emulator)
    (bs cs : ℕ → List Channel.Event) : Prop where
  turns : ∃ᶠ i in atTop, r.Turn i
  clock : ∀ t, ∀ᶠ i in atTop, ∀ input, r.event i = .turn input →
    t ≤ input.sweep.now
  catchesUp : (∀ᶠ i in atTop, ∀ data addr,
      r.event i ≠ .other (.tx (.sendto data addr))) ∨
    ∀ i, r.place i = .draining → ∃ j, i ≤ j ∧ r.place j ≠ .draining
  toRx : Channel.Conveys p bs r.sentToRx r.rxAddr fun raw i =>
    ∃ input, r.linkEvent i = .toRx raw none input
  toTx : Channel.Conveys q cs r.sentToTx r.txAddr fun raw i =>
    ∃ input, r.linkEvent i = .toTx raw none input

variable {r} {p q : Channel.Emulator} {bs cs : ℕ → List Channel.Event}

/-- The channels are a fair network. -/
theorem OverChannels.fair (h : r.OverChannels p q bs cs) : r.Fair := by
  refine ⟨h.turns, h.clock, h.catchesUp, fun raw hsends => ?_,
    fun raw hsends => ?_⟩
  · have hwire : ∀ j, (Link.txLane T R r.txAddr r.rxAddr r.linkEvent j).wire.count
        raw = (r.sentToRx j).count (raw, r.rxAddr) := by
      intro j
      rw [sentToRx, List.count_reverse, Link.txLane, ← link_moment]
      exact count_toPeer _ _ _
    simp only [Link.SendsToRx, Lane.Sends, hwire] at hsends
    apply (h.toRx.again hsends).mono
    rintro i ⟨hsent, hread⟩
    refine ⟨?_, hread⟩
    rw [← link_moment]
    exact List.mem_reverse.mp hsent
  · have hwire : ∀ j, (Link.rxLane T R r.txAddr r.rxAddr r.linkEvent j).wire.count
        raw = (r.sentToTx j).count (raw, r.txAddr) := by
      intro j
      rw [sentToTx, List.count_reverse, Link.rxLane, ← link_moment]
      exact count_toPeer _ _ _
    simp only [Link.SendsToTx, Lane.Sends, hwire] at hsends
    apply (h.toTx.again hsends).mono
    rintro i ⟨hsent, hread⟩
    refine ⟨?_, hread⟩
    rw [← link_moment]
    exact List.mem_reverse.mp hsent

/-- In step `i` the packets `sends i` are handed to the channel, and then its
thread wakes up. -/
def exampleBatches (sends : ℕ → List Bytes) (addr : Address) (i : ℕ) :
    List Channel.Event :=
  (sends i).map (fun raw => .sendto (.bytesLike raw) addr i) ++ [.wake i false]

/-- What the sender of the example hands to its channel. -/
def exampleSends (data data' : Bytes) (i : ℕ) : List Bytes :=
  let packet := (dataPacket 0 data).toOption.getD []
  let packet' := (dataPacket 1 data').toOption.getD []
  if i = 6 then [packet]
  else if i = 10 then [packet, packet']
  else if i = 7 ∨ i = 19 then [packet']
  else []

/-- What its receiver hands to its own channel. -/
def exampleReplies (i : ℕ) : List Bytes :=
  if i = 12 then [(ackPacket 1).toOption.getD []]
  else if i = 13 then [(ackPacket 2).toOption.getD []]
  else []

/-- A channel that holds everything back for a second and loses the first
packet. -/
def exampleChannel : Channel.Emulator where
  impairments := { loss := 1 / 2, delay := 1, valid := by decide +kernel }
  draws n :=
    if n = 0 then Channel.Draw.sixteenths 2 else Channel.Draw.sixteenths 10

/-- A channel that holds everything back for a second and loses nothing. -/
def exampleReturn : Channel.Emulator where
  impairments := { delay := 1, valid := by decide +kernel }
  draws _ := Channel.Draw.sixteenths 10

/-- The example over two channels that carry its packets and its
acknowledgements. -/
theorem overChannels_exampleLooped {r : LoopedRun T R} {data data' : Bytes}
    (hevent : r.event = exampleLooped r.rxAddr data data')
    (hrest : AtRest T r.rxAddr (r.tx 28)) (sends replies : ℕ → List Bytes)
    (hsends : ∀ i, 28 ≤ i → sends i = [])
    (hreplies : ∀ i, 28 ≤ i → replies i = [])
    (hpackets : ∀ i ≤ 28, (Channel.moment p
      (exampleBatches sends r.rxAddr) i).offered = r.sentToRx i)
    (hacks : ∀ i ≤ 28, (Channel.moment q
      (exampleBatches replies r.txAddr) i).offered = r.sentToTx i)
    (hgone : (Channel.moment p (exampleBatches sends r.rxAddr) 28).heap = [] ∧
      (Channel.moment q (exampleBatches replies r.txAddr) 28).heap = [])
    (hopen : (Channel.moment p (exampleBatches sends r.rxAddr) 28).closed =
        false ∧
      (Channel.moment q (exampleBatches replies r.txAddr) 28).closed = false) :
    r.OverChannels p q (exampleBatches sends r.rxAddr)
      (exampleBatches replies r.txAddr) := by
  have hquiet := event_exampleLooped hevent
  have hreading : ∀ sends addr i, ∀ t ∈ (exampleBatches sends addr i).filterMap
      Channel.Event.reading, t = (i : ℚ) := by
    intro sends addr i t ht
    obtain ⟨e, he, hread⟩ := List.mem_filterMap.mp ht
    rcases List.mem_append.mp he with hsend | hwake
    · obtain ⟨raw, -, rfl⟩ := List.mem_map.mp hsend
      exact (Option.some.inj hread).symm
    · rw [List.mem_singleton.mp hwake] at hread
      exact (Option.some.inj hread).symm
  have hwakes : ∀ (sends : ℕ → List Bytes) addr,
      (∀ i, 28 ≤ i → sends i = []) → ∀ i, 28 ≤ i →
        exampleBatches sends addr i = [.wake i false] := by
    intro sends addr hsends i hi
    rw [exampleBatches, hsends i hi]
    rfl
  have hfair := hrest.fair hquiet
  refine ⟨hfair.turns, hfair.clock, hfair.catchesUp, ?_, ?_⟩
  · apply Channel.conveys_of_idle _ _ (hreading _ _) (hwakes _ _ hsends)
      hgone.1 hopen.1 hpackets
    intro i hi
    rw [sentToRx, sentToRx, tx, hrest.stays hquiet hi, tx]
  · apply Channel.conveys_of_idle _ _ (hreading _ _) (hwakes _ _ hreplies)
      hgone.2 hopen.2 hacks
    intro i hi
    rw [sentToTx, sentToTx, hrest.stays hquiet hi]

theorem exampleSends_quiet {data data' : Bytes} (i : ℕ) (hi : 28 ≤ i) :
    exampleSends data data' i = [] := by
  unfold exampleSends
  rw [if_neg (by omega), if_neg (by omega), if_neg (by omega)]

theorem exampleReplies_quiet (i : ℕ) (hi : 28 ≤ i) : exampleReplies i = [] := by
  unfold exampleReplies
  rw [if_neg (by omega), if_neg (by omega)]

end LoopedRun

/-! ## Everything arrives -/

/-- Go-Back-N, with its sender loop and over two channel emulators whose draws do
not hit one packet for ever, delivers everything. -/
theorem goBackN_overChannels_delivers_all (cfgT cfgR : Config)
    (txAddr rxAddr : Address) (ls : ℕ → LoopedEvent) (p q : Channel.Emulator)
    (bs cs : ℕ → List Channel.Event) :
    let r : LoopedRun (GoBackNTransport.endpoint cfgT)
      (GoBackNTransport.endpoint cfgR) :=
      ⟨GoBackNTransport.nearest, txAddr, rxAddr, ls⟩
    r.Calm → r.OverChannels p q bs cs → r.DeliversAll := by
  intro r hcalm hover
  let P := GoBackNTransport.prompt cfgT cfgR txAddr rxAddr
  exact P.delivers_all hcalm (GoBackNTransport.answering cfgT cfgR txAddr)
    (r.fair_linkEvent hcalm P hover.fair) fun _ _ h => h

theorem goBackN_overChannels_delivers_all_exampleLooped :
    GoBackNTransport.loopedExample.DeliversAll := by
  apply goBackN_overChannels_delivers_all {} {} ("a", 1) ("b", 2) _
    LoopedRun.exampleChannel LoopedRun.exampleReturn _ _
    GoBackNTransport.calm_loopedExample
  apply LoopedRun.overChannels_exampleLooped rfl
    GoBackNTransport.atRest_loopedExample (LoopedRun.exampleSends [97, 98] [99])
    LoopedRun.exampleReplies LoopedRun.exampleSends_quiet
    LoopedRun.exampleReplies_quiet
  · decide +kernel
  · decide +kernel
  · constructor <;> decide +kernel
  · constructor <;> decide +kernel

/-- Selective Repeat, with its sender loop and over two channel emulators whose
draws do not hit one packet for ever, delivers everything. -/
theorem selectiveRepeat_overChannels_delivers_all (cfgT cfgR : Config)
    (txAddr rxAddr : Address) (ls : ℕ → LoopedEvent) (p q : Channel.Emulator)
    (bs cs : ℕ → List Channel.Event) :
    let r : LoopedRun (SelectiveRepeatTransport.polledEndpoint cfgT)
      (SelectiveRepeatTransport.polledEndpoint cfgR) :=
      ⟨SelectiveRepeatTransport.nearest, txAddr, rxAddr, ls⟩
    r.Calm → r.OverChannels p q bs cs → r.DeliversAll := by
  intro r hcalm hover
  let P := SelectiveRepeatTransport.promptPolled cfgT cfgR txAddr rxAddr
  exact P.delivers_all hcalm
    (SelectiveRepeatTransport.answering_polled cfgT cfgR txAddr)
    (r.fair_linkEvent hcalm P hover.fair) fun _ _ h => h

theorem selectiveRepeat_overChannels_delivers_all_exampleLooped :
    SelectiveRepeatTransport.loopedExample.DeliversAll := by
  apply selectiveRepeat_overChannels_delivers_all {} {} ("a", 1) ("b", 2) _
    LoopedRun.exampleChannel LoopedRun.exampleReturn _ _
    SelectiveRepeatTransport.calm_loopedExample
  apply LoopedRun.overChannels_exampleLooped rfl
    SelectiveRepeatTransport.atRest_loopedExample
    (LoopedRun.exampleSends [97, 98] [99]) LoopedRun.exampleReplies
    LoopedRun.exampleSends_quiet LoopedRun.exampleReplies_quiet
  · decide +kernel
  · decide +kernel
  · constructor <;> decide +kernel
  · constructor <;> decide +kernel

end UdpArq
