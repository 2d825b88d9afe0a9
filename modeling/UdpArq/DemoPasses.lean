import UdpArq.Demo
import UdpArq.Windowed.OverChannels

/-!
# The demo comes to an end

With Go-Back-N and with Selective Repeat the demo says `PASS` in the end, although
its channel loses packets: everything is delivered, and the thread that calls
`recvfrom` as often as there are chunks gets them all.
-/

namespace UdpArq

open Filter FileLayer Channel UdpArq.Core Demo

/-! ## What is in `_incoming_data` -/

/-- Only `recvfrom` takes datagrams from the queue, one at a time. -/
structure Endpoint.Queues {cfg : Config} (E : Endpoint cfg) : Prop where
  recvfrom : ∀ s, (E.core (E.step s .recvfrom)).incomingData =
    ((E.core s).incomingData.get?.map Prod.snd).getD (E.core s).incomingData
  keeps : ∀ s e, e ≠ .recvfrom →
    (E.core s).incomingData.Fills (E.core (E.step s e)).incomingData

namespace Endpoint.Queues

variable {cfg : Config} {E : Endpoint cfg} (h : E.Queues) {s : E.State}
include h

theorem puts (e : Event) :
    (E.core s).incomingData.puts <+: (E.core (E.step s e)).incomingData.puts := by
  by_cases he : e = .recvfrom
  · rw [he, h.recvfrom, Queue.get?]
    cases (E.core s).incomingData.puts[(E.core s).incomingData.taken]? <;>
      exact List.prefix_rfl
  · exact (h.keeps s e he).puts

theorem taken (e : Event) :
    (E.core s).incomingData.taken ≤ (E.core (E.step s e)).incomingData.taken := by
  by_cases he : e = .recvfrom
  · rw [he, h.recvfrom, Queue.get?]
    cases (E.core s).incomingData.puts[(E.core s).incomingData.taken]? with
    | none => exact le_rfl
    | some x => exact Nat.le_succ _
  · exact (h.keeps s e he).taken.ge

/-- `recvfrom` returns if there is something to return. -/
theorem takes (hlt : (E.core s).incomingData.taken <
    (E.core s).incomingData.puts.length) :
    (E.core s).incomingData.taken <
      (E.core (E.step s .recvfrom)).incomingData.taken := by
  rw [h.recvfrom, Queue.get?, List.getElem?_eq_getElem hlt]
  exact Nat.lt_succ_self _

end Endpoint.Queues

theorem Core.incomingData_sendto (cfg : Config) (c : Core) (data : Bytes)
    (addr : Address) :
    ((c.sendto cfg data addr).toOption.getD c).incomingData =
      c.incomingData := by
  unfold Core.sendto
  split_ifs <;> rfl

theorem Core.incomingData_close (c : Core) :
    c.close.incomingData = c.incomingData := by
  unfold Core.close
  split <;> rfl

theorem Endpoint.Handled.queues {cfg : Config} {E : Endpoint cfg}
    (H : E.Handled) (h : E.Drains) : E.Queues where
  recvfrom s := by
    rw [H.core_recvfrom, Core.recvfrom]
    rcases (E.core s).incomingData.get? with _ | ⟨x, q⟩ <;> rfl
  keeps s e he := by
    cases e with
    | sendto data addr =>
        rw [H.core_sendto]
        exact .of_eq (Core.incomingData_sendto cfg _ data addr)
    | recvfrom => exact absurd rfl he
    | close =>
        rw [H.core_close]
        exact .of_eq (Core.incomingData_close _)
    | drain => exact .of_eq (h.incoming s)
    | _ => exact (h.keeps s _ rfl (by simp)).incoming

/-! ## `receive_all` -/

namespace LoopedRun

variable {cfgT cfgR : Config} {T : Endpoint cfgT} {R : Endpoint cfgR}
  {r : LoopedRun T R}

variable (r) in
def rx (i : ℕ) : R.State := (r.moment i).link.rx

variable (r) in
/-- What `recvfrom` has returned of the datagrams of the sender. -/
def received (i : ℕ) : List Bytes := returned (R.core (r.rx i)) r.txAddr

variable (r) in
/-- `recvfrom` is called until it has returned `n` datagrams of the sender. -/
def Receives (n : ℕ) : Prop :=
  ∀ i, (r.received i).length < n →
    ∃ j, i ≤ j ∧ r.event j = .other (.rx .recvfrom)

variable (r) in
/-- In the end exactly the chunks have been handed over, all to the receiver. -/
def HandsOver (chunks : List Bytes) : Prop :=
  ∀ᶠ i in atTop, (T.core (r.tx i)).handed =
    chunks.map fun chunk => (chunk, r.rxAddr)

theorem rx_cases (i : ℕ) :
    r.rx (i + 1) = r.rx i ∨ ∃ e, r.rx (i + 1) = R.step (r.rx i) e := by
  rw [rx, moment_succ, LoopedLink.link_step]
  cases (LoopedLink.event T R r.nearest (r.moment i) (r.event i)).getD
      (LoopedLink.idleEvent r.rxAddr) with
  | tx e =>
      simp only [Link.step]
      split_ifs <;> exact Or.inl rfl
  | rx e =>
      simp only [Link.step]
      split_ifs
      · exact Or.inl rfl
      · exact Or.inr ⟨e, rfl⟩
  | toRx raw flip input =>
      simp only [Link.step]
      split_ifs
      · exact Or.inr ⟨_, rfl⟩
      · exact Or.inl rfl
  | toTx raw flip input =>
      simp only [Link.step]
      split_ifs <;> exact Or.inl rfl

theorem rx_recvfrom {i : ℕ} (he : r.event i = .other (.rx .recvfrom)) :
    r.rx (i + 1) = R.step (r.rx i) .recvfrom := by
  rw [rx, moment_succ, he]
  rfl

section

variable (hq : R.Queues)
include hq

theorem puts_le {i j : ℕ} (hij : i ≤ j) :
    (R.core (r.rx i)).incomingData.puts <+: (R.core (r.rx j)).incomingData.puts := by
  induction j, hij using Nat.le_induction with
  | base => exact List.prefix_rfl
  | succ j _ ih =>
      rcases rx_cases (r := r) j with hsame | ⟨e, hstep⟩
      · rwa [hsame]
      · rw [hstep]
        exact ih.trans (hq.puts e)

theorem taken_le {i j : ℕ} (hij : i ≤ j) :
    (R.core (r.rx i)).incomingData.taken ≤ (R.core (r.rx j)).incomingData.taken := by
  induction j, hij using Nat.le_induction with
  | base => exact le_rfl
  | succ j _ ih =>
      rcases rx_cases (r := r) j with hsame | ⟨e, hstep⟩
      · rwa [hsame]
      · rw [hstep]
        exact ih.trans (hq.taken e)

/-- Once all has been delivered it is received. -/
theorem eventually_received {chunks : List Bytes}
    (hreceives : r.Receives chunks.length)
    (hdelivered : ∀ᶠ i in atTop,
      toPeer r.txAddr (R.core (r.rx i)).incomingData.puts = chunks) :
    ∀ᶠ i in atTop, r.received i = chunks := by
  obtain ⟨i₀, hall⟩ := eventually_atTop.mp hdelivered
  have hwithin : ∀ i, i₀ ≤ i → r.received i <+: chunks := by
    intro i hi
    rw [← hall i hi]
    exact (List.take_prefix _ _).filterMap _
  let n := (R.core (r.rx i₀)).incomingData.puts.length
  -- When as much has been taken as was delivered then, nothing is missing.
  have hdone : ∀ i, i₀ ≤ i → n ≤ (R.core (r.rx i)).incomingData.taken →
      chunks.length ≤ (r.received i).length := by
    intro i hi hn
    have hgrow : (R.core (r.rx i₀)).incomingData.puts <+:
        (R.core (r.rx i)).incomingData.puts.take
          (R.core (r.rx i)).incomingData.taken :=
      List.prefix_take_iff.mpr ⟨puts_le hq hi, hn⟩
    rw [← hall i₀ le_rfl]
    exact (hgrow.filterMap _).length_le
  obtain ⟨i₁, hi₁, hn⟩ : ∃ i, i₀ ≤ i ∧ chunks.length ≤ (r.received i).length := by
    by_contra hno
    push Not at hno
    have hcalls : ∃ᶠ i in atTop, r.event i = .other (.rx .recvfrom) := by
      rw [frequently_atTop]
      intro i
      obtain ⟨j, hj, he⟩ := hreceives (max i i₀) (hno _ (le_max_right i i₀))
      exact ⟨j, (le_max_left i i₀).trans hj, he⟩
    have hturn : ∀ i, i₀ ≤ i → r.event i = .other (.rx .recvfrom) →
        n - (R.core (r.rx (i + 1))).incomingData.taken <
          n - (R.core (r.rx i)).incomingData.taken := by
      intro i hi he
      have hlt : (R.core (r.rx i)).incomingData.taken < n := by
        by_contra hle
        exact absurd (hdone i hi (not_lt.mp hle)) (hno i hi).not_ge
      have htakes := hq.takes (hlt.trans_le (puts_le hq hi).length_le)
      rw [← rx_recvfrom he] at htakes
      omega
    obtain ⟨i, -, hnever⟩ := exists_of_variant (P := fun _ => True)
      (Q := fun _ => False)
      (fun i => n - (R.core (r.rx i)).incomingData.taken) hcalls
      (fun i hi _ => Or.inr ⟨trivial,
        Nat.sub_le_sub_left (taken_le hq (Nat.le_succ i)) n, hturn i hi⟩) trivial
    exact hnever
  rw [eventually_atTop]
  refine ⟨i₁, fun i hi => ?_⟩
  have hgrow : r.received i₁ <+: r.received i := by
    apply List.IsPrefix.filterMap
    exact ((puts_le hq hi).take _).trans
      (List.take_prefix_take_left (taken_le hq hi))
  exact (hwithin i (hi₁.trans hi)).eq_of_length_le (hn.trans hgrow.length_le)

end

end LoopedRun

/-! ## The verdict in the end -/

namespace Demo

variable {cfgT cfgR : Config} {T : Endpoint cfgT} {R : Endpoint cfgR}
  {r : LoopedRun T R} {H : Sha256} {data : Bytes} {mss : ℕ} {chunks : List Bytes}

/-- The `flush()` of all peers returns, unless its timeout has run out before,
and the row says that all is well. -/
def Passes (r : LoopedRun T R) (H : Sha256) (name : String) (data : Bytes)
    (chunks : List Bytes) (channel : ℕ → Channel) (i : ℕ) : Prop :=
  (∀ remaining, (T.core (r.tx i)).flush none remaining = .returned) ∧
    (runArq H name chunks (sha H data) (channel i) (r.received i)).status = "PASS"

theorem eventually_passes (hcalm : r.Calm) (hall : r.DeliversAll)
    (hgives : T.GivesUpOutstanding) (hq : R.Queues)
    (hmss : 1 ≤ mss) (hchunks : chunk (.bytesLike data) mss = .ok chunks)
    (hsends : r.HandsOver chunks) (hreceives : r.Receives chunks.length)
    (name : String) (channel : ℕ → Channel) :
    ∀ᶠ i in atTop, Passes r H name data chunks channel i := by
  have hflushes : ∀ᶠ i in atTop, ∀ remaining,
      (T.core (r.tx i)).flush none remaining = .returned := by
    simp only [LoopedRun.HandsOver, LoopedRun.tx, LoopedRun.link_moment]
      at hsends ⊢
    exact hcalm.eventually_flush_all hall hgives hsends
  obtain ⟨i₀, hsent⟩ := eventually_atTop.mp hsends
  have hdelivered : ∀ᶠ i in atTop,
      toPeer r.txAddr (R.core (r.rx i)).incomingData.puts = chunks := by
    have hlane := hall.flushes i₀ chunks fun j hj => by
      rw [Link.txLane, ← LoopedRun.link_moment]
      change toPeer r.rxAddr (T.core (r.tx j)).handed = chunks
      rw [hsent j hj, toPeer_map, if_pos rfl]
    filter_upwards [hlane] with i hi
    have hrx := hi.1
    rw [Link.rxLane, ← LoopedRun.link_moment] at hrx
    exact hrx
  filter_upwards [hflushes, LoopedRun.eventually_received hq hreceives hdelivered]
    with i hflush hreceived
  refine ⟨hflush, ?_⟩
  have hok := (ok_iff (H := H) hmss hchunks (List.Sublist.refl chunks)).mpr rfl
  simp [runArq, hreceived, hok]

end Demo

/-- The demo with Go-Back-N and with Selective Repeat, from fresh transports over
a channel that loses packets: if nothing fails, the draws do not hit one packet
for ever, the chunks and nothing else are handed over and `recvfrom` is called
until all have been received, then `flush()` returns and the row says `PASS` in
the end. -/
theorem demo_passes (H : Sha256) (data : Bytes) (mss : ℕ) (chunks : List Bytes)
    (hmss : 1 ≤ mss) (hchunks : chunk (.bytesLike data) mss = .ok chunks)
    (cfgT cfgR : Config) (txAddr rxAddr : Address) (ls : ℕ → LoopedEvent)
    (draws draws' : ℕ → Draw) (bs cs : ℕ → List Channel.Event) :
    (let r : LoopedRun (GoBackNTransport.endpoint cfgT)
       (GoBackNTransport.endpoint cfgR) :=
       ⟨GoBackNTransport.nearest, txAddr, rxAddr, ls⟩
     r.Calm → r.OverChannels (lossyChannel draws) (plainChannel draws') bs cs →
       r.HandsOver chunks → r.Receives chunks.length →
         ∀ᶠ i in atTop, Passes r H "Go-Back-N" data chunks
           (Channel.moment (lossyChannel draws) bs) i) ∧
    (let r : LoopedRun (SelectiveRepeatTransport.polledEndpoint cfgT)
       (SelectiveRepeatTransport.polledEndpoint cfgR) :=
       ⟨SelectiveRepeatTransport.nearest, txAddr, rxAddr, ls⟩
     r.Calm → r.OverChannels (lossyChannel draws) (plainChannel draws') bs cs →
       r.HandsOver chunks → r.Receives chunks.length →
         ∀ᶠ i in atTop, Passes r H "Selective Repeat" data chunks
           (Channel.moment (lossyChannel draws) bs) i) := by
  constructor
  · intro r hcalm hover hsends hreceives
    let P := GoBackNTransport.prompt cfgT cfgR txAddr rxAddr
    have hall : r.DeliversAll :=
      P.delivers_all hcalm (GoBackNTransport.answering cfgT cfgR txAddr)
        (r.fair_linkEvent hcalm P hover.fair) fun _ _ h => h
    have hq := (GoBackNTransport.handled cfgR).queues
      (GoBackNTransport.drains cfgR)
    exact eventually_passes hcalm hall (GoBackNTransport.givesUpOutstanding cfgT)
      hq hmss hchunks hsends hreceives _ _
  · intro r hcalm hover hsends hreceives
    let P := SelectiveRepeatTransport.promptPolled cfgT cfgR txAddr rxAddr
    have hall : r.DeliversAll :=
      P.delivers_all hcalm
        (SelectiveRepeatTransport.answering_polled cfgT cfgR txAddr)
        (r.fair_linkEvent hcalm P hover.fair) fun _ _ h => h
    have hq := (SelectiveRepeatTransport.polledHandled cfgR).queues
      (SelectiveRepeatTransport.drains_polled cfgR)
    exact eventually_passes hcalm hall
      (SelectiveRepeatTransport.givesUpOutstanding cfgT) hq hmss hchunks hsends
      hreceives _ _

theorem receives_exampleLooped {cfgT cfgR : Config} {T : Endpoint cfgT}
    {R : Endpoint cfgR} {r : LoopedRun T R} {data data' : Bytes}
    (hevent : r.event = LoopedRun.exampleLooped r.rxAddr data data')
    (hrest : LoopedRun.AtRest T r.rxAddr (r.tx 28))
    (hreceived : ∀ i ≤ 28, 22 < i → (r.received i).length = 2) :
    r.Receives 2 := by
  have hquiet := LoopedRun.event_exampleLooped hevent
  intro i hlt
  by_cases hi : i ≤ 22
  · exact ⟨22, hi, by rw [hevent]; rfl⟩
  by_cases hlate : 28 ≤ i
  · rw [LoopedRun.received, LoopedRun.rx, hrest.stays hquiet hlate] at hlt
    exact absurd hlt (hreceived 28 le_rfl (by decide)).not_lt
  · exact absurd hlt (hreceived i (by omega) (by omega)).not_lt

theorem handsOver_exampleLooped {cfgT cfgR : Config} {T : Endpoint cfgT}
    {R : Endpoint cfgR} {r : LoopedRun T R} {data data' : Bytes}
    (hevent : r.event = LoopedRun.exampleLooped r.rxAddr data data')
    (hrest : LoopedRun.AtRest T r.rxAddr (r.tx 28))
    (hhanded : (T.core (r.tx 28)).handed = [(data, r.rxAddr), (data', r.rxAddr)]) :
    r.HandsOver [data, data'] := by
  filter_upwards [eventually_ge_atTop 28] with i hi
  rw [LoopedRun.tx, hrest.stays (LoopedRun.event_exampleLooped hevent) hi]
  exact hhanded

/-- A file of three bytes in chunks of two; the packet of the first one is lost. -/
theorem demo_passes_exampleLooped :
    let channel := Channel.moment (lossyChannel exampleDraws)
      (LoopedRun.exampleBatches (LoopedRun.exampleSends [97, 98] [99]) ("b", 2))
    (∀ᶠ i in atTop, Passes GoBackNTransport.loopedExample abcSha256 "Go-Back-N"
      [97, 98, 99] [[97, 98], [99]] channel i) ∧
    ∀ᶠ i in atTop, Passes SelectiveRepeatTransport.loopedExample abcSha256
      "Selective Repeat" [97, 98, 99] [[97, 98], [99]] channel i := by
  intro channel
  have hdemo := demo_passes abcSha256 [97, 98, 99] 2 [[97, 98], [99]] (by decide)
    chunk_abc {} {} ("a", 1) ("b", 2)
    (LoopedRun.exampleLooped ("b", 2) [97, 98] [99]) exampleDraws exampleDraws
    (LoopedRun.exampleBatches (LoopedRun.exampleSends [97, 98] [99]) ("b", 2))
    (LoopedRun.exampleBatches LoopedRun.exampleReplies ("a", 1))
  constructor
  · apply hdemo.1 GoBackNTransport.calm_loopedExample
    · apply LoopedRun.overChannels_exampleLooped rfl
        GoBackNTransport.atRest_loopedExample _ _ LoopedRun.exampleSends_quiet
        LoopedRun.exampleReplies_quiet
      · decide +kernel
      · decide +kernel
      · constructor <;> decide +kernel
      · constructor <;> decide +kernel
    · apply handsOver_exampleLooped (r := GoBackNTransport.loopedExample) rfl
        GoBackNTransport.atRest_loopedExample
      decide +kernel
    · apply receives_exampleLooped rfl GoBackNTransport.atRest_loopedExample
      decide +kernel
  · apply hdemo.2 SelectiveRepeatTransport.calm_loopedExample
    · apply LoopedRun.overChannels_exampleLooped rfl
        SelectiveRepeatTransport.atRest_loopedExample _ _
        LoopedRun.exampleSends_quiet LoopedRun.exampleReplies_quiet
      · decide +kernel
      · decide +kernel
      · constructor <;> decide +kernel
      · constructor <;> decide +kernel
    · apply handsOver_exampleLooped (r := SelectiveRepeatTransport.loopedExample)
        rfl SelectiveRepeatTransport.atRest_loopedExample
      decide +kernel
    · apply receives_exampleLooped rfl SelectiveRepeatTransport.atRest_loopedExample
      decide +kernel

end UdpArq
