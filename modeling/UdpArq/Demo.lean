import UdpArq.FileLayer
import UdpArq.NullTransport
import UdpArq.StopAndWait.Emulated
import UdpArq.Windowed.Emulated

/-!
# The demo

`demo.py` cuts a file into chunks, sends them through a channel that loses
packets, and compares what has been received with the file.  Its verdict is
right: it says `PASS` exactly when every chunk has been received, and then the
file is intact.  Without retransmissions a single dropped packet makes it say
`FAIL`.  With each of the three protocols it says `PASS` once the transfer is
finished.
-/

namespace UdpArq

open FileLayer Channel UdpArq.Core

namespace Demo

/-- `_sha`. -/
def sha (H : Sha256) (data : Bytes) : String := H.hexdigest (H.sha256 data)

example (H : Sha256) (data : Bytes) :
    sha256Hex H (.bytesLike data) = .ok (sha H data) := rfl

/-- `Channel(LOCALHOST, loss=LOSS, seed=SEED)`. -/
def lossyChannel (draws : ℕ → Draw) : Emulator where
  impairments := { loss := 25 / 100, valid := by decide +kernel }
  draws

/-- `Channel(LOCALHOST)`. -/
def plainChannel (draws : ℕ → Draw) : Emulator where
  impairments := { valid := by decide +kernel }
  draws

/-- A row of the report, without the elapsed time. -/
structure Row where
  name : String
  chunks : ℕ
  dropped : ℕ
  sent : ℕ
  received : ℕ
  resends : ℤ
  status : String

/-- `ok`. -/
def ok (H : Sha256) (chunks received : List Bytes) (originalHash : String) :
    Bool :=
  decide (received.length = chunks.length) &&
    decide (sha H (reassemble received) = originalHash)

/-- `run_arq`, once the sender has used `channel`.  The source reads its list of
received payloads three times after `thread.join(timeout=60.0)`, while a thread
that is late may still append to it; here `received` stands for all three, and
holds what has come from the sender. -/
def runArq (H : Sha256) (name : String) (chunks : List Bytes)
    (originalHash : String) (channel : Channel) (received : List Bytes) : Row where
  name
  chunks := chunks.length
  dropped := channel.dropped
  sent := channel.sent
  received := received.length
  resends := channel.sent - chunks.length
  status := if ok H chunks received originalHash then "PASS" else "FAIL"

/-- `run_null`, with one `received` for the three readings as well. -/
def runNull (H : Sha256) (chunks : List Bytes) (originalHash : String)
    (channel : Channel) (received : List Bytes) : Row where
  name := "Null (no ARQ)"
  chunks := chunks.length
  dropped := channel.dropped
  sent := channel.sent
  received := received.length
  resends := 0
  status := if ok H chunks received originalHash then "PASS" else "FAIL"

variable {H : Sha256} {data : Bytes} {mss : ℕ} {chunks received : List Bytes}

theorem reassemble_chunks (hmss : 1 ≤ mss)
    (hchunks : chunk (.bytesLike data) mss = .ok chunks) :
    reassemble chunks = data := by
  obtain ⟨chunks', hchunks', hcuts⟩ := chunk_cuts data hmss
  rw [hchunks] at hchunks'
  cases hchunks'
  exact hcuts.flatten

/-- If the chunks arrive in order, the number of chunks decides. -/
theorem ok_iff (hmss : 1 ≤ mss)
    (hchunks : chunk (.bytesLike data) mss = .ok chunks)
    (hsub : received.Sublist chunks) :
    ok H chunks received (sha H data) = true ↔ received = chunks := by
  constructor
  · intro hok
    rw [ok, Bool.and_eq_true, decide_eq_true_eq] at hok
    exact hsub.eq_of_length hok.1
  · rintro rfl
    simp [ok, reassemble_chunks hmss hchunks]

/-- The verdict on what has been received of a file: the number of chunks
decides, and nothing else passes than the file. -/
structure Verdict (data : Bytes) (received : List Bytes) (row : Row) : Prop where
  pass_iff : row.status = "PASS" ↔ row.received = row.chunks
  fail_iff : row.status = "FAIL" ↔ row.received < row.chunks
  intact : row.status = "PASS" → reassemble received = data

theorem verdict_of_sublist (hmss : 1 ≤ mss)
    (hchunks : chunk (.bytesLike data) mss = .ok chunks)
    (hsub : received.Sublist chunks) {row : Row}
    (hrow : row.chunks = chunks.length ∧ row.received = received.length ∧
      row.status = if ok H chunks received (sha H data) then "PASS" else "FAIL") :
    Verdict data received row := by
  obtain ⟨htotal, hreceived, hstatus⟩ := hrow
  have hle : received.length ≤ chunks.length := hsub.length_le
  by_cases hall : received = chunks
  · have hok := (ok_iff (H := H) hmss hchunks hsub).mpr hall
    rw [if_pos hok] at hstatus
    have hlength : received.length = chunks.length := by rw [hall]
    refine ⟨?_, ?_, fun _ => ?_⟩
    · rw [hstatus, hreceived, htotal]
      simpa using hlength
    · rw [hstatus, hreceived, htotal]
      simp [hlength]
    · rw [hall]
      exact reassemble_chunks hmss hchunks
  · have hok : ¬ ok H chunks received (sha H data) = true :=
      mt (ok_iff hmss hchunks hsub).mp hall
    rw [if_neg hok] at hstatus
    have hlt : received.length < chunks.length :=
      lt_of_le_of_ne hle fun hlength => hall (hsub.eq_of_length hlength)
    refine ⟨?_, ?_, fun hpass => ?_⟩
    · rw [hstatus, hreceived, htotal]
      simp [hlt.ne]
    · rw [hstatus, hreceived, htotal]
      simpa using hlt
    · rw [hstatus] at hpass
      exact absurd hpass (by decide)

/-! ## The three protocols -/

/-- The payloads of the sender that `recvfrom` has returned. -/
def returned (s : Core) (txAddr : Address) : List Bytes :=
  toPeer txAddr (s.incomingData.puts.take s.incomingData.taken)

/-- The sender has handed over all chunks, each is completed without an error,
and `recvfrom` has returned all that was delivered. -/
structure Finished {cfgT cfgR : Config} {T : Endpoint cfgT} {R : Endpoint cfgR}
    (rxAddr : Address) (chunks : List Bytes) (w : EmulatedLink T R) : Prop where
  handed : toPeer rxAddr (T.core w.tx.transport).handed = chunks
  completed : ∀ s < chunks.length, (T.lane w.tx.transport rxAddr).Completed s
  taken : (R.core w.rx.transport).incomingData.puts.length ≤
    (R.core w.rx.transport).incomingData.taken

theorem verdict_of_transfers {cfgT cfgR : Config} {T : Endpoint cfgT}
    {R : Endpoint cfgR} {txAddr rxAddr : Address} {w : EmulatedLink T R}
    (htransfers : EmulatedLink.Transfers txAddr rxAddr w.tx w.rx)
    (hmss : 1 ≤ mss) (hchunks : chunk (.bytesLike data) mss = .ok chunks)
    (hsends : toPeer rxAddr (T.core w.tx.transport).handed <+: chunks)
    (hfew : chunks.length < 2 ^ 32) (name : String) :
    let received := returned (R.core w.rx.transport) txAddr
    let row := runArq H name chunks (sha H data) w.tx.channel received
    Verdict data received row ∧
      (Finished rxAddr chunks w → row.status = "PASS") := by
  intro received row
  obtain ⟨hdelivered, hall⟩ :=
    htransfers (lt_of_le_of_lt hsends.length_le hfew)
  have hreceived : received <+:
      toPeer txAddr (R.core w.rx.transport).incomingData.puts :=
    (List.take_prefix _ _).filterMap _
  have hverdict : Verdict data received row :=
    verdict_of_sublist hmss hchunks
      ((hreceived.trans hdelivered).trans hsends).sublist ⟨rfl, rfl, rfl⟩
  refine ⟨hverdict, fun hfinished => hverdict.pass_iff.mpr ?_⟩
  have htaken : received =
      toPeer txAddr (R.core w.rx.transport).incomingData.puts := by
    change toPeer txAddr (List.take _ _) = _
    rw [List.take_of_length_le hfinished.taken]
  have hcompleted := hall fun s hs =>
    hfinished.completed s (hfinished.handed ▸ hs)
  change received.length = chunks.length
  rw [htaken, hcompleted, hfinished.handed]

end Demo

open Demo

/-- Without retransmissions: the verdict is right, and it is `FAIL` as soon as
the channel has dropped a packet. -/
theorem demo_null (H : Sha256) (data : Bytes) (mss : ℕ) (chunks : List Bytes)
    (hmss : 1 ≤ mss) (hchunks : chunk (.bytesLike data) mss = .ok chunks)
    (cfg : Config) (txAddr rxAddr : Address) (draws : ℕ → Draw)
    (es : List NullEvent)
    (hsends : (NullLink.after cfg txAddr rxAddr (lossyChannel draws) es).handed
      <+: chunks) :
    let w := NullLink.after cfg txAddr rxAddr (lossyChannel draws) es
    let row := runNull H chunks (sha H data) w.line.channel w.received
    Verdict data w.received row ∧ row.received + row.dropped ≤ row.chunks ∧
      (0 < row.dropped → row.status = "FAIL") := by
  intro w row
  have hsound : NullLink.Sound rxAddr (lossyChannel draws) w :=
    NullLink.sound_after cfg txAddr rxAddr (lossyChannel draws) es
  have hsub : w.received.Sublist chunks :=
    (hsound.sublist (NullLink.exists_carries_after cfg txAddr rxAddr rfl rfl es)
      rfl).trans hsends.sublist
  have hverdict : Verdict data w.received row :=
    verdict_of_sublist hmss hchunks hsub ⟨rfl, rfl, rfl⟩
  have hmissing : row.received + row.dropped ≤ row.chunks :=
    (hsound.length_le rfl).trans hsends.length_le
  refine ⟨hverdict, hmissing, fun hdropped => hverdict.fail_iff.mpr ?_⟩
  omega

theorem chunk_abc : chunk (.bytesLike [97, 98, 99]) (2 : ℕ) =
    .ok [[97, 98], [99]] := by
  obtain ⟨chunks, hchunks, hcuts⟩ := chunk_cuts [97, 98, 99] Nat.two_pos
  have habc : Cuts 2 [(97 : UInt8), 98, 99] [[97, 98], [99]] := by
    constructor <;> decide
  rw [hchunks, hcuts.unique habc]

/-- Draws with which a channel that loses packets loses the first one. -/
def exampleDraws (n : ℕ) : Draw :=
  if n = 0 then Draw.sixteenths 2
  else Draw.sixteenths 14

/-- Three bytes in chunks of two, of which the first is lost. -/
theorem demo_null_abc :
    let w := NullLink.after {} ("a", 1) ("b", 2) (lossyChannel exampleDraws)
      [.sendto [97, 98] 0, .sendto [99] 0, .channel (.wake 0 false),
        .recvfrom (some 1) 0 0]
    w.received = [[99]] ∧ (runNull abcSha256 [[97, 98], [99]]
      (sha abcSha256 [97, 98, 99]) w.line.channel w.received).status = "FAIL" := by
  intro w
  refine ⟨by decide +kernel, ?_⟩
  exact (demo_null abcSha256 [97, 98, 99] 2 [[97, 98], [99]] (by decide) chunk_abc
    {} ("a", 1) ("b", 2) exampleDraws _ (by decide +kernel)).2.2 (by decide +kernel)

/-- With Stop-and-Wait: as long as no `sendto` has raised and the channel of the
receiver is open the verdict is right, and it is `PASS` once every `sendto` and
every `recvfrom` has returned. -/
theorem demo_stopAndWait (H : Sha256) (data : Bytes) (mss : ℕ)
    (chunks : List Bytes) (hmss : 1 ≤ mss)
    (hchunks : chunk (.bytesLike data) mss = .ok chunks) (cfg : Config)
    (txAddr rxAddr : Address) (draws draws' : ℕ → Draw)
    (es : List EmulatedStopAndWaitEvent) :
    let w := EmulatedStopAndWait.after cfg txAddr rxAddr (lossyChannel draws)
      (plainChannel draws') es
    w.link.handed <+: chunks → w.link.failures = [] →
      w.acks.channel.closed = false →
        let row := runArq H "Stop-and-Wait" chunks (sha H data) w.data.channel
          w.link.returned
        Verdict data w.link.returned row ∧
          (w.link.handed = chunks → w.link.call = none →
            w.link.returning = none → row.status = "PASS") := by
  intro w hsends hfailures hopen row
  have honce := EmulatedStopAndWait.exactlyOnce cfg txAddr rxAddr
    (lossyChannel draws) (plainChannel draws') ⟨rfl, rfl⟩ ⟨rfl, rfl⟩ es hfailures
    hopen
  have hreturned' : w.link.returned <+: chunks := by
    obtain ⟨k, -, -, haccepted⟩ := honce.accepted
    exact (List.prefix_append _ _).trans
      (haccepted ▸ (List.take_prefix k w.link.handed).trans hsends)
  have hverdict : Verdict data w.link.returned row :=
    verdict_of_sublist hmss hchunks hreturned'.sublist ⟨rfl, rfl, rfl⟩
  refine ⟨hverdict, fun hall hcall hreturning => hverdict.pass_iff.mpr ?_⟩
  have hreturned := (honce.idle hcall).2.1
  rw [hreturning, Option.toList_none, List.append_nil, hall] at hreturned
  exact congrArg List.length hreturned

/-- The first packet is dropped, and sent once more. -/
def exampleResendRun : List EmulatedStopAndWaitEvent :=
  [.sendto [97, 98], .transmit 0 0, .await ⟨1, .timedOut, 1⟩, .transmit 1 1,
    .dataChannel (.wake 1 false), .toRx 0 none 1, .recvfromReturns,
    .acksChannel (.wake 1 false), .toTx 0 1 1, .sendto [99], .transmit 1 1,
    .dataChannel (.wake 1 false), .toRx 1 none 1, .recvfromReturns,
    .acksChannel (.wake 1 false), .toTx 1 1 1]

theorem demo_stopAndWait_abc :
    let w := EmulatedStopAndWait.after {} ("a", 1) ("b", 2)
      (lossyChannel exampleDraws) (plainChannel exampleDraws) exampleResendRun
    let row := runArq abcSha256 "Stop-and-Wait" [[97, 98], [99]]
      (sha abcSha256 [97, 98, 99]) w.data.channel w.link.returned
    row.status = "PASS" ∧ row.resends = 1 := by
  intro w row
  have hdemo := demo_stopAndWait abcSha256 [97, 98, 99] 2 [[97, 98], [99]]
    (by decide) chunk_abc {} ("a", 1) ("b", 2) exampleDraws exampleDraws
    exampleResendRun
  constructor
  · apply (hdemo _ _ _).2 <;> decide +kernel
  · decide +kernel

/-- With Go-Back-N and with Selective Repeat: the verdict is right, and it is
`PASS` once every chunk is completed and has been taken from the queue. -/
theorem demo_windowed (H : Sha256) (data : Bytes) (mss : ℕ)
    (chunks : List Bytes) (hmss : 1 ≤ mss)
    (hchunks : chunk (.bytesLike data) mss = .ok chunks)
    (hfew : chunks.length < 2 ^ 32) (cfgT cfgR : Config)
    (txAddr rxAddr : Address) (draws draws' : ℕ → Draw)
    (es : List EmulatedEvent) :
    (let w := EmulatedLink.after (GoBackNTransport.endpoint cfgT)
       (GoBackNTransport.endpoint cfgR) txAddr rxAddr (lossyChannel draws)
       (plainChannel draws') es
     toPeer rxAddr w.tx.transport.handed <+: chunks →
       let received := returned w.rx.transport.toCore txAddr
       let row := runArq H "Go-Back-N" chunks (sha H data) w.tx.channel received
       Verdict data received row ∧
         (Finished rxAddr chunks w → row.status = "PASS")) ∧
    (let w := EmulatedLink.after (SelectiveRepeatTransport.endpoint cfgT)
       (SelectiveRepeatTransport.endpoint cfgR) txAddr rxAddr
       (lossyChannel draws) (plainChannel draws') es
     toPeer rxAddr w.tx.transport.handed <+: chunks →
       let received := returned w.rx.transport.toCore txAddr
       let row := runArq H "Selective Repeat" chunks (sha H data) w.tx.channel
         received
       Verdict data received row ∧
         (Finished rxAddr chunks w → row.status = "PASS")) := by
  constructor
  · intro w hsends
    have htransfers : EmulatedLink.Transfers txAddr rxAddr w.tx w.rx :=
      EmulatedLink.transfers (GoBackNTransport.endpoint cfgT)
        (GoBackNTransport.endpoint cfgR) txAddr rxAddr _ _ (fun _ _ h => h) es
    exact verdict_of_transfers htransfers hmss hchunks hsends hfew _
  · intro w hsends
    have htransfers : EmulatedLink.Transfers txAddr rxAddr w.tx w.rx :=
      EmulatedLink.transfers (SelectiveRepeatTransport.endpoint cfgT)
        (SelectiveRepeatTransport.endpoint cfgR) txAddr rxAddr _ _ (fun _ _ h => h) es
    exact verdict_of_transfers htransfers hmss hchunks hsends hfew _

/-- Two datagrams, the first of which is sent again after its deadline. -/
def exampleDemoRun : List EmulatedEvent :=
  let packet seq data := (dataPacket seq data).toOption.getD []
  let ack n := (ackPacket n).toOption.getD []
  [.tx (.sendto [97, 98] ("b", 2)) fun _ => 0,
    .tx (.sendto [99] ("b", 2)) fun _ => 0, .tx .drain fun _ => 0,
    .tx .drain fun _ => 0, .tx (.pump ("b", 2) ⟨0, 0, none⟩) fun _ => 0,
    .tx (.timeouts ⟨1, fun _ => 1, fun _ _ => 1, fun _ _ => none⟩) fun _ => 1,
    .tx (.pump ("b", 2) ⟨1, 1, none⟩) fun _ => 1, .txChannel (.wake 1 false),
    .txChannel (.wake 1 false), .toRx (packet 0 [97, 98]) ⟨1, 1, none⟩ fun _ => 1,
    .toRx (packet 1 [99]) ⟨1, 1, none⟩ fun _ => 1, .rxChannel (.wake 1 false),
    .rxChannel (.wake 1 false), .toTx (ack 1) ⟨1, 1, none⟩ fun _ => 1,
    .toTx (ack 2) ⟨1, 1, none⟩ fun _ => 1, .rx .recvfrom fun _ => 1,
    .rx .recvfrom fun _ => 1]

theorem demo_windowed_abc :
    let w := EmulatedLink.after (GoBackNTransport.endpoint {})
      (GoBackNTransport.endpoint {}) ("a", 1) ("b", 2) (lossyChannel exampleDraws)
      (plainChannel exampleDraws) exampleDemoRun
    let w' := EmulatedLink.after (SelectiveRepeatTransport.endpoint {})
      (SelectiveRepeatTransport.endpoint {}) ("a", 1) ("b", 2)
      (lossyChannel exampleDraws) (plainChannel exampleDraws) exampleDemoRun
    (runArq abcSha256 "Go-Back-N" [[97, 98], [99]] (sha abcSha256 [97, 98, 99])
      w.tx.channel (returned w.rx.transport.toCore ("a", 1))).status = "PASS" ∧
    (runArq abcSha256 "Selective Repeat" [[97, 98], [99]]
      (sha abcSha256 [97, 98, 99]) w'.tx.channel
      (returned w'.rx.transport.toCore ("a", 1))).status = "PASS" := by
  intro w w'
  have hdemo := demo_windowed abcSha256 [97, 98, 99] 2 [[97, 98], [99]]
    (by decide) chunk_abc (by decide) {} {} ("a", 1) ("b", 2) exampleDraws
    exampleDraws exampleDemoRun
  constructor
  · apply (hdemo.1 (by decide +kernel)).2
    constructor <;> decide +kernel
  · apply (hdemo.2 (by decide +kernel)).2
    constructor <;> decide +kernel

end UdpArq
