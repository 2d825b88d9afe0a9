import UdpArq.StopAndWait.Link

/-!
# Stop-and-Wait refines the alternating-bit protocol

Specifications of the steps of `sendto` and `recvfrom`, and the refinement that
they amount to: forgetting the transports and the contents of the packets turns
a step of the link into at most one step of the protocol.
-/

namespace UdpArq

theorem mod_two_xor_one (n : ℕ) : n % 2 ^^^ 1 = (n + 1) % 2 := by
  rcases Nat.mod_two_eq_zero_or_one n with h | h
  · rw [h, Nat.succ_mod_two_eq_one_iff.mpr h]
    rfl
  · rw [h, Nat.succ_mod_two_eq_zero_iff.mpr h]
    rfl

/-- The byte string is read by `recvfrom` as datagram number `seq`. -/
def IsDatagram (raw : Bytes) (seq : ℕ) (payload : Bytes) : Prop :=
  verify raw = true ∧ ∃ header, decode raw = .ok (header, payload) ∧
    header.flags &&& FLAG_DATA ≠ 0 ∧ header.seq = seq

theorem isDatagram_of_dataPacket {seq : ℕ} {data raw : Bytes}
    (hraw : Core.dataPacket seq data = .ok raw) : IsDatagram raw seq data := by
  obtain ⟨hverify, header, hdecode, -, hflags, hseq⟩ :=
    Core.isData_of_dataPacket hraw
  exact ⟨hverify, header, hdecode, hflags, hseq⟩

/-- Of the copies of an ACK packet, the intact ones are read as what was
sent, and the damaged ones are not read. -/
theorem isAck_corrupt_iff {n m : ℕ} {raw : Bytes} {flip : Option ℕ}
    (hraw : Core.ackPacket n = .ok raw) :
    IsAck (corrupt raw flip) m ↔ corrupt raw flip = raw ∧ n = m := by
  have hack := Core.isAck_of_ackPacket hraw
  rcases corrupt_eq_or_verify hack.1 flip with heq | hbad
  · rw [heq]
    constructor
    · intro h
      exact ⟨rfl, hack.unique h⟩
    · rintro ⟨-, rfl⟩
      exact hack
  · constructor
    · intro h
      exact absurd h.1 (by simp [hbad])
    · rintro ⟨heq, -⟩
      rw [heq, hack.1] at hbad
      cases hbad

namespace StopAndWaitTransport

variable {cfg : Config} {t : StopAndWaitTransport} {call : Call}

/-! ## What the steps of `sendto` do -/

/-- The call goes on as before, or raises. -/
inductive Unfinished (call : Call) : Progress Call → Prop
  | running {call' : Call} (haddr : call'.addr = call.addr)
      (hseq : call'.seq = call.seq) (hpacket : call'.packet = call.packet) :
      Unfinished call (.running call')
  | raised (e : Err) : Unfinished call (.raised e)

theorem unfinished_self (call : Call) : Unfinished call (.running call) :=
  .running rfl rfl rfl

theorem unfinished_beginAttempt {call' : Call} (haddr : call'.addr = call.addr)
    (hseq : call'.seq = call.seq) (hpacket : call'.packet = call.packet)
    (attempt : ℕ) : Unfinished call (beginAttempt cfg call' attempt) := by
  unfold beginAttempt
  split_ifs
  · exact .running haddr hseq hpacket
  · exact .raised _

variable (cfg) in
theorem unfinished_transmit (call : Call) (sentAt : ℚ)
    (sendResult : Option String) :
    Unfinished call (transmit cfg call sentAt sendResult) := by
  unfold transmit
  split
  · exact .raised _
  · exact .running rfl rfl rfl

theorem attemptTimedOut_spec (t : StopAndWaitTransport) (call : Call) :
    (attemptTimedOut cfg t call).1.sendBit = t.sendBit ∧
      Unfinished call (attemptTimedOut cfg t call).2 := by
  unfold attemptTimedOut
  split_ifs
  · refine ⟨rfl, ?_⟩
    dsimp only
    apply unfinished_beginAttempt <;> rfl
  · exact ⟨rfl, unfinished_beginAttempt rfl rfl rfl _⟩

variable (cfg) in
/-- A call starts with the stored bit and a packet that carries it, or raises. -/
theorem sendto_spec (t : StopAndWaitTransport) (data : Bytes) (addr : Address) :
    (t.sendto cfg data addr).1.sendBit = t.sendBit ∧
      ((∃ e, (t.sendto cfg data addr).2 = .raised e) ∨
        ∃ call, (t.sendto cfg data addr).2 = .running call ∧
          call.addr = addr ∧ call.seq = t.sendBit.getD addr 0 ∧
          Core.dataPacket call.seq data = .ok call.packet) := by
  unfold sendto
  split_ifs
  · exact ⟨rfl, Or.inl ⟨_, rfl⟩⟩
  · split
    · exact ⟨rfl, Or.inl ⟨_, rfl⟩⟩
    · dsimp only
      split
      · exact ⟨rfl, Or.inl ⟨_, rfl⟩⟩
      · rename_i packet hpacket
        refine ⟨rfl, ?_⟩
        unfold beginAttempt
        split_ifs
        · exact Or.inr ⟨_, rfl, rfl, rfl, hpacket⟩
        · exact Or.inl ⟨_, rfl⟩

/-- The iteration reads the awaited acknowledgement. -/
def ReadsAck (call : Call) (deadline : ℚ) (input : AwaitInput) : Prop :=
  input.now < deadline ∧ ∃ raw, input.arrival = .packet raw call.addr ∧
    IsAck raw (call.seq ^^^ 1)

theorem handlePacket_of_isAck {raw : Bytes} (sentAt now : ℚ)
    (hraw : IsAck raw (call.seq ^^^ 1)) :
    handlePacket cfg t call sentAt raw call.addr now =
      (acknowledged cfg t call sentAt now, .returned) := by
  obtain ⟨hverify, header, payload, hdecode, hflags, hack⟩ := hraw
  simp [handlePacket, hverify, hdecode, hflags, hack]

theorem handlePacket_of_not_isAck {raw : Bytes} {fromAddr : Address}
    (sentAt now : ℚ)
    (hraw : ¬ (fromAddr = call.addr ∧ IsAck raw (call.seq ^^^ 1))) :
    handlePacket cfg t call sentAt raw fromAddr now = (t, .running call) := by
  unfold handlePacket
  split_ifs with hfrom hverify
  · rfl
  · rfl
  · split
    · rfl
    · rename_i header payload hdecode
      split_ifs with hflags hack
      · rfl
      · exfalso
        rw [Bool.not_eq_false] at hverify
        exact hraw ⟨not_not.mp hfrom, hverify, header, payload, hdecode, hflags,
          hack⟩
      · rfl

@[simp] theorem acknowledged_sendBit (t : StopAndWaitTransport) (call : Call)
    (sentAt now : ℚ) :
    (acknowledged cfg t call sentAt now).sendBit =
      t.sendBit.set call.addr (call.seq ^^^ 1) := by
  unfold acknowledged
  dsimp only
  split_ifs <;> rfl

/-- A call returns in the iteration that reads the awaited acknowledgement. -/
theorem awaitAck_of_readsAck {sentAt deadline : ℚ} {input : AwaitInput}
    (h : ReadsAck call deadline input) :
    awaitAck cfg t call sentAt deadline input =
      (acknowledged cfg t call sentAt input.ackedAt, .returned) := by
  obtain ⟨hnow, raw, harrival, hraw⟩ := h
  have hpos : ¬ deadline - input.now ≤ 0 := not_le.mpr (sub_pos.mpr hnow)
  simp only [awaitAck, if_neg hpos, harrival]
  exact handlePacket_of_isAck sentAt input.ackedAt hraw

variable (cfg t) in
/-- Every other iteration leaves the bit as it is and the call unfinished. -/
theorem awaitAck_of_not_readsAck (sentAt : ℚ) {deadline : ℚ}
    {input : AwaitInput} (h : ¬ ReadsAck call deadline input) :
    (awaitAck cfg t call sentAt deadline input).1.sendBit = t.sendBit ∧
      Unfinished call (awaitAck cfg t call sentAt deadline input).2 := by
  unfold awaitAck
  split_ifs with hexpired
  · exact attemptTimedOut_spec t call
  · split
    · exact attemptTimedOut_spec t call
    · exact ⟨rfl, .raised _⟩
    · rename_i raw fromAddr harrival
      have hraw : ¬ (fromAddr = call.addr ∧ IsAck raw (call.seq ^^^ 1)) := by
        rintro ⟨rfl, hraw⟩
        exact h ⟨sub_pos.mp (not_le.mp hexpired), raw, harrival, hraw⟩
      rw [handlePacket_of_not_isAck sentAt input.ackedAt hraw]
      exact ⟨rfl, unfinished_self call⟩

/-! ## What an iteration of `recvfrom` does -/

theorem recvPacket_of_isDatagram {raw payload : Bytes} {seq : ℕ}
    (hraw : IsDatagram raw seq payload) (addr : Address)
    (sendResult : Option String) :
    t.recvPacket raw addr sendResult =
      t.acceptData addr seq payload sendResult := by
  obtain ⟨hverify, header, hdecode, hflags, hseq⟩ := hraw
  simp [recvPacket, hverify, hdecode, hflags, hseq]

theorem recvPacket_of_not_verify {raw : Bytes} (hraw : verify raw = false)
    (addr : Address) (sendResult : Option String) :
    t.recvPacket raw addr sendResult = (t, .ignored) := by
  simp [recvPacket, hraw]

/-- The expected bit is accepted, turned and acknowledged. -/
theorem acceptData_new {addr : Address} {k : ℕ}
    (hbit : t.recvBit.getD addr 0 = k % 2) (payload : Bytes) :
    ∃ ack, Core.ackPacket ((k + 1) % 2) = .ok ack ∧
      t.acceptData addr (k % 2) payload none =
        ({ t with recvBit := t.recvBit.set addr ((k + 1) % 2) },
          .returning ack payload) := by
  obtain ⟨ack, hack⟩ := Core.ackPacket_isOk_iff.mpr
    (show (k + 1) % 2 ≤ 0xFFFFFFFF by omega)
  refine ⟨ack, hack, ?_⟩
  simp [acceptData, hbit, mod_two_xor_one, hack]

/-- The other bit is acknowledged again. -/
theorem acceptData_duplicate {addr : Address} {k seq : ℕ}
    (hbit : t.recvBit.getD addr 0 = k % 2) (hseq : seq ≠ k % 2)
    (payload : Bytes) (sendResult : Option String) :
    ∃ ack, Core.ackPacket (k % 2) = .ok ack ∧
      t.acceptData addr seq payload sendResult =
        (t, match sendResult with
          | some what => .raised (.channel what)
          | none => .acknowledged ack) := by
  obtain ⟨ack, hack⟩ := Core.ackPacket_isOk_iff.mpr
    (show k % 2 ≤ 0xFFFFFFFF by omega)
  refine ⟨ack, hack, ?_⟩
  cases sendResult with
  | none => simp [acceptData, hbit, hseq, hack]
  | some what => simp [acceptData, hbit, hseq, hack]

theorem acceptData_recvBit_of_ne {addr a : Address} (ha : a ≠ addr) (seq : ℕ)
    (payload : Bytes) (sendResult : Option String) :
    (t.acceptData addr seq payload sendResult).1.recvBit.getD a 0 =
      t.recvBit.getD a 0 := by
  unfold acceptData
  dsimp only
  split
  · split_ifs
    · simp [Dict.getD, ha]
    · rfl
  · split
    · split_ifs
      · simp [Dict.getD, ha]
      · rfl
    · split_ifs
      · simp [Dict.getD, ha]
      · rfl

/-- Packets from other addresses leave the expected bit as it is. -/
theorem recvfrom_recvBit_of_not_isFrom {arrival : ChannelRecv} {a : Address}
    (ha : arrival.isFrom a = false) (remaining : Option ℚ)
    (sendResult : Option String) :
    (t.recvfrom remaining arrival sendResult).1.recvBit.getD a 0 =
      t.recvBit.getD a 0 := by
  unfold recvfrom
  split_ifs
  · rfl
  · split
    · rfl
    · rfl
    · rename_i raw addr
      have hne : a ≠ addr := by
        rintro rfl
        simp [ChannelRecv.isFrom] at ha
      unfold recvPacket
      split_ifs
      · rfl
      · split
        · rfl
        · split_ifs
          · rfl
          · exact acceptData_recvBit_of_ne hne _ _ _

end StopAndWaitTransport

open StopAndWaitTransport

namespace StopAndWaitLink

/-! ## The refinement -/

/-- The state of the protocol: the histories and what the logs count. -/
def protocol (n : StopAndWaitLink) : AlternatingBit Bytes where
  handed := n.handed
  completed := n.completed
  accepted := n.accepted
  data := n.data.map Prod.fst
  acks := n.acks.map Prod.fst
  dataRead := n.dataRead
  ackRead := n.ackRead

/-- The number of the packet at position `i` of a log, if its copy is intact. -/
def intactCopy (log : List (ℕ × Bytes)) (i : ℕ) (flip : Option ℕ) : Option ℕ :=
  (log[i]?.filter fun m => corrupt m.2 flip = m.2).map Prod.fst

theorem intactCopy_eq_some {log : List (ℕ × Bytes)} {i q : ℕ}
    {flip : Option ℕ} (hcopy : (intactCopy log i flip).isSome)
    (hq : (log.map Prod.fst)[i]? = some q) :
    intactCopy log i flip = some q := by
  rw [List.getElem?_map, Option.map_eq_some_iff] at hq
  obtain ⟨m, hm, rfl⟩ := hq
  rw [intactCopy, hm] at hcopy ⊢
  by_cases hintact : corrupt m.2 flip = m.2
  · rw [Option.filter_some, if_pos (by simpa using hintact), Option.map_some]
  · simp [hintact] at hcopy

/-- The number of the DATA packet that `recvfrom` reads intact when a copy of
the packet at position `i` arrives. -/
def rxReads (n : StopAndWaitLink) (i : ℕ) (flip : Option ℕ)
    (remaining : Option ℚ) : Option ℕ :=
  if n.returning = none ∧ ¬ ∃ r ∈ remaining, r ≤ 0 then
    intactCopy n.data i flip
  else none

/-- The number of the ACK packet that `sendto` reads intact when a copy of the
packet at position `i` arrives. -/
def txReads (n : StopAndWaitLink) (i : ℕ) (flip : Option ℕ) (now : ℚ) :
    Option ℕ :=
  match n.waitingCall with
  | none => none
  | some (_, _, deadline) =>
      if now < deadline then intactCopy n.acks i flip else none

/-- The step of the protocol that an event of the link amounts to. -/
def protocolEvent (n : StopAndWaitLink) :
    StopAndWaitEvent → Option (AlternatingBit.Event Bytes)
  | .sendto payload => if n.call.isNone then some (.call payload) else none
  | .transmit _ sendResult =>
      if n.sendingCall.isSome ∧ sendResult = none then some .transmit else none
  | .toTx i flip now _ =>
      if n.waitingCall.isSome then some (.ack i (n.txReads i flip now).isSome)
      else none
  | .toRx i flip remaining sendResult =>
      if n.returning.isNone then
        some (.data i ((n.rxReads i flip remaining).isSome &&
          sendResult.isNone))
      else none
  | _ => none

/-- Deliveries to `sendto` and `recvfrom` are deliveries of the protocol. -/
theorem protocolEvent_cases {n : StopAndWaitLink} {e : StopAndWaitEvent}
    {a : AlternatingBit.Event Bytes} (ha : n.protocolEvent e = some a) :
    (∃ payload, a = .call payload) ∨ a = .transmit ∨
      (∃ i flip now ackedAt, e = .toTx i flip now ackedAt ∧
        a = .ack i (n.txReads i flip now).isSome) ∨
      ∃ i flip remaining sendResult, e = .toRx i flip remaining sendResult ∧
        a = .data i
          ((n.rxReads i flip remaining).isSome && sendResult.isNone) := by
  cases e with
  | sendto payload =>
      simp only [protocolEvent] at ha
      split_ifs at ha
      cases ha
      exact Or.inl ⟨payload, rfl⟩
  | transmit sentAt sendResult =>
      simp only [protocolEvent] at ha
      split_ifs at ha
      cases ha
      exact Or.inr (Or.inl rfl)
  | toTx i flip now ackedAt =>
      simp only [protocolEvent] at ha
      split_ifs at ha
      cases ha
      exact Or.inr (Or.inr (Or.inl ⟨i, flip, now, ackedAt, rfl, rfl⟩))
  | toRx i flip remaining sendResult =>
      simp only [protocolEvent] at ha
      split_ifs at ha
      cases ha
      exact Or.inr (Or.inr (Or.inr ⟨i, flip, remaining, sendResult, rfl, rfl⟩))
  | _ => cases ha

/-- A call of `sendto` follows calls that have returned, and no payload is
accepted whose ACK cannot be sent. -/
def Admissible (n : StopAndWaitLink) : StopAndWaitEvent → Prop
  | .sendto _ => n.call = none → n.handed.length = n.completed
  | .toRx i flip remaining sendResult =>
      ∀ q ∈ n.rxReads i flip remaining,
        q % 2 = n.accepted.length % 2 → sendResult = none
  | _ => True

/-- The bits are the parities of the counts, and the packets carry what the
logs say. -/
structure Matches (txAddr rxAddr : Address) (n : StopAndWaitLink) : Prop where
  sendBit : n.tx.sendBit.getD rxAddr 0 = n.completed % 2
  recvBit : n.rx.recvBit.getD txAddr 0 = n.accepted.length % 2
  call : ∀ call, n.call = some call → call.addr = rxAddr ∧
    call.seq = n.completed % 2 ∧ n.handed.length = n.completed + 1 ∧
    ∃ p, n.handed[n.completed]? = some p ∧
      Core.dataPacket call.seq p = .ok call.packet
  data : ∀ m ∈ n.data, ∃ p, n.handed[m.1]? = some p ∧
    Core.dataPacket (m.1 % 2) p = .ok m.2
  acks : ∀ m ∈ n.acks, Core.ackPacket (m.1 % 2) = .ok m.2

section

variable {cfg : Config} {txAddr rxAddr : Address} {n : StopAndWaitLink}

theorem matches_init : Matches txAddr rxAddr init where
  sendBit := rfl
  recvBit := rfl
  call := by simp [init]
  data := by simp [init]
  acks := by simp [init]

/-- Another ACK packet in the log. -/
theorem ackPackets_concat {acks : List (ℕ × Bytes)}
    (hacks : ∀ m ∈ acks, Core.ackPacket (m.1 % 2) = .ok m.2) {k : ℕ}
    {ack : Bytes} (hack : Core.ackPacket (k % 2) = .ok ack) :
    ∀ m ∈ acks ++ [(k, ack)], Core.ackPacket (m.1 % 2) = .ok m.2 := by
  intro m hm
  rcases List.mem_append.mp hm with hold | hlast
  · exact hacks m hold
  · rw [List.mem_singleton.mp hlast]
    exact hack

theorem call_of_sendingCall {call : Call} (h : n.sendingCall = some call) :
    n.call = some call := by
  unfold sendingCall at h
  split at h
  · cases h
  · rename_i call' hcall
    split at h
    · rw [hcall, h]
    · cases h

theorem call_of_waitingCall {call : Call} {sentAt deadline : ℚ}
    (h : n.waitingCall = some (call, sentAt, deadline)) :
    n.call = some call := by
  unfold waitingCall at h
  split at h
  · cases h
  · rename_i call' hcall
    split at h
    · cases h
    · cases h
      exact hcall

/-! ## What a delivery does -/

theorem txReads_cases {call : Call} {sentAt deadline : ℚ} {i j : ℕ}
    {raw : Bytes} (hwaiting : n.waitingCall = some (call, sentAt, deadline))
    (hget : n.acks[i]? = some (j, raw)) (flip : Option ℕ) (now : ℚ) :
    n.txReads i flip now = none ∨ n.txReads i flip now = some j := by
  by_cases hnow : now < deadline <;>
    by_cases hintact : corrupt raw flip = raw <;>
      simp [txReads, intactCopy, hwaiting, hget, hnow, hintact]

theorem txReads_eq_some_iff {call : Call} {sentAt deadline : ℚ} {i j : ℕ}
    {raw : Bytes} (hwaiting : n.waitingCall = some (call, sentAt, deadline))
    (hget : n.acks[i]? = some (j, raw)) {flip : Option ℕ} {now : ℚ} :
    n.txReads i flip now = some j ↔
      now < deadline ∧ corrupt raw flip = raw := by
  by_cases hnow : now < deadline <;>
    by_cases hintact : corrupt raw flip = raw <;>
      simp [txReads, intactCopy, hwaiting, hget, hnow, hintact]

variable (cfg txAddr) in
/-- A copy of an ACK packet that arrives while a call waits completes the call,
or is not the awaited one. -/
theorem toTx_cases {call : Call} {sentAt deadline : ℚ} {i j k : ℕ} {raw : Bytes}
    (hwaiting : n.waitingCall = some (call, sentAt, deadline))
    (hget : n.acks[i]? = some (j, raw))
    (hack : Core.ackPacket (j % 2) = .ok raw) (haddr : call.addr = rxAddr)
    (hseq : call.seq = k % 2) (flip : Option ℕ) (now ackedAt : ℚ) :
    (n.txReads i flip now = some j ∧ j % 2 = (k + 1) % 2 ∧
        step cfg txAddr rxAddr n (.toTx i flip now ackedAt) =
          { n with ackRead := i }.sends
            (acknowledged cfg n.tx call sentAt ackedAt, .returned)) ∨
      ¬ (n.txReads i flip now = some j ∧ j % 2 = (k + 1) % 2) ∧
        ∃ t p, t.sendBit = n.tx.sendBit ∧ Unfinished call p ∧
          step cfg txAddr rxAddr n (.toTx i flip now ackedAt) =
            { n with ackRead := i }.sends (t, p) := by
  have hreads : ReadsAck call deadline
      ⟨now, .packet (corrupt raw flip) rxAddr, ackedAt⟩ ↔
        n.txReads i flip now = some j ∧ j % 2 = (k + 1) % 2 := by
    rw [txReads_eq_some_iff hwaiting hget]
    simp [ReadsAck, haddr, hseq, mod_two_xor_one, isAck_corrupt_iff hack,
      and_assoc]
  simp only [step, hwaiting, hget]
  by_cases hawaited : n.txReads i flip now = some j ∧ j % 2 = (k + 1) % 2
  · refine Or.inl ⟨hawaited.1, hawaited.2, ?_⟩
    rw [awaitAck_of_readsAck (hreads.mpr hawaited)]
  · obtain ⟨hbit, hu⟩ := awaitAck_of_not_readsAck cfg n.tx sentAt
      fun h' => hawaited (hreads.mp h')
    exact Or.inr ⟨hawaited, _, _, hbit, hu, rfl⟩

/-- What `recvfrom` does with a copy of a DATA packet. -/
theorem recvfrom_copy {t : StopAndWaitTransport} {seq : ℕ}
    {payload raw : Bytes} (hraw : IsDatagram raw seq payload)
    (flip : Option ℕ) (remaining : Option ℚ) (sendResult : Option String) :
    t.recvfrom remaining (.packet (corrupt raw flip) txAddr) sendResult =
      if ∃ r ∈ remaining, r ≤ 0 then (t, .raised .noDatagram)
      else if corrupt raw flip = raw then
        t.acceptData txAddr seq payload sendResult
      else (t, .ignored) := by
  unfold recvfrom
  split_ifs with hexpired hintact
  · rfl
  · rw [hintact]
    exact recvPacket_of_isDatagram hraw txAddr sendResult
  · rcases corrupt_eq_or_verify hraw.1 flip with heq | hbad
    · exact absurd heq hintact
    · exact recvPacket_of_not_verify hbad txAddr sendResult

variable (cfg rxAddr) in
/-- A copy of a DATA packet that arrives while `recvfrom` waits is not read, is
acknowledged again as a duplicate, or is accepted if its ACK can be sent. -/
theorem toRx_cases {i q bit k : ℕ} {raw payload : Bytes}
    (hreturning : n.returning = none) (hget : n.data[i]? = some (q, raw))
    (hraw : IsDatagram raw bit payload)
    (hbit : n.rx.recvBit.getD txAddr 0 = k % 2) (flip : Option ℕ)
    (remaining : Option ℚ) (sendResult : Option String) :
    (n.rxReads i flip remaining = none ∧
        step cfg txAddr rxAddr n (.toRx i flip remaining sendResult) =
          { n with dataRead := i }) ∨
      (n.rxReads i flip remaining = some q ∧ bit ≠ k % 2 ∧
        ∃ ack, Core.ackPacket (k % 2) = .ok ack ∧
          step cfg txAddr rxAddr n (.toRx i flip remaining sendResult) =
            { n with
              dataRead := i
              acks :=
                if sendResult = none then
                  n.acks ++ [(n.accepted.length, ack)]
                else n.acks }) ∨
      (n.rxReads i flip remaining = some q ∧ bit = k % 2 ∧
        (sendResult = none →
          ∃ ack, Core.ackPacket ((k + 1) % 2) = .ok ack ∧
            step cfg txAddr rxAddr n (.toRx i flip remaining sendResult) =
              { n with
                dataRead := i
                rx := { n.rx with
                  recvBit := n.rx.recvBit.set txAddr ((k + 1) % 2) }
                returning := some payload
                acks := n.acks ++ [(n.accepted.length + 1, ack)] })) := by
  simp only [step, hreturning, hget]
  rw [recvfrom_copy hraw]
  by_cases hexpired : ∃ r ∈ remaining, r ≤ 0
  · refine Or.inl ⟨if_neg fun h' => h'.2 hexpired, ?_⟩
    rw [if_pos hexpired]
    rfl
  rw [if_neg hexpired]
  by_cases hintact : corrupt raw flip = raw
  swap
  · refine Or.inl ⟨by simp [rxReads, intactCopy, hget, hintact], ?_⟩
    rw [if_neg hintact]
    rfl
  have hreads : n.rxReads i flip remaining = some q := by
    rw [rxReads, if_pos ⟨hreturning, hexpired⟩, intactCopy, hget]
    simp [hintact]
  rw [if_pos hintact]
  by_cases hparity : bit = k % 2
  · refine Or.inr (Or.inr ⟨hreads, hparity, ?_⟩)
    rintro rfl
    obtain ⟨ack, hack, haccept⟩ := acceptData_new hbit payload
    refine ⟨ack, hack, ?_⟩
    rw [hparity, haccept]
    simp [receives, accepted, hreturning]
  · obtain ⟨ack, hack, haccept⟩ :=
      acceptData_duplicate hbit hparity payload sendResult
    refine Or.inr (Or.inl ⟨hreads, hparity, ack, hack, ?_⟩)
    rw [haccept]
    rcases sendResult with _ | what <;>
      simp [receives, accepted, hreturning]

/-! ## The steps of the refinement -/

/-- A step in which a call goes on or raises changes nothing that the protocol
sees. -/
theorem Matches.sends_unfinished (h : Matches txAddr rxAddr n) {call : Call}
    (hcall : n.call = some call) {t : StopAndWaitTransport}
    (ht : t.sendBit = n.tx.sendBit) {p : Progress Call} (hp : Unfinished call p) :
    Matches txAddr rxAddr (n.sends (t, p)) ∧
      (n.sends (t, p)).protocol = n.protocol := by
  obtain ⟨haddr, hseq, hlen, payload, hget, hpacket⟩ := h.call call hcall
  have hbit : t.sendBit.getD rxAddr 0 = n.completed % 2 := by
    rw [ht]
    exact h.sendBit
  cases hp with
  | running haddr' hseq' hpacket' =>
      refine ⟨⟨hbit, h.recvBit, fun call'' hcall'' => ?_, h.data, h.acks⟩, rfl⟩
      cases hcall''
      refine ⟨haddr'.trans haddr, hseq'.trans hseq, hlen, payload, hget, ?_⟩
      rw [hseq', hpacket']
      exact hpacket
  | raised e =>
      refine ⟨⟨hbit, h.recvBit, fun call'' hcall'' => ?_, h.data, h.acks⟩, rfl⟩
      cases hcall''

theorem Matches.sendto_step (h : Matches txAddr rxAddr n) {payload : Bytes}
    (hcall : n.call = none) (hlen : n.handed.length = n.completed) :
    Matches txAddr rxAddr (step cfg txAddr rxAddr n (.sendto payload)) ∧
      (step cfg txAddr rxAddr n (.sendto payload)).protocol =
        n.protocol.step (.call payload) := by
  have hprotocol : n.protocol.step (.call payload) =
      { n.protocol with handed := n.handed ++ [payload] } := by
    simp [AlternatingBit.step, protocol, hlen]
  have hdata : ∀ m ∈ n.data, ∃ p, (n.handed ++ [payload])[m.1]? = some p ∧
      Core.dataPacket (m.1 % 2) p = .ok m.2 := by
    intro m hm
    obtain ⟨p, hget, hp⟩ := h.data m hm
    obtain ⟨hlt, -⟩ := List.getElem?_eq_some_iff.mp hget
    refine ⟨p, ?_, hp⟩
    rw [List.getElem?_append_left hlt]
    exact hget
  obtain ⟨hbit, hresult⟩ := sendto_spec cfg n.tx payload rxAddr
  have hsendBit : (n.tx.sendto cfg payload rxAddr).1.sendBit.getD rxAddr 0 =
      n.completed % 2 := by
    rw [hbit]
    exact h.sendBit
  rw [hprotocol]
  simp only [step, hcall, sends]
  rcases hresult with ⟨e, he⟩ | ⟨call, hrunning, haddr, hseq, hpacket⟩
  · rw [he]
    exact ⟨⟨hsendBit, h.recvBit, by simp, hdata, h.acks⟩, rfl⟩
  · rw [hrunning]
    refine ⟨⟨hsendBit, h.recvBit, fun call' hcall' => ?_, hdata, h.acks⟩, rfl⟩
    cases hcall'
    refine ⟨haddr, hseq.trans h.sendBit, ?_, payload, ?_, hpacket⟩
    · simp [hlen]
    · simp [← hlen]

theorem Matches.transmit_step (h : Matches txAddr rxAddr n) {sentAt : ℚ}
    {sendResult : Option String} :
    let n' := step cfg txAddr rxAddr n (.transmit sentAt sendResult)
    Matches txAddr rxAddr n' ∧ n'.protocol =
      (n.protocolEvent (.transmit sentAt sendResult)).elim n.protocol
        n.protocol.step := by
  simp only [step, protocolEvent]
  split
  · rename_i hnone
    simp only [hnone]
    exact ⟨h, rfl⟩
  · rename_i call hsending
    have hcall := call_of_sendingCall hsending
    obtain ⟨-, hseq, hlen, payload, hget, hpacket⟩ := h.call call hcall
    have hu := unfinished_transmit cfg call sentAt sendResult
    have hnumber : n.handed.length - 1 = n.completed := by
      rw [hlen, Nat.add_sub_cancel]
    cases sendResult with
    | some what =>
        obtain ⟨hmatches, hprotocol⟩ := h.sends_unfinished hcall rfl hu
        simp only [hsending]
        exact ⟨hmatches, hprotocol⟩
    | none =>
        rw [hnumber]
        have hlogged : Matches txAddr rxAddr
            { n with data := n.data ++ [(n.completed, call.packet)] } := by
          refine ⟨h.sendBit, h.recvBit, h.call, fun m hm => ?_, h.acks⟩
          rcases List.mem_append.mp hm with hold | hnew
          · exact h.data m hold
          · rw [List.mem_singleton.mp hnew]
            refine ⟨payload, hget, ?_⟩
            rw [← hseq]
            exact hpacket
        obtain ⟨hmatches, hprotocol⟩ := hlogged.sends_unfinished hcall rfl hu
        refine ⟨hmatches, hprotocol.trans ?_⟩
        simp [hsending, AlternatingBit.step, protocol, accepted, hlen]

variable (cfg) in
/-- The awaited acknowledgement completes the payload of the call. -/
theorem Matches.sends_returned (h : Matches txAddr rxAddr n) {call : Call}
    (hcall : n.call = some call) (sentAt now : ℚ) :
    Matches txAddr rxAddr
        (n.sends (acknowledged cfg n.tx call sentAt now, .returned)) ∧
      (n.sends (acknowledged cfg n.tx call sentAt now, .returned)).protocol =
        { n.protocol with completed := n.completed + 1 } := by
  obtain ⟨haddr, hseq, -, -⟩ := h.call call hcall
  refine ⟨⟨?_, h.recvBit, by simp [sends], h.data, h.acks⟩, rfl⟩
  simp [sends, Dict.getD, haddr, hseq, mod_two_xor_one]

theorem Matches.await_step (h : Matches txAddr rxAddr n) (input : AwaitInput) :
    Matches txAddr rxAddr (step cfg txAddr rxAddr n (.await input)) ∧
      (step cfg txAddr rxAddr n (.await input)).protocol = n.protocol := by
  simp only [step]
  split
  · exact ⟨h, rfl⟩
  · rename_i call sentAt deadline hwaiting
    split_ifs with hfrom
    · exact ⟨h, rfl⟩
    · have hcall := call_of_waitingCall hwaiting
      obtain ⟨haddr, -⟩ := h.call call hcall
      have hreads : ¬ ReadsAck call deadline input := by
        rintro ⟨-, raw, harrival, -⟩
        simp [harrival, ChannelRecv.isFrom, haddr] at hfrom
      obtain ⟨hbit, hu⟩ := awaitAck_of_not_readsAck cfg n.tx sentAt hreads
      exact h.sends_unfinished hcall hbit hu

/-- The delivery of a copy of an ACK packet. -/
theorem Matches.toTx_step (h : Matches txAddr rxAddr n) {i : ℕ}
    {flip : Option ℕ} {now ackedAt : ℚ} :
    let n' := step cfg txAddr rxAddr n (.toTx i flip now ackedAt)
    Matches txAddr rxAddr n' ∧ n'.protocol =
      (n.protocolEvent (.toTx i flip now ackedAt)).elim n.protocol
        n.protocol.step := by
  intro n'
  rcases hwaiting : n.waitingCall with _ | ⟨call, sentAt, deadline⟩
  · simp only [n', step, protocolEvent, hwaiting]
    exact ⟨h, rfl⟩
  rcases hget : n.acks[i]? with _ | ⟨j, raw⟩
  · simp only [n', step, protocolEvent, hwaiting, hget]
    exact ⟨h, by simp [AlternatingBit.step, protocol, hget]⟩
  have hcall := call_of_waitingCall hwaiting
  obtain ⟨haddr, hseq, hlen, -⟩ := h.call call hcall
  have hack := h.acks (j, raw) (List.mem_of_getElem? hget)
  have hread : Matches txAddr rxAddr { n with ackRead := i } :=
    ⟨h.sendBit, h.recvBit, h.call, h.data, h.acks⟩
  have hnumber : n.protocol.acks[i]? = some j := by
    simp [protocol, hget]
  simp only [protocolEvent, hwaiting, Option.isSome_some, if_true,
    Option.elim_some, AlternatingBit.step, hnumber]
  rcases toTx_cases cfg txAddr hwaiting hget hack haddr hseq flip now
    ackedAt with ⟨hreads, hparity, hstep⟩ | ⟨hnot, t, p, hbit, hu, hstep⟩
  · obtain ⟨hmatches, hprotocol⟩ :=
      hread.sends_returned cfg hcall sentAt ackedAt
    simp only [n', hstep, hreads]
    refine ⟨hmatches, hprotocol.trans ?_⟩
    simp [AlternatingBit.complete, protocol, accepted, hlen, hparity]
  · obtain ⟨hmatches, hprotocol⟩ := hread.sends_unfinished hcall hbit hu
    simp only [n', hstep]
    refine ⟨hmatches, hprotocol.trans ?_⟩
    rcases txReads_cases hwaiting hget flip now with hreads | hreads
    · simp [hreads, protocol, accepted]
    · have hparity : ¬ j % 2 = (n.completed + 1) % 2 := fun h' =>
        hnot ⟨hreads, h'⟩
      simp [hreads, AlternatingBit.complete, protocol, accepted, hparity]

/-- The delivery of a copy of a DATA packet. -/
theorem Matches.toRx_step (h : Matches txAddr rxAddr n) {i : ℕ}
    {flip : Option ℕ} {remaining : Option ℚ} {sendResult : Option String}
    (hsend : ∀ q ∈ n.rxReads i flip remaining,
      q % 2 = n.accepted.length % 2 → sendResult = none) :
    let n' := step cfg txAddr rxAddr n (.toRx i flip remaining sendResult)
    Matches txAddr rxAddr n' ∧ n'.protocol =
      (n.protocolEvent (.toRx i flip remaining sendResult)).elim n.protocol
        n.protocol.step := by
  intro n'
  rcases hreturning : n.returning with _ | payload
  swap
  · simp only [n', step, protocolEvent, hreturning]
    exact ⟨h, rfl⟩
  rcases hget : n.data[i]? with _ | ⟨q, raw⟩
  · simp only [n', step, protocolEvent, hreturning, hget]
    exact ⟨h, by simp [AlternatingBit.step, protocol, hget]⟩
  obtain ⟨payload, hpayload, hpacket⟩ :=
    h.data (q, raw) (List.mem_of_getElem? hget)
  have hread : Matches txAddr rxAddr { n with dataRead := i } :=
    ⟨h.sendBit, h.recvBit, h.call, h.data, h.acks⟩
  have hnumber : n.protocol.data[i]? = some q := by
    simp [protocol, hget]
  have haccepted : n.accepted = n.returned := by
    simp [accepted, hreturning]
  simp only [protocolEvent, hreturning, Option.isNone_none, if_true,
    Option.elim_some, AlternatingBit.step, hnumber]
  rcases toRx_cases cfg rxAddr hreturning hget
    (isDatagram_of_dataPacket hpacket) h.recvBit flip remaining sendResult with
      ⟨hreads, hstep⟩ | ⟨hreads, hparity, ack, hack, hstep⟩ |
      ⟨hreads, hparity, hstep⟩
  · simp only [n', hstep, hreads]
    exact ⟨hread, rfl⟩
  · simp only [n', hstep, hreads]
    rw [AlternatingBit.accept_of_ne hparity]
    rcases sendResult with _ | what
    · refine ⟨⟨h.sendBit, h.recvBit, h.call, h.data, ?_⟩, ?_⟩
      · exact ackPackets_concat h.acks hack
      · simp [protocol, AlternatingBit.reply, accepted]
    · exact ⟨hread, rfl⟩
  · obtain rfl := hsend q hreads hparity
    obtain ⟨ack, hack, hstep⟩ := hstep rfl
    simp only [n', hstep, hreads]
    rw [AlternatingBit.accept_of_eq hparity hpayload]
    refine ⟨⟨h.sendBit, ?_, h.call, h.data, ?_⟩, ?_⟩
    · simp [Dict.getD, accepted, hreturning]
    · exact ackPackets_concat h.acks hack
    · simp [protocol, AlternatingBit.reply, accepted, hreturning]

/-- One step of the link is at most one step of the protocol. -/
theorem Matches.step (cfg : Config) (h : Matches txAddr rxAddr n)
    {e : StopAndWaitEvent}
    (he : Admissible n e) :
    Matches txAddr rxAddr (step cfg txAddr rxAddr n e) ∧
      (step cfg txAddr rxAddr n e).protocol =
        (n.protocolEvent e).elim n.protocol n.protocol.step := by
  cases e with
  | sendto payload =>
      cases hcall : n.call with
      | some call => simpa [StopAndWaitLink.step, protocolEvent, hcall] using h
      | none =>
          have hevent : n.protocolEvent (.sendto payload) =
              some (.call payload) := by
            simp [protocolEvent, hcall]
          rw [hevent]
          exact h.sendto_step hcall (he hcall)
  | transmit sentAt sendResult => exact h.transmit_step
  | await input => exact h.await_step input
  | toTx i flip now ackedAt => exact h.toTx_step
  | recvfrom remaining arrival sendResult =>
      simp only [StopAndWaitLink.step, protocolEvent]
      split_ifs with hquiet
      · exact ⟨h, rfl⟩
      · have hfrom : arrival.isFrom txAddr = false :=
          Bool.eq_false_iff.mpr fun h' => hquiet (Or.inr h')
        refine ⟨⟨h.sendBit, ?_, h.call, h.data, h.acks⟩, rfl⟩
        exact (recvfrom_recvBit_of_not_isFrom hfrom _ _).trans h.recvBit
  | toRx i flip remaining sendResult => exact h.toRx_step he
  | recvfromReturns =>
      have haccepted : (StopAndWaitLink.step cfg txAddr rxAddr n
          .recvfromReturns).accepted = n.accepted := by
        simp [StopAndWaitLink.step, accepted]
      refine ⟨⟨h.sendBit, ?_, h.call, h.data, h.acks⟩, ?_⟩
      · rw [haccepted]
        exact h.recvBit
      · simp only [protocol, haccepted]
        rfl

end

end StopAndWaitLink

end UdpArq
