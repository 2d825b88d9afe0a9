import Mathlib.Data.List.Forall2
import UdpArq.StopAndWait.Ordered

/-!
# Stop-and-Wait after a failed send

A call that raises leaves the sender's bit as it is, so that the next call
sends its payload under the same bit.  As long as the receiver has not accepted
the payload of the failed call, the new one takes its place.  Otherwise the
receiver takes the new payload for a duplicate of the old one, acknowledges it
again, and the new call returns without its payload ever being accepted.
-/

namespace UdpArq

open StopAndWaitTransport

/-- The exception of a call whose attempts are used up. -/
def Err.isNoAckForSeq : Err → Bool
  | .noAckForSeq _ _ _ => true
  | _ => false

namespace StopAndWaitLink

/-- A link with the history of its calls, which are numbered in the order in
which they are made: `settled` are the calls that have returned, `timedOut` are
those that raised `TimeoutError` after their last attempt, and `sources` tells
for each accepted payload from which call it came. -/
structure Recorded where
  link : StopAndWaitLink := {}
  settled : List ℕ := []
  timedOut : List ℕ := []
  sources : List ℕ := []

/-- A step of the link, recorded. -/
def recordStep (cfg : Config) (txAddr rxAddr : Address) (w : Recorded)
    (e : StopAndWaitEvent) : Recorded :=
  let n := w.link
  let n' := step cfg txAddr rxAddr n e
  let latest := n'.handed.length - 1
  { link := n'
    settled :=
      if n.completed < n'.completed then w.settled ++ [latest] else w.settled
    timedOut :=
      if (n'.failures.drop n.failures.length).any Err.isNoAckForSeq then
        w.timedOut ++ [latest]
      else w.timedOut
    sources :=
      if n.accepted.length < n'.accepted.length then
        w.sources ++ (n.data[n'.dataRead]?.map Prod.fst).toList
      else w.sources }

/-- If a call returns after an earlier one has timed out, then its own payload
has been accepted: `recvfrom` has returned it, or has sent its ACK and is about
to return it. -/
def Recovers (w : Recorded) : Prop :=
  ∀ p ∈ w.timedOut, ∀ q ∈ w.settled, p < q →
    ∃ k payload, w.sources[k]? = some q ∧ w.link.handed[q]? = some payload ∧
      (w.link.returned[k]? = some payload ∨
        k = w.link.returned.length ∧ w.link.returning = some payload)

/-- The packet carries the sequence number `bit`. -/
def carries (raw : Bytes) (bit : ℕ) : Bool :=
  match decode raw with
  | .error _ => false
  | .ok (header, _) => decide (header.seq = bit)

theorem carries_of_isDatagram {raw payload : Bytes} {seq bit : ℕ}
    (hraw : IsDatagram raw seq payload) :
    carries raw bit = decide (seq = bit) := by
  obtain ⟨-, header, hdecode, -, hseq⟩ := hraw
  simp [carries, hdecode, hseq]

/-- The DATA packet at position `i` carries the bit that `recvfrom` expects. -/
def expects (txAddr : Address) (n : StopAndWaitLink) (i : ℕ) : Bool :=
  n.data[i]?.any fun m => carries m.2 (n.rx.recvBit.getD txAddr 0)

/-- No call begins while the bits of the two endpoints differ; while a call is
under way, `recvfrom` takes only DATA of this call for new; and the ACK of a
new payload is sent. -/
def Unambiguous (cfg : Config) (txAddr rxAddr : Address) (n : StopAndWaitLink) :
    StopAndWaitEvent → Prop
  | .sendto payload =>
      n.call = none → payload.length ≤ cfg.mss →
        n.tx.sendBit.getD rxAddr 0 = n.rx.recvBit.getD txAddr 0
  | .toRx i flip remaining sendResult =>
      ∀ q ∈ n.rxReads i flip remaining, n.expects txAddr i →
        (n.call.isSome → q + 1 = n.handed.length) ∧ sendResult = none
  | _ => True

instance (cfg : Config) (txAddr rxAddr : Address) (n : StopAndWaitLink) :
    ∀ e, Decidable (Unambiguous cfg txAddr rxAddr n e)
  | .sendto payload =>
      inferInstanceAs (Decidable (n.call = none → payload.length ≤ cfg.mss →
        n.tx.sendBit.getD rxAddr 0 = n.rx.recvBit.getD txAddr 0))
  | .toRx i flip remaining sendResult =>
      inferInstanceAs (Decidable (∀ q ∈ n.rxReads i flip remaining,
        n.expects txAddr i →
          (n.call.isSome → q + 1 = n.handed.length) ∧ sendResult = none))
  | .transmit _ _ | .await _ | .toTx _ _ _ _ | .recvfrom _ _ _
  | .recvfromReturns => isTrue trivial

/-! ## Calls under one bit -/

theorem forall₂_getElem?_right {α β : Type*} {R : α → β → Prop}
    {xs : List α} {ys : List β} (h : List.Forall₂ R xs ys) {i : ℕ} {y : β}
    (hy : ys[i]? = some y) : ∃ x, xs[i]? = some x ∧ R x y := by
  obtain ⟨hi, rfl⟩ := List.getElem?_eq_some_iff.mp hy
  have hi' : i < xs.length := h.length_eq ▸ hi
  exact ⟨xs[i], List.getElem?_eq_getElem hi', h.get hi' hi⟩

/-- The link follows the protocol, in which the number of a call stands for its
payload.  Calls that raise share their bit with the call after them, and the
protocol keeps only the latest of them. -/
structure Follows (txAddr rxAddr : Address) (n : StopAndWaitLink)
    (s : AlternatingBit ℕ) : Prop where
  coherent : s.Coherent
  recent : s.Recent
  completed : n.completed = s.completed
  acks : n.acks.map Prod.fst = s.acks
  dataRead : n.dataRead = s.dataRead
  ackRead : n.ackRead = s.ackRead
  sendBit : n.tx.sendBit.getD rxAddr 0 = s.completed % 2
  recvBit : n.rx.recvBit.getD txAddr 0 = s.accepted.length % 2
  sources : List.Forall₂ (fun c p => n.handed[c]? = some p) s.accepted
    n.accepted
  data : List.Forall₂ (fun q m => ∃ p, n.handed[m.1]? = some p ∧
    Core.dataPacket (q % 2) p = .ok m.2) s.data n.data
  ackPackets : ∀ m ∈ n.acks, Core.ackPacket (m.1 % 2) = .ok m.2
  call : ∀ call, n.call = some call → call.addr = rxAddr ∧
    call.seq = s.completed % 2 ∧
    s.handed[s.completed]? = some (n.handed.length - 1) ∧
    ∃ p, n.handed[n.handed.length - 1]? = some p ∧
      Core.dataPacket call.seq p = .ok call.packet

/-- What a step does to the calls and the payloads: nothing, or a call returns,
or a payload is accepted. -/
inductive Progresses (n n' : StopAndWaitLink) (s s' : AlternatingBit ℕ) : Prop
  | quiet (hcompleted : s'.completed = s.completed)
      (hsettled : s'.handed.take s.completed = s.handed.take s.completed)
      (haccepted : s'.accepted = s.accepted)
  | returned (hcompleted : s'.completed = s.completed + 1)
      (hhanded : s'.handed = s.handed)
      (hlatest : s.handed[s.completed]? = some (n'.handed.length - 1))
      (haccepted : s'.accepted = s.accepted)
  | accepted {c : ℕ} {raw : Bytes} (hcompleted : s'.completed = s.completed)
      (hsettled : s'.handed.take s.completed = s.handed.take s.completed)
      (hdata : n.data[n'.dataRead]? = some (c, raw))
      (haccepted : s'.accepted = s.accepted ++ [c])

section

variable {cfg : Config} {txAddr rxAddr : Address} {n : StopAndWaitLink}
  {s : AlternatingBit ℕ}

theorem progresses_refl (n n' : StopAndWaitLink) (s : AlternatingBit ℕ) :
    Progresses n n' s s :=
  .quiet rfl rfl rfl

theorem follows_init : Follows txAddr rxAddr init {} where
  coherent := AlternatingBit.coherent_init
  recent := AlternatingBit.recent_init
  completed := rfl
  acks := rfl
  dataRead := rfl
  ackRead := rfl
  sendBit := rfl
  recvBit := rfl
  sources := .nil
  data := .nil
  ackPackets := by simp [init]
  call := by simp [init]

/-- Between two calls the receiver is not ahead exactly if the bits agree. -/
theorem Follows.accepted_length (h : Follows txAddr rxAddr n s)
    (hbits : n.tx.sendBit.getD rxAddr 0 = n.rx.recvBit.getD txAddr 0) :
    s.accepted.length = s.completed := by
  rw [h.sendBit, h.recvBit] at hbits
  have hge := h.coherent.completed_le
  have hle := h.coherent.accepted_le
  have hhanded := h.coherent.handed_le
  omega

/-- A step in which a call goes on or raises. -/
theorem Follows.sends_unfinished (h : Follows txAddr rxAddr n s) {call : Call}
    (hcall : n.call = some call) {t : StopAndWaitTransport}
    (ht : t.sendBit = n.tx.sendBit) {p : Progress Call} (hp : Unfinished call p) :
    Follows txAddr rxAddr (n.sends (t, p)) s := by
  obtain ⟨haddr, hseq, hlatest, payload, hget, hpacket⟩ := h.call call hcall
  have hbit : t.sendBit.getD rxAddr 0 = s.completed % 2 := by
    rw [ht]
    exact h.sendBit
  rcases hp with ⟨haddr', hseq', hpacket'⟩ | e
  · refine { h with sendBit := hbit, call := fun call'' hcall'' => ?_ }
    cases hcall''
    refine ⟨haddr'.trans haddr, hseq'.trans hseq, hlatest, payload, hget, ?_⟩
    rw [hseq', hpacket']
    exact hpacket
  · exact { h with sendBit := hbit, call := fun _ hnone => by cases hnone }

theorem Follows.sendto_step (h : Follows txAddr rxAddr n s) {payload : Bytes}
    (hcall : n.call = none)
    (hbits : payload.length ≤ cfg.mss →
      n.tx.sendBit.getD rxAddr 0 = n.rx.recvBit.getD txAddr 0) :
    ∃ s', Follows txAddr rxAddr
        (step cfg txAddr rxAddr n (.sendto payload)) s' ∧
      Progresses n (step cfg txAddr rxAddr n (.sendto payload)) s s' := by
  have hsources := h.sources.imp fun c p (hc : n.handed[c]? = some p) =>
    AlternatingBit.getElem?_concat payload hc
  have hdata : List.Forall₂ (fun q m => ∃ p,
      (n.handed ++ [payload])[m.1]? = some p ∧
        Core.dataPacket (q % 2) p = .ok m.2) s.data n.data := by
    refine h.data.imp ?_
    rintro q m ⟨p, hget, hpacket⟩
    exact ⟨p, AlternatingBit.getElem?_concat payload hget, hpacket⟩
  obtain ⟨hbit, hresult⟩ := sendto_spec cfg n.tx payload rxAddr
  have hsendBit : (n.tx.sendto cfg payload rxAddr).1.sendBit.getD rxAddr 0 =
      s.completed % 2 := by
    rw [hbit]
    exact h.sendBit
  simp only [step, hcall, sends]
  rcases hresult with ⟨e, he⟩ | ⟨call, hrunning, haddr, hseq, hpacket⟩
  · rw [he]
    refine ⟨s, ?_, progresses_refl _ _ _⟩
    exact { h with
      sendBit := hsendBit
      sources := hsources
      data := hdata
      call := fun _ hnone => by cases hnone }
  · have hfits : payload.length ≤ cfg.mss := by
      by_contra hlarge
      rw [StopAndWaitTransport.sendto, if_pos (not_le.mp hlarge)] at hrunning
      cases hrunning
    have hopen := h.accepted_length (hbits hfits)
    rw [hrunning]
    refine ⟨s.restart n.handed.length, ?_, ?_⟩
    · refine { h with
        coherent := h.coherent.restart _ hopen
        recent := h.recent.restart _
        sendBit := hsendBit
        sources := hsources
        data := hdata
        call := fun call' hcall' => ?_ }
      cases hcall'
      refine ⟨haddr, hseq.trans h.sendBit, ?_, payload, ?_, hpacket⟩
      · rw [List.length_append, List.length_singleton, Nat.add_sub_cancel]
        exact h.coherent.restart_getElem? n.handed.length
      · simp
    · exact .quiet rfl (h.coherent.restart_take _) rfl

theorem Follows.transmit_step (h : Follows txAddr rxAddr n s) (sentAt : ℚ)
    (sendResult : Option String) :
    ∃ s', Follows txAddr rxAddr
        (step cfg txAddr rxAddr n (.transmit sentAt sendResult)) s' ∧
      Progresses n (step cfg txAddr rxAddr n (.transmit sentAt sendResult))
        s s' := by
  simp only [step]
  rcases hsending : n.sendingCall with _ | call
  · exact ⟨s, h, progresses_refl _ _ _⟩
  have hcall := call_of_sendingCall hsending
  have hu := unfinished_transmit cfg call sentAt sendResult
  rcases sendResult with _ | what
  · obtain ⟨-, hseq, hlatest, payload, hget, hpacket⟩ := h.call call hcall
    have hlt : s.completed < s.handed.length :=
      (List.getElem?_eq_some_iff.mp hlatest).1
    have hstep : s.step .transmit =
        { s with data := s.data ++ [s.completed] } := if_pos hlt
    have horder : AlternatingBit.InOrder s .transmit := trivial
    obtain ⟨hcoherent, hrecent⟩ := h.coherent.step_inOrder h.recent horder hstep
    have hlogged : Follows txAddr rxAddr
        { n with data := n.data ++ [(n.handed.length - 1, call.packet)] }
        { s with data := s.data ++ [s.completed] } := by
      refine { h with coherent := hcoherent, recent := hrecent, data := ?_ }
      refine List.rel_append h.data (.cons ⟨payload, hget, ?_⟩ .nil)
      rw [← hseq]
      exact hpacket
    exact ⟨_, hlogged.sends_unfinished hcall rfl hu, .quiet rfl rfl rfl⟩
  · exact ⟨s, h.sends_unfinished hcall rfl hu, progresses_refl _ _ _⟩

theorem Follows.await_step (h : Follows txAddr rxAddr n s) (input : AwaitInput) :
    Follows txAddr rxAddr (step cfg txAddr rxAddr n (.await input)) s := by
  simp only [step]
  rcases hwaiting : n.waitingCall with _ | ⟨call, sentAt, deadline⟩
  · exact h
  dsimp only
  split_ifs with hfrom
  · exact h
  · have hcall := call_of_waitingCall hwaiting
    obtain ⟨haddr, -⟩ := h.call call hcall
    have hreads : ¬ ReadsAck call deadline input := by
      rintro ⟨-, raw, harrival, -⟩
      simp [harrival, ChannelRecv.isFrom, haddr] at hfrom
    obtain ⟨hbit, hu⟩ := awaitAck_of_not_readsAck cfg n.tx sentAt hreads
    exact h.sends_unfinished hcall hbit hu

theorem Follows.toTx_step (h : Follows txAddr rxAddr n s) {i : ℕ}
    (horder : n.ackRead ≤ i) (flip : Option ℕ) (now ackedAt : ℚ) :
    ∃ s', Follows txAddr rxAddr
        (step cfg txAddr rxAddr n (.toTx i flip now ackedAt)) s' ∧
      Progresses n (step cfg txAddr rxAddr n (.toTx i flip now ackedAt))
        s s' := by
  rcases hwaiting : n.waitingCall with _ | ⟨call, sentAt, deadline⟩
  · simp only [step, hwaiting]
    exact ⟨s, h, progresses_refl _ _ _⟩
  rcases hget : n.acks[i]? with _ | ⟨j, raw⟩
  · simp only [step, hwaiting, hget]
    exact ⟨s, h, progresses_refl _ _ _⟩
  have hcall := call_of_waitingCall hwaiting
  obtain ⟨haddr, hseq, hlatest, -⟩ := h.call call hcall
  have hack := h.ackPackets (j, raw) (List.mem_of_getElem? hget)
  have hnumber : s.acks[i]? = some j := by
    rw [← h.acks, List.getElem?_map, hget]
    rfl
  have hinOrder : ∀ intact, AlternatingBit.InOrder s (.ack i intact) := by
    intro intact
    rw [AlternatingBit.InOrder, ← h.ackRead]
    exact horder
  rcases toTx_cases cfg txAddr hwaiting hget hack haddr hseq flip now
    ackedAt with ⟨-, hparity, hstep⟩ | ⟨-, t, p, hbit, hu, hstep⟩
  · have hlt : s.completed < s.handed.length :=
      (List.getElem?_eq_some_iff.mp hlatest).1
    have hdone : s.step (.ack i true) =
        { s with completed := s.completed + 1, ackRead := i } := by
      simp [AlternatingBit.step, hnumber, AlternatingBit.complete, hlt, hparity]
    obtain ⟨hcoherent, hrecent⟩ :=
      h.coherent.step_inOrder h.recent (hinOrder true) hdone
    rw [hstep]
    refine ⟨{ s with completed := s.completed + 1, ackRead := i }, ?_,
      .returned rfl rfl hlatest rfl⟩
    exact { h with
      coherent := hcoherent
      recent := hrecent
      completed := congrArg (· + 1) h.completed
      ackRead := rfl
      sendBit := by simp [sends, Dict.getD, haddr, hseq, mod_two_xor_one]
      call := fun _ hnone => by cases hnone }
  · have hkept : s.step (.ack i false) = { s with ackRead := i } := by
      simp [AlternatingBit.step, hnumber]
    obtain ⟨hcoherent, hrecent⟩ :=
      h.coherent.step_inOrder h.recent (hinOrder false) hkept
    have hread : Follows txAddr rxAddr { n with ackRead := i }
        { s with ackRead := i } :=
      { h with coherent := hcoherent, recent := hrecent, ackRead := rfl }
    rw [hstep]
    exact ⟨_, hread.sends_unfinished hcall hbit hu, .quiet rfl rfl rfl⟩

/-- A copy of a DATA packet that is not read. -/
theorem Follows.read (h : Follows txAddr rxAddr n s) {i q : ℕ}
    (hnumber : s.data[i]? = some q) (horder : s.dataRead ≤ i) :
    Follows txAddr rxAddr { n with dataRead := i } { s with dataRead := i } := by
  have hinOrder : AlternatingBit.InOrder s (.data i false) := horder
  have hkept : s.step (.data i false) = { s with dataRead := i } := by
    simp [AlternatingBit.step, hnumber]
  obtain ⟨hcoherent, hrecent⟩ :=
    h.coherent.step_inOrder h.recent hinOrder hkept
  exact { h with coherent := hcoherent, recent := hrecent, dataRead := rfl }

/-- A duplicate is acknowledged again. -/
theorem Follows.reply (h : Follows txAddr rxAddr n s) {i q : ℕ} {ack : Bytes}
    (hnumber : s.data[i]? = some q) (horder : s.dataRead ≤ i)
    (hparity : q % 2 ≠ s.accepted.length % 2)
    (hack : Core.ackPacket (s.accepted.length % 2) = .ok ack) :
    Follows txAddr rxAddr
      { n with dataRead := i, acks := n.acks ++ [(s.accepted.length, ack)] }
      { s with acks := s.acks ++ [s.accepted.length], dataRead := i } := by
  have hinOrder : AlternatingBit.InOrder s (.data i true) := horder
  have hagain : s.step (.data i true) =
      { s with acks := s.acks ++ [s.accepted.length], dataRead := i } := by
    simp [AlternatingBit.step, hnumber, AlternatingBit.accept_of_ne hparity,
      AlternatingBit.reply]
  obtain ⟨hcoherent, hrecent⟩ :=
    h.coherent.step_inOrder h.recent hinOrder hagain
  exact { h with
    coherent := hcoherent
    recent := hrecent
    acks := by simp [h.acks]
    dataRead := rfl
    ackPackets := ackPackets_concat h.ackPackets hack }

/-- The receiver takes the payload of call `c` for the open one. -/
theorem Follows.accept (h : Follows txAddr rxAddr n s) {i q c : ℕ}
    {payload ack : Bytes} (hreturning : n.returning = none)
    (hnumber : s.data[i]? = some q) (horder : s.dataRead ≤ i)
    (hparity : q % 2 = s.accepted.length % 2)
    (hpayload : n.handed[c]? = some payload)
    (hlatest : n.call.isSome → c + 1 = n.handed.length)
    (hack : Core.ackPacket ((s.accepted.length + 1) % 2) = .ok ack) :
    Follows txAddr rxAddr
      { n with
        dataRead := i
        rx := { n.rx with
          recvBit := n.rx.recvBit.set txAddr ((s.accepted.length + 1) % 2) }
        returning := some payload
        acks := n.acks ++ [(s.accepted.length + 1, ack)] }
      { s.restart c with
        accepted := s.accepted ++ [c]
        acks := s.acks ++ [s.accepted.length + 1]
        dataRead := i } := by
  have hinOrder : AlternatingBit.InOrder s (.data i true) := horder
  have hmem := List.mem_of_getElem? hnumber
  have hq : q = s.accepted.length :=
    h.coherent.number_eq hmem (h.recent.fresh h.coherent hinOrder q hnumber)
      hparity
  have hopen : s.accepted.length = s.completed := by
    have hlt := h.coherent.data q hmem
    have hhanded := h.coherent.handed_le
    have hcompleted := h.coherent.completed_le
    omega
  have hplace : (s.restart c).handed[s.completed]? = some c :=
    h.coherent.restart_getElem? c
  have haccepts : (s.restart c).step (.data i true) =
      { s.restart c with
        accepted := s.accepted ++ [c]
        acks := s.acks ++ [s.accepted.length + 1]
        dataRead := i } := by
    have hnumber' : (s.restart c).data[i]? = some q := hnumber
    have hparity' : q % 2 = (s.restart c).accepted.length % 2 := hparity
    rw [← hopen, ← hq] at hplace
    simp only [AlternatingBit.step, hnumber', if_true]
    rw [AlternatingBit.accept_of_eq hparity' hplace]
    simp [AlternatingBit.reply, AlternatingBit.restart]
  have hinOrder' : AlternatingBit.InOrder (s.restart c) (.data i true) := horder
  obtain ⟨hcoherent, hrecent⟩ := (h.coherent.restart c hopen).step_inOrder
    (h.recent.restart c) hinOrder' haccepts
  have haccepted : n.accepted = n.returned := by
    simp [accepted, hreturning]
  refine { h with
    coherent := hcoherent
    recent := hrecent
    acks := by simp [h.acks]
    dataRead := rfl
    recvBit := by simp [Dict.getD]
    sources := ?_
    ackPackets := ackPackets_concat h.ackPackets hack
    call := fun call hcall => ?_ }
  · simp only [accepted, Option.toList_some]
    rw [← haccepted]
    exact List.rel_append h.sources (.cons hpayload .nil)
  · obtain ⟨haddr, hseq, -, hpacket⟩ := h.call call hcall
    have hcount := hlatest (Option.isSome_iff_exists.mpr ⟨call, hcall⟩)
    refine ⟨haddr, hseq, ?_, hpacket⟩
    rwa [← hcount, Nat.add_sub_cancel]

theorem Follows.toRx_step (h : Follows txAddr rxAddr n s) {i : ℕ}
    {flip : Option ℕ} {remaining : Option ℚ} {sendResult : Option String}
    (horder : n.dataRead ≤ i)
    (hnew : ∀ c ∈ n.rxReads i flip remaining, n.expects txAddr i →
      (n.call.isSome → c + 1 = n.handed.length) ∧ sendResult = none) :
    ∃ s', Follows txAddr rxAddr
        (step cfg txAddr rxAddr n (.toRx i flip remaining sendResult)) s' ∧
      Progresses n (step cfg txAddr rxAddr n (.toRx i flip remaining sendResult))
        s s' := by
  rcases hreturning : n.returning with _ | returned
  swap
  · simp only [step, hreturning]
    exact ⟨s, h, progresses_refl _ _ _⟩
  rcases hget : n.data[i]? with _ | ⟨c, raw⟩
  · simp only [step, hreturning, hget]
    exact ⟨s, h, progresses_refl _ _ _⟩
  obtain ⟨q, hnumber, payload, hpayload, hpacket⟩ :=
    forall₂_getElem?_right h.data hget
  have hraw := isDatagram_of_dataPacket hpacket
  have hlength : n.accepted.length = s.accepted.length :=
    h.sources.length_eq.symm
  rw [h.dataRead] at horder
  rcases toRx_cases cfg rxAddr hreturning hget hraw h.recvBit flip remaining
    sendResult with ⟨-, hstep⟩ | ⟨-, hparity, ack, hack, hstep⟩ |
      ⟨hreads, hparity, hstep⟩
  · rw [hstep]
    exact ⟨_, h.read hnumber horder, .quiet rfl rfl rfl⟩
  · rw [hstep, hlength]
    rcases sendResult with _ | what
    · exact ⟨_, h.reply hnumber horder hparity hack, .quiet rfl rfl rfl⟩
    · exact ⟨_, h.read hnumber horder, .quiet rfl rfl rfl⟩
  · have hexpects : n.expects txAddr i := by
      simp [expects, hget, carries_of_isDatagram hraw, h.recvBit, hparity]
    obtain ⟨hlatest, rfl⟩ := hnew c hreads hexpects
    obtain ⟨ack, hack, hstep⟩ := hstep rfl
    rw [hstep, hlength]
    exact ⟨_, h.accept hreturning hnumber horder hparity hpayload hlatest hack,
      .accepted rfl (h.coherent.restart_take c) hget rfl⟩

variable (cfg) in
/-- A step over ordered links whose bits are unambiguous keeps the protocol. -/
theorem Follows.step (h : Follows txAddr rxAddr n s) {e : StopAndWaitEvent}
    (horder : InOrder n e) (he : Unambiguous cfg txAddr rxAddr n e) :
    ∃ s', Follows txAddr rxAddr (step cfg txAddr rxAddr n e) s' ∧
      Progresses n (step cfg txAddr rxAddr n e) s s' := by
  rcases e with payload | ⟨sentAt, sendResult⟩ | input |
    ⟨i, flip, now, ackedAt⟩ | ⟨remaining, arrival, sendResult⟩ |
    ⟨i, flip, remaining, sendResult⟩ | _
  · rcases hcall : n.call with _ | call
    · exact h.sendto_step hcall (he hcall)
    · simp only [StopAndWaitLink.step, hcall]
      exact ⟨s, h, progresses_refl _ _ _⟩
  · exact h.transmit_step sentAt sendResult
  · exact ⟨s, h.await_step input, progresses_refl _ _ _⟩
  · exact h.toTx_step horder flip now ackedAt
  · simp only [StopAndWaitLink.step]
    split_ifs with hquiet
    · exact ⟨s, h, progresses_refl _ _ _⟩
    · have hfrom : arrival.isFrom txAddr = false :=
        Bool.eq_false_iff.mpr fun h' => hquiet (Or.inr h')
      refine ⟨s, ?_, progresses_refl _ _ _⟩
      exact { h with
        recvBit :=
          (recvfrom_recvBit_of_not_isFrom hfrom _ _).trans h.recvBit }
  · exact h.toRx_step horder he
  · refine ⟨s, ?_, progresses_refl _ _ _⟩
    refine { h with sources := ?_ }
    simpa [StopAndWaitLink.step, accepted] using h.sources

/-! ## The recorded calls -/

theorem accepted_getElem?_iff (n : StopAndWaitLink) (k : ℕ) (payload : Bytes) :
    n.accepted[k]? = some payload ↔ n.returned[k]? = some payload ∨
      k = n.returned.length ∧ n.returning = some payload := by
  rw [accepted, List.getElem?_append]
  split_ifs with hlt
  · simp [hlt.ne]
  · have hnone : n.returned[k]? = none :=
      List.getElem?_eq_none (not_lt.mp hlt)
    have hplace : k - n.returned.length = 0 ↔ k = n.returned.length := by
      omega
    rcases n.returning with _ | last
    · simp [hnone]
    · simp [hnone, List.getElem?_singleton, hplace]

/-- The records are those of the protocol. -/
structure Tracks (txAddr rxAddr : Address) (w : Recorded)
    (s : AlternatingBit ℕ) : Prop where
  follows : Follows txAddr rxAddr w.link s
  settled : w.settled = s.handed.take s.completed
  sources : w.sources = s.accepted

/-- A condition on the link is met by the recorded run. -/
theorem meets_link {C : StopAndWaitLink → StopAndWaitEvent → Prop}
    (w : Recorded) (es : List StopAndWaitEvent) :
    Meets (recordStep cfg txAddr rxAddr) (fun w e => C w.link e) w es ↔
      Meets (StopAndWaitLink.step cfg txAddr rxAddr) C w.link es :=
  meets_map Recorded.link (fun _ _ => rfl) w es

/-- The invariant of unambiguous runs over ordered links. -/
def Tracked (txAddr rxAddr : Address) (w : Recorded) : Prop :=
  ∃ s, Tracks txAddr rxAddr w s

theorem Tracks.step {w : Recorded} (h : Tracks txAddr rxAddr w s)
    {e : StopAndWaitEvent} (horder : InOrder w.link e)
    (he : Unambiguous cfg txAddr rxAddr w.link e) :
    ∃ s', Tracks txAddr rxAddr (recordStep cfg txAddr rxAddr w e) s' := by
  obtain ⟨s', hfollows, hprogress⟩ := h.follows.step cfg horder he
  have hcompleted := h.follows.completed
  have hcompleted' := hfollows.completed
  have hlength := h.follows.sources.length_eq
  have hlength' := hfollows.sources.length_eq
  refine ⟨s', hfollows, ?_, ?_⟩
  · simp only [recordStep, hcompleted, hcompleted', h.settled]
    rcases hprogress with ⟨hsame, hsettled, -⟩ |
      ⟨hnext, hhanded, hlatest, -⟩ | ⟨hsame, hsettled, -, -⟩
    · rw [hsame, if_neg (lt_irrefl _), hsettled]
    · rw [hnext, if_pos (Nat.lt_succ_self _), hhanded, List.take_add_one,
        hlatest]
      rfl
    · rw [hsame, if_neg (lt_irrefl _), hsettled]
  · simp only [recordStep, ← hlength, ← hlength', h.sources]
    rcases hprogress with ⟨-, -, hsame⟩ | ⟨-, -, -, hsame⟩ |
      ⟨-, -, hdata, hnext⟩
    · rw [hsame, if_neg (lt_irrefl _)]
    · rw [hsame, if_neg (lt_irrefl _)]
    · rw [hnext, if_pos (by simp), hdata]
      rfl

/-- Every call that has returned has had its own payload accepted. -/
theorem Tracks.recovers {w : Recorded} (h : Tracks txAddr rxAddr w s) :
    Recovers w := by
  intro p _ q hq _
  rw [h.settled] at hq
  obtain ⟨k, hk⟩ := List.mem_iff_getElem?.mp hq
  rw [List.getElem?_take] at hk
  split_ifs at hk with hlt
  have hcoherent := h.follows.coherent
  have hsource : s.accepted[k]? = some q := by
    rw [hcoherent.accepted, List.getElem?_take,
      if_pos (hlt.trans_le hcoherent.completed_le)]
    exact hk
  obtain ⟨payload, hpayload, hhanded⟩ :=
    forall₂_getElem?_right h.follows.sources.flip hsource
  refine ⟨k, payload, h.sources ▸ hsource, hhanded, ?_⟩
  exact (accepted_getElem?_iff w.link k payload).mp hpayload

end

/-- Over links that keep the order, and in runs whose steps are all
unambiguous, a call that returns after one that timed out has its own payload
accepted. -/
theorem stopAndWait_recovers (cfg : Config) (txAddr rxAddr : Address)
    (es : List StopAndWaitEvent)
    (horder : Meets (step cfg txAddr rxAddr) InOrder init es)
    (hes : Meets (step cfg txAddr rxAddr) (Unambiguous cfg txAddr rxAddr)
      init es) :
    Throughout (recordStep cfg txAddr rxAddr) Recovers {} es := by
  have hboth := (meets_link {} es).mpr (horder.and hes)
  have hstep : ∀ w e, Tracked txAddr rxAddr w →
      InOrder w.link e ∧ Unambiguous cfg txAddr rxAddr w.link e →
        Tracked txAddr rxAddr (recordStep cfg txAddr rxAddr w e) := by
    rintro w e ⟨s, h⟩ ⟨he, he'⟩
    exact h.step he he'
  have hrecovers : ∀ w, Tracked txAddr rxAddr w → Recovers w := by
    rintro w ⟨s, h⟩
    exact h.recovers
  exact throughout_of_meets hstep hrecovers ⟨{}, follows_init, rfl, rfl⟩ hboth

/-- The only transmission of the first payload is lost, and its call gives up;
the second payload then takes its place. -/
def lostDataRun : List StopAndWaitEvent :=
  [.sendto [7], .transmit 0 none, .await ⟨1, .timedOut, 1⟩, .sendto [8],
    .transmit 1 none, .toRx 1 none none none, .recvfromReturns,
    .toTx 0 none 1 1]

theorem stopAndWait_recovers_lostDataRun :
    let w := run (recordStep { maxRetries := 1 } ("a", 1) ("b", 2)) {}
      lostDataRun
    w.timedOut = [0] ∧ w.settled = [1] ∧ w.link.returned = [[8]] ∧
      Throughout (recordStep { maxRetries := 1 } ("a", 1) ("b", 2)) Recovers {}
        lostDataRun :=
  ⟨by decide +kernel, by decide +kernel, by decide +kernel,
    stopAndWait_recovers { maxRetries := 1 } ("a", 1) ("b", 2) lostDataRun
      (by decide +kernel) (by decide +kernel)⟩

/-! ## An accepted payload whose ACKs are lost -/

/-- Attempts that end without an answer. -/
def unanswered (cfg : Config) (k : ℕ) : List StopAndWaitEvent :=
  (List.replicate k
    [.await ⟨cfg.timeout, .timedOut, cfg.timeout⟩, .transmit 0 none]).flatten

/-- The link after `k` more attempts of the call under way. -/
def attempts (n : StopAndWaitLink) (k : ℕ) : StopAndWaitLink :=
  { n with
    call := n.call.map fun call => { call with attempt := call.attempt + k }
    data := n.data ++
      List.replicate k (n.handed.length - 1, (n.call.map Call.packet).getD []) }

section

variable {cfg : Config} {txAddr rxAddr : Address}

theorem attempts_zero (n : StopAndWaitLink) : n.attempts 0 = n := by
  simp [attempts]

theorem attempts_succ (n : StopAndWaitLink) (k : ℕ) :
    n.attempts (k + 1) = (n.attempts 1).attempts k := by
  rcases hcall : n.call with _ | call
  · simp [attempts, hcall, List.replicate_succ]
  · simp [attempts, hcall, List.replicate_succ, Nat.add_assoc, Nat.add_comm 1 k]

/-- A step that neither ends a call nor accepts a payload is not recorded. -/
theorem recordStep_of_same {w : Recorded} {e : StopAndWaitEvent}
    (hcompleted :
      (step cfg txAddr rxAddr w.link e).completed = w.link.completed)
    (hfailures : (step cfg txAddr rxAddr w.link e).failures = w.link.failures)
    (haccepted : (step cfg txAddr rxAddr w.link e).accepted = w.link.accepted) :
    recordStep cfg txAddr rxAddr w e =
      { w with link := step cfg txAddr rxAddr w.link e } := by
  simp [recordStep, hcompleted, hfailures, haccepted]

theorem attempts_waitingCall (n : StopAndWaitLink) (k : ℕ) :
    (n.attempts k).waitingCall = n.waitingCall.map fun c =>
      ({ c.1 with attempt := c.1.attempt + k }, c.2) := by
  rcases hcall : n.call with _ | call
  · simp [attempts, waitingCall, hcall]
  · rcases hphase : call.phase with _ | ⟨sentAt, deadline⟩ <;>
      simp [attempts, waitingCall, hcall, hphase]

/-- An attempt that ends without an answer is followed by the next one. -/
theorem run_unanswered_one (hadaptive : cfg.adaptive = false) {w : Recorded}
    {call : Call}
    (hwaiting : w.link.waitingCall = some (call, 0, 0 + cfg.timeout))
    (hattempts : call.attempt + 1 < cfg.maxRetries) :
    run (recordStep cfg txAddr rxAddr) w (unanswered cfg 1) =
      { w with link := w.link.attempts 1 } := by
  have hcall := call_of_waitingCall hwaiting
  have hphase : call.phase = .waiting 0 (0 + cfg.timeout) := by
    rcases hphase : call.phase with _ | ⟨sentAt, deadline⟩ <;>
      simp_all [waitingCall]
  let n : StopAndWaitLink := { w.link with
    call := some { call with attempt := call.attempt + 1, phase := .sending } }
  have hawait : step cfg txAddr rxAddr w.link
      (.await ⟨cfg.timeout, .timedOut, cfg.timeout⟩) = n := by
    simp [step, hwaiting, ChannelRecv.isFrom, awaitAck, attemptTimedOut,
      hadaptive, beginAttempt, hattempts, sends, n]
  have htransmit : step cfg txAddr rxAddr n (.transmit 0 none) =
      w.link.attempts 1 := by
    simp [step, sendingCall, StopAndWaitTransport.transmit, hadaptive, sends,
      attempts, hcall, hphase, n]
  have hfirst : recordStep cfg txAddr rxAddr w
      (.await ⟨cfg.timeout, .timedOut, cfg.timeout⟩) =
        { w with link := n } := by
    rw [recordStep_of_same (by rw [hawait]) (by rw [hawait]), hawait]
    rw [hawait]
    rfl
  have hsecond : recordStep cfg txAddr rxAddr { w with link := n }
      (.transmit 0 none) = { w with link := w.link.attempts 1 } := by
    rw [recordStep_of_same (by rw [htransmit]; rfl) (by rw [htransmit]; rfl),
      htransmit]
    rw [htransmit]
    rfl
  calc
    run (recordStep cfg txAddr rxAddr) w (unanswered cfg 1) =
        recordStep cfg txAddr rxAddr
          (recordStep cfg txAddr rxAddr w
            (.await ⟨cfg.timeout, .timedOut, cfg.timeout⟩))
          (.transmit 0 none) := rfl
    _ = { w with link := w.link.attempts 1 } := by
      rw [hfirst, hsecond]

theorem run_unanswered (hadaptive : cfg.adaptive = false) {w : Recorded}
    {call : Call}
    (hwaiting : w.link.waitingCall = some (call, 0, 0 + cfg.timeout)) {k : ℕ}
    (hattempts : call.attempt + k < cfg.maxRetries) :
    run (recordStep cfg txAddr rxAddr) w (unanswered cfg k) =
      { w with link := w.link.attempts k } := by
  induction k generalizing w call with
  | zero =>
      rw [attempts_zero]
      rfl
  | succ k ih =>
      have hsplit : unanswered cfg (k + 1) =
          unanswered cfg 1 ++ unanswered cfg k := by
        simp [unanswered, List.replicate_succ]
      have hnext : (w.link.attempts 1).waitingCall =
          some ({ call with attempt := call.attempt + 1 }, 0,
            0 + cfg.timeout) := by
        rw [attempts_waitingCall, hwaiting]
        rfl
      have hattempts' : call.attempt + 1 + k < cfg.maxRetries := by
        omega
      rw [hsplit, run_append, attempts_succ w.link k,
        run_unanswered_one hadaptive hwaiting (by omega)]
      exact ih hnext hattempts'

theorem meets_inOrder_unanswered (n : StopAndWaitLink) (k : ℕ) :
    Meets (step cfg txAddr rxAddr) InOrder n (unanswered cfg k) := by
  have hevents : ∀ e ∈ unanswered cfg k, ∀ n, InOrder n e := by
    intro e he n
    simp only [unanswered, List.mem_flatten, List.mem_replicate] at he
    obtain ⟨_, ⟨-, rfl⟩, he⟩ := he
    rcases List.mem_cons.mp he with rfl | he
    · trivial
    · rw [List.mem_singleton.mp he]
      trivial
  exact (meets_of_forall hevents).mono fun n e he => he n

end

/-- The first payload is accepted at once, and then all its ACKs are lost. -/
def acceptedEvents : List StopAndWaitEvent :=
  [.sendto [7], .transmit 0 none, .toRx 0 none none none, .recvfromReturns]

/-- The first call waits for its ACK. -/
def acceptedCall : Recorded :=
  run (recordStep {} ("a", 1) ("b", 2)) {} acceptedEvents

/-- The call gives up, and the next payload meets the old bit. -/
def mistakenEvents : List StopAndWaitEvent :=
  [.await ⟨1, .timedOut, 1⟩, .sendto [8], .transmit 0 none,
    .toRx 1000 none none none, .toTx 1 none 0 0]

/-- All 1000 attempts of the first call go unanswered. -/
def lostAcksRun : List StopAndWaitEvent :=
  acceptedEvents ++ unanswered {} 999 ++ mistakenEvents

theorem run_acceptedCall :
    run (recordStep {} ("a", 1) ("b", 2)) acceptedCall (unanswered {} 999) =
      { acceptedCall with link := acceptedCall.link.attempts 999 } := by
  have hattempt :
      (acceptedCall.link.waitingCall.map fun c => (c.1.attempt, c.2)) =
        some (0, 0, 0 + 1 / 2) := by
    decide +kernel
  obtain ⟨⟨call, sentAt, deadline⟩, hwaiting, hcall⟩ :=
    Option.map_eq_some_iff.mp hattempt
  obtain ⟨hzero, rfl, rfl⟩ : call.attempt = 0 ∧ sentAt = 0 ∧
      deadline = 0 + 1 / 2 := by
    simpa using hcall
  refine run_unanswered rfl hwaiting ?_
  rw [hzero]
  decide

/-- The second call returns, and its payload is never accepted. -/
theorem lostAcksRun_not_recovers :
    let w := run (recordStep {} ("a", 1) ("b", 2)) {} lostAcksRun
    Meets (step {} ("a", 1) ("b", 2)) InOrder init lostAcksRun ∧
      w.timedOut = [0] ∧ w.settled = [1] ∧ w.link.handed = [[7], [8]] ∧
      w.link.returned = [[7]] ∧ w.link.returning = none ∧
      ¬ Throughout (recordStep {} ("a", 1) ("b", 2)) Recovers {}
        lostAcksRun := by
  intro w
  have hrun : w = run (recordStep {} ("a", 1) ("b", 2))
      { acceptedCall with link := acceptedCall.link.attempts 999 }
      mistakenEvents := by
    rw [← run_acceptedCall, acceptedCall, ← run_append, ← run_append]
    rfl
  have hsources : w.sources = [0] := by
    rw [hrun]
    decide +kernel
  have hcalls : w.timedOut = [0] ∧ w.settled = [1] ∧
      w.link.handed = [[7], [8]] ∧ w.link.returned = [[7]] ∧
      w.link.returning = none := by
    rw [hrun]
    decide +kernel
  obtain ⟨htimedOut, hsettled, hpayloads⟩ := hcalls
  refine ⟨?_, htimedOut, hsettled, hpayloads.1, hpayloads.2.1, hpayloads.2.2,
    fun h => ?_⟩
  · apply (meets_link {} lostAcksRun).mp
    rw [lostAcksRun, meets_append, meets_append]
    refine ⟨⟨by decide +kernel, ?_⟩, ?_⟩
    · exact (meets_link _ _).mpr (meets_inOrder_unanswered _ 999)
    · rw [run_append, ← acceptedCall, run_acceptedCall]
      decide +kernel
  · have hrecovers : Recovers w := h lostAcksRun List.prefix_rfl
    obtain ⟨k, payload, hk, -⟩ := hrecovers 0 (by simp [htimedOut]) 1
      (by simp [hsettled]) Nat.zero_lt_one
    rw [hsources] at hk
    rcases k with _ | k <;> simp at hk

end StopAndWaitLink

end UdpArq
