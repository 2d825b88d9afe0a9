import UdpArq.StopAndWait.Refinement

/-!
# Stop-and-Wait over any network

One bit tells a datagram from its neighbours, but not from those two places
away.  What `recvfrom` returns is a prefix of the payloads given to `sendto` in
every run in which nothing out of date is read; a network that reorders may
deliver a packet so late that it passes for a new one.
-/

namespace UdpArq

namespace StopAndWaitLink

variable {cfg : Config} {txAddr rxAddr : Address} {n : StopAndWaitLink}

/-- The step reads nothing out of date and loses nothing: `recvfrom` does not
read an intact DATA packet of an earlier payload that carries the expected bit,
the ACK of a new payload is sent, `sendto` does not read an intact ACK packet
with the awaited bit before its payload is accepted, and no call follows one
that raised. -/
def UpToDate (n : StopAndWaitLink) : StopAndWaitEvent → Prop
  | .sendto _ => n.call = none → n.handed.length = n.completed
  | .toRx i flip remaining sendResult =>
      ∀ q ∈ n.rxReads i flip remaining, q % 2 = n.accepted.length % 2 →
        n.accepted.length ≤ q ∧ sendResult = none
  | .toTx i flip now _ =>
      ∀ j ∈ n.txReads i flip now, j % 2 = (n.completed + 1) % 2 →
        n.completed < n.accepted.length
  | _ => True

instance (n : StopAndWaitLink) : ∀ e, Decidable (UpToDate n e)
  | .sendto _ =>
      inferInstanceAs
        (Decidable (n.call = none → n.handed.length = n.completed))
  | .toRx i flip remaining sendResult =>
      inferInstanceAs (Decidable (∀ q ∈ n.rxReads i flip remaining,
        q % 2 = n.accepted.length % 2 →
          n.accepted.length ≤ q ∧ sendResult = none))
  | .toTx i flip now _ =>
      inferInstanceAs (Decidable (∀ j ∈ n.txReads i flip now,
        j % 2 = (n.completed + 1) % 2 → n.completed < n.accepted.length))
  | .transmit _ _ | .await _ | .recvfrom _ _ _
  | .recvfromReturns => isTrue trivial

theorem UpToDate.admissible {e : StopAndWaitEvent} (he : UpToDate n e) :
    Admissible n e := by
  cases e with
  | sendto payload => exact he
  | toRx i flip remaining sendResult =>
      intro q hq hparity
      exact (he q hq hparity).2
  | _ => trivial

theorem rxReads_eq_some {i : ℕ} {flip : Option ℕ} {remaining : Option ℚ}
    (hreads : (n.rxReads i flip remaining).isSome) {q : ℕ}
    (hq : n.protocol.data[i]? = some q) :
    n.rxReads i flip remaining = some q := by
  unfold rxReads at hreads ⊢
  split_ifs at hreads ⊢
  · exact intactCopy_eq_some hreads hq
  · cases hreads

theorem txReads_eq_some {i : ℕ} {flip : Option ℕ} {now : ℚ}
    (hreads : (n.txReads i flip now).isSome) {j : ℕ}
    (hj : n.protocol.acks[i]? = some j) : n.txReads i flip now = some j := by
  unfold txReads at hreads ⊢
  split at hreads
  · cases hreads
  · split_ifs at hreads ⊢
    · exact intactCopy_eq_some hreads hj
    · cases hreads

theorem UpToDate.fresh {e : StopAndWaitEvent} (he : UpToDate n e)
    {a : AlternatingBit.Event Bytes} (ha : n.protocolEvent e = some a) :
    AlternatingBit.Fresh n.protocol a := by
  rcases protocolEvent_cases ha with ⟨payload, rfl⟩ | rfl |
    ⟨i, flip, now, ackedAt, rfl, rfl⟩ |
    ⟨i, flip, remaining, sendResult, rfl, rfl⟩
  · trivial
  · trivial
  · cases hreads : (n.txReads i flip now).isSome with
    | false => trivial
    | true =>
        intro j hj hcalling hwaiting hparity
        have hlt := he j (txReads_eq_some hreads hj) hparity
        exact hlt.ne hwaiting.symm
  · cases hreads : (n.rxReads i flip remaining).isSome &&
        sendResult.isNone with
    | false => trivial
    | true =>
        intro q hq hlt hparity
        have hread := rxReads_eq_some (Bool.and_elim_left hreads) hq
        exact (he q hread hparity).1.not_gt hlt

/-- The invariant of up-to-date runs. -/
def InStep (txAddr rxAddr : Address) (n : StopAndWaitLink) : Prop :=
  Matches txAddr rxAddr n ∧ n.protocol.Coherent

theorem inStep_init : InStep txAddr rxAddr init :=
  ⟨matches_init, AlternatingBit.coherent_init⟩

theorem InStep.step (h : InStep txAddr rxAddr n) {e : StopAndWaitEvent}
    (he : UpToDate n e) :
    InStep txAddr rxAddr (step cfg txAddr rxAddr n e) := by
  obtain ⟨hmatches, hprotocol⟩ := h.1.step cfg he.admissible
  refine ⟨hmatches, ?_⟩
  rw [hprotocol]
  cases hevent : n.protocolEvent e with
  | none => exact h.2
  | some a => exact h.2.step (he.fresh hevent)

/-- What is returned are the first payloads handed over. -/
theorem InStep.returned_prefix (h : InStep txAddr rxAddr n) :
    n.returned <+: n.handed := by
  have haccepted : n.accepted <+: n.handed := by
    have htake : n.accepted = n.handed.take n.accepted.length := h.2.accepted
    rw [htake]
    exact List.take_prefix _ _
  exact (List.prefix_append _ _).trans haccepted

/-- In a run that reads nothing out of date and loses nothing, what `recvfrom`
returns is at every moment a prefix of what was given to `sendto`. -/
theorem stopAndWait_delivers_prefix (cfg : Config) (txAddr rxAddr : Address)
    (es : List StopAndWaitEvent)
    (hes : Meets (step cfg txAddr rxAddr) UpToDate init es) :
    Throughout (step cfg txAddr rxAddr) (fun n => n.returned <+: n.handed)
      init es := by
  intro pre hpre
  have hinStep : InStep txAddr rxAddr
      (run (step cfg txAddr rxAddr) init pre) :=
    run_invariant_of_meets (InStep txAddr rxAddr) (fun _ _ h he => h.step he)
      inStep_init (hes.take hpre)
  exact hinStep.returned_prefix

/-- One datagram: the transmission reaches the receiver in a damaged copy and,
after a timeout, intact and twice; the ACK comes back. -/
def exampleRun (payload : Bytes) : List StopAndWaitEvent :=
  [.sendto payload, .transmit 0 none, .toRx 0 (some 3) none none,
    .await ⟨1, .timedOut, 1⟩, .transmit 1 none, .toRx 1 none none none,
    .recvfromReturns, .toRx 1 none none none, .toTx 0 none 1 1]

theorem stopAndWait_delivers_prefix_exampleRun :
    Throughout (step {} ("a", 1) ("b", 2)) (fun n => n.returned <+: n.handed)
      init (exampleRun [7]) :=
  stopAndWait_delivers_prefix {} ("a", 1) ("b", 2) (exampleRun [7])
    (by decide +kernel)

/-- Two datagrams arrive and are acknowledged; then the network delivers a
second copy of the first one. -/
def staleRun : List StopAndWaitEvent :=
  [.sendto [7], .transmit 0 none, .toRx 0 none none none, .recvfromReturns,
    .toTx 0 none 0 0, .sendto [8], .transmit 0 none, .toRx 1 none none none,
    .recvfromReturns, .toTx 1 none 0 0, .toRx 0 none none none,
    .recvfromReturns]

/-- The first payload is returned again. -/
theorem staleRun_not_prefix :
    ¬ Throughout (step {} ("a", 1) ("b", 2)) (fun n => n.returned <+: n.handed)
      init staleRun := by
  intro h
  exact absurd (h staleRun List.prefix_rfl) (by decide +kernel)

end StopAndWaitLink

end UdpArq
