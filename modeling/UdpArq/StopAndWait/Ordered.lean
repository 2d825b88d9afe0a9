import UdpArq.StopAndWait.Safety

/-!
# Stop-and-Wait over links that keep the order

Each direction may lose packets, deliver a packet several times in a row and
flip a bit of a copy, but never goes back to an older packet.  Then every
payload given to `sendto` is accepted exactly once.  Since `recvfrom` sends its
ACK before it returns, `sendto` may return before the payload has left
`recvfrom`.
-/

namespace UdpArq

open StopAndWaitTransport

namespace StopAndWaitLink

variable {cfg : Config} {txAddr rxAddr : Address} {n : StopAndWaitLink}

/-- The network delivers no packet older than the latest that it delivered in
the same direction. -/
def InOrder (n : StopAndWaitLink) : StopAndWaitEvent → Prop
  | .toRx i _ _ _ => n.dataRead ≤ i
  | .toTx i _ _ _ => n.ackRead ≤ i
  | _ => True

instance (n : StopAndWaitLink) : ∀ e, Decidable (InOrder n e)
  | .toRx i _ _ _ => inferInstanceAs (Decidable (n.dataRead ≤ i))
  | .toTx i _ _ _ => inferInstanceAs (Decidable (n.ackRead ≤ i))
  | .sendto _ | .transmit _ _ | .await _ | .recvfrom _ _ _
  | .recvfromReturns => isTrue trivial

/-- The send of an ACK to the peer does not raise in this step. -/
def AckReturns : StopAndWaitEvent → Prop
  | .toRx _ _ _ sendResult => sendResult = none
  | _ => True

theorem InOrder.protocol {e : StopAndWaitEvent} (he : InOrder n e)
    {a : AlternatingBit.Event Bytes} (ha : n.protocolEvent e = some a) :
    AlternatingBit.InOrder n.protocol a := by
  rcases protocolEvent_cases ha with ⟨payload, rfl⟩ | rfl |
    ⟨i, flip, now, ackedAt, rfl, rfl⟩ |
    ⟨i, flip, remaining, sendResult, rfl, rfl⟩
  · trivial
  · trivial
  · exact he
  · exact he

/-- The invariant of runs in which no call has raised. -/
structure Ordered (txAddr rxAddr : Address) (n : StopAndWaitLink) : Prop where
  inStep : InStep txAddr rxAddr n
  recent : n.protocol.Recent
  idle : n.call = none → n.handed.length = n.completed

theorem ordered_init : Ordered txAddr rxAddr init where
  inStep := inStep_init
  recent := AlternatingBit.recent_init
  idle := fun _ => rfl

/-! ## Calls that return -/

/-- A step either leaves the sender's part alone, or it is a step of `sendto`,
of a call under way or of a new one. -/
theorem step_sender (cfg : Config) (txAddr rxAddr : Address)
    (n : StopAndWaitLink) (e : StopAndWaitEvent) :
    let n' := step cfg txAddr rxAddr n e
    (n'.call = n.call ∧ n'.handed = n.handed ∧ n'.completed = n.completed ∧
        n'.failures = n.failures) ∨
      ∃ m result, n' = sends m result ∧ m.completed = n.completed ∧
        m.failures = n.failures ∧
        (n.call.isSome ∧ m.handed = n.handed ∨
          n.call = none ∧ m.handed.length = n.handed.length + 1) := by
  cases e with
  | sendto payload =>
      simp only [step]
      split
      · exact Or.inl ⟨rfl, rfl, rfl, rfl⟩
      · rename_i hcall
        exact Or.inr ⟨_, _, rfl, rfl, rfl, Or.inr ⟨hcall, by simp⟩⟩
  | transmit sentAt sendResult =>
      simp only [step]
      split
      · exact Or.inl ⟨rfl, rfl, rfl, rfl⟩
      · rename_i call hsending
        have hcall : n.call.isSome := by
          simp [call_of_sendingCall hsending]
        exact Or.inr ⟨_, _, rfl, rfl, rfl, Or.inl ⟨hcall, rfl⟩⟩
  | await input =>
      simp only [step]
      split
      · exact Or.inl ⟨rfl, rfl, rfl, rfl⟩
      · rename_i call sentAt deadline hwaiting
        have hcall : n.call.isSome := by
          simp [call_of_waitingCall hwaiting]
        split_ifs
        · exact Or.inl ⟨rfl, rfl, rfl, rfl⟩
        · exact Or.inr ⟨_, _, rfl, rfl, rfl, Or.inl ⟨hcall, rfl⟩⟩
  | toTx i flip now ackedAt =>
      simp only [step]
      split
      · rename_i call sentAt deadline j raw hwaiting hget
        have hcall : n.call.isSome := by
          simp [call_of_waitingCall hwaiting]
        exact Or.inr ⟨_, _, rfl, rfl, rfl, Or.inl ⟨hcall, rfl⟩⟩
      · exact Or.inl ⟨rfl, rfl, rfl, rfl⟩
  | recvfrom remaining arrival sendResult =>
      simp only [step]
      split_ifs <;> exact Or.inl ⟨rfl, rfl, rfl, rfl⟩
  | toRx i flip remaining sendResult =>
      simp only [step]
      split
      · refine Or.inl ?_
        unfold receives
        split <;> exact ⟨rfl, rfl, rfl, rfl⟩
      · exact Or.inl ⟨rfl, rfl, rfl, rfl⟩
  | recvfromReturns => exact Or.inl ⟨rfl, rfl, rfl, rfl⟩

variable (cfg txAddr rxAddr) in
/-- The history of exceptions only grows. -/
theorem failures_step (n : StopAndWaitLink) (e : StopAndWaitEvent) :
    n.failures <+: (step cfg txAddr rxAddr n e).failures := by
  rcases step_sender cfg txAddr rxAddr n e with
    ⟨-, -, -, hsame⟩ | ⟨m, result, hstep, -, hm, -⟩
  · rw [hsame]
  · rw [hstep, ← hm]
    unfold sends
    split
    · exact List.prefix_rfl
    · exact List.prefix_rfl
    · exact List.prefix_append _ _

/-- Between calls that have not raised, all calls have returned. -/
theorem Ordered.idle_step (h : Ordered txAddr rxAddr n) {e : StopAndWaitEvent}
    (hfailures : (step cfg txAddr rxAddr n e).failures = [])
    (hcall : (step cfg txAddr rxAddr n e).call = none) :
    (step cfg txAddr rxAddr n e).handed.length =
      (step cfg txAddr rxAddr n e).completed := by
  rcases step_sender cfg txAddr rxAddr n e with
    ⟨hcall', hhanded, hcompleted, -⟩ |
      ⟨m, ⟨t, progress⟩, hstep, hcompleted, -, hm⟩
  · rw [hhanded, hcompleted]
    exact h.idle (hcall'.symm.trans hcall)
  · have hlen : m.handed.length = m.completed + 1 := by
      rw [hcompleted]
      rcases hm with ⟨hsome, hhanded⟩ | ⟨hnone, hhanded⟩
      · obtain ⟨call, hcall⟩ := Option.isSome_iff_exists.mp hsome
        rw [hhanded]
        exact (h.inStep.1.call call hcall).2.2.1
      · rw [hhanded, h.idle hnone]
    rw [hstep] at hfailures hcall ⊢
    cases progress with
    | running call => cases hcall
    | returned => exact hlen
    | raised e => exact absurd hfailures (by simp [sends])

/-- A step over ordered links keeps the invariant unless a call raises. -/
theorem Ordered.step (h : Ordered txAddr rxAddr n) {e : StopAndWaitEvent}
    (horder : InOrder n e) (hack : AckReturns e)
    (hfailures : (step cfg txAddr rxAddr n e).failures = []) :
    Ordered txAddr rxAddr (step cfg txAddr rxAddr n e) := by
  have hadmissible : Admissible n e := by
    cases e with
    | sendto payload => exact h.idle
    | toRx i flip remaining sendResult => exact fun _ _ _ => hack
    | _ => trivial
  obtain ⟨hmatches, hprotocol⟩ := h.inStep.1.step cfg hadmissible
  have hidle := h.idle_step hfailures
  cases hevent : n.protocolEvent e with
  | none =>
      rw [hevent, Option.elim_none] at hprotocol
      exact ⟨⟨hmatches, hprotocol ▸ h.inStep.2⟩, hprotocol ▸ h.recent, hidle⟩
  | some a =>
      rw [hevent, Option.elim_some] at hprotocol
      obtain ⟨hcoherent, hrecent⟩ := h.inStep.2.step_inOrder h.recent
        (horder.protocol hevent) hprotocol.symm
      exact ⟨⟨hmatches, hcoherent⟩, hrecent, hidle⟩

variable (cfg txAddr rxAddr) in
theorem failures_run (n : StopAndWaitLink) (es : List StopAndWaitEvent) :
    n.failures <+:
      (run (StopAndWaitLink.step cfg txAddr rxAddr) n es).failures := by
  induction es generalizing n with
  | nil => exact List.prefix_rfl
  | cons e es ih => exact (failures_step cfg txAddr rxAddr n e).trans (ih _)

/-- The invariant holds in every run in which no call raises. -/
theorem ordered_run {es : List StopAndWaitEvent}
    (horder : Meets (StopAndWaitLink.step cfg txAddr rxAddr) InOrder init es)
    (hacks : ∀ e ∈ es, AckReturns e)
    (hfailures :
      (run (StopAndWaitLink.step cfg txAddr rxAddr) init es).failures = []) :
    Ordered txAddr rxAddr
      (run (StopAndWaitLink.step cfg txAddr rxAddr) init es) := by
  have hstep : ∀ (n : StopAndWaitLink) e,
      (n.failures = [] → Ordered txAddr rxAddr n) → InOrder n e ∧ AckReturns e →
        (StopAndWaitLink.step cfg txAddr rxAddr n e).failures = [] →
          Ordered txAddr rxAddr (StopAndWaitLink.step cfg txAddr rxAddr n e) := by
    intro n e h he hnone
    have hbefore : n.failures = [] := by
      have hgrow := failures_step cfg txAddr rxAddr n e
      rw [hnone] at hgrow
      exact List.prefix_nil.mp hgrow
    exact (h hbefore).step he.1 he.2 hnone
  exact run_invariant_of_meets
    (fun n : StopAndWaitLink => n.failures = [] → Ordered txAddr rxAddr n)
    hstep (fun _ => ordered_init) (horder.and (meets_of_forall hacks)) hfailures

/-! ## Exactly once -/

/-- What is returned, together with the payload that `recvfrom` is about to
return, are the first payloads handed over: as many as calls have completed, or
one more.  Between calls they are all payloads, and the bits agree. -/
structure ExactlyOnce (txAddr rxAddr : Address) (n : StopAndWaitLink) :
    Prop where
  accepted : ∃ k, (k = n.completed ∨ k = n.completed + 1) ∧
    k ≤ n.handed.length ∧ n.returned ++ n.returning.toList = n.handed.take k
  idle : n.call = none → n.handed.length = n.completed ∧
    n.returned ++ n.returning.toList = n.handed ∧
    n.tx.sendBit.getD rxAddr 0 = n.rx.recvBit.getD txAddr 0

theorem Ordered.exactlyOnce (h : Ordered txAddr rxAddr n) :
    ExactlyOnce txAddr rxAddr n := by
  have hcoherent := h.inStep.2
  have hle : n.accepted.length ≤ n.handed.length := hcoherent.accepted_le
  have hge : n.completed ≤ n.accepted.length := hcoherent.completed_le
  have hlt : n.handed.length ≤ n.completed + 1 := hcoherent.handed_le
  have htake : n.accepted = n.handed.take n.accepted.length :=
    hcoherent.accepted
  refine ⟨⟨n.accepted.length, by omega, hle, htake⟩, fun hcall => ?_⟩
  have hdone := h.idle hcall
  have hall : n.accepted.length = n.handed.length := by omega
  refine ⟨hdone, ?_, ?_⟩
  · rw [hall, List.take_length] at htake
    exact htake
  · rw [h.inStep.1.sendBit, h.inStep.1.recvBit, hall, hdone]

/-- Over links that keep the order, with no exception from `sendto` or from the
send of an ACK, every payload is accepted exactly once. -/
theorem stopAndWait_exactlyOnce (cfg : Config) (txAddr rxAddr : Address)
    (es : List StopAndWaitEvent)
    (horder : Meets (step cfg txAddr rxAddr) InOrder init es)
    (hacks : ∀ e ∈ es, AckReturns e)
    (hfailures : (run (step cfg txAddr rxAddr) init es).failures = []) :
    Throughout (step cfg txAddr rxAddr) (ExactlyOnce txAddr rxAddr) init es := by
  rintro pre ⟨post, rfl⟩
  have hpre : (run (step cfg txAddr rxAddr) init pre).failures = [] := by
    rw [run_append] at hfailures
    have hgrow := failures_run cfg txAddr rxAddr
      (run (step cfg txAddr rxAddr) init pre) post
    rw [hfailures] at hgrow
    exact List.prefix_nil.mp hgrow
  have hordered := ordered_run (horder.take (List.prefix_append pre post))
    (fun e he => hacks e (List.mem_append_left _ he)) hpre
  exact hordered.exactlyOnce

theorem stopAndWait_exactlyOnce_exampleRun :
    Throughout (step {} ("a", 1) ("b", 2)) (ExactlyOnce ("a", 1) ("b", 2)) init
      (exampleRun [7]) :=
  stopAndWait_exactlyOnce {} ("a", 1) ("b", 2) (exampleRun [7])
    (by decide +kernel)
    (by simp [exampleRun, AckReturns]) (by decide +kernel)

/-- The receiver has sent its ACK and is about to return the payload. -/
def earlyRun : List StopAndWaitEvent :=
  [.sendto [7], .transmit 0 none, .toRx 0 none none none, .toTx 0 none 0 0]

/-- The call of `sendto` has returned before the payload is returned. -/
theorem earlyRun_not_returned :
    let n := run (step {} ("a", 1) ("b", 2)) init earlyRun
    Meets (step {} ("a", 1) ("b", 2)) InOrder init earlyRun ∧
      (∀ e ∈ earlyRun, AckReturns e) ∧ n.failures = [] ∧
      ¬ ∃ k, (k = n.completed ∨ k = n.completed + 1) ∧
        n.returned = n.handed.take k := by
  refine ⟨by decide +kernel, by simp [earlyRun, AckReturns], by decide +kernel,
    ?_⟩
  rintro ⟨k, rfl | rfl, hk⟩
  · exact absurd hk (by decide +kernel)
  · exact absurd hk (by decide +kernel)

end StopAndWaitLink

end UdpArq
