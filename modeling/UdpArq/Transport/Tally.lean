import UdpArq.Transport.Acks

/-!
# Retries of a peer

What decides when a peer is given up: its retry counter, what has been sent to
it and which errors it has been failed with.  A timeout sweep in which no send
raises does one of three things with a peer: nothing, another round of
retransmissions, or a failure.
-/

namespace UdpArq

open UdpArq.Core

namespace Core

/-- The errors with which `_fail_peer` was called for the peer, newest first. -/
def errorsOf (addr : Address) (failures : List (Address × Err)) : List Err :=
  failures.filterMap fun p => if p.1 = addr then some p.2 else none

@[simp] theorem errorsOf_cons_self (addr : Address) (e : Err)
    (failures : List (Address × Err)) :
    errorsOf addr ((addr, e) :: failures) = e :: errorsOf addr failures := by
  simp [errorsOf]

@[simp] theorem errorsOf_cons_of_ne {addr b : Address} (h : b ≠ addr) (e : Err)
    (failures : List (Address × Err)) :
    errorsOf b ((addr, e) :: failures) = errorsOf b failures := by
  simp [errorsOf, Ne.symm h]

end Core

/-- The counter, the sent packets and the failures of a peer. -/
@[ext]
structure Tally where
  retries : ℕ
  sent : ℕ
  errors : List Err

def Core.tally (c : Core) (addr : Address) : Tally where
  retries := c.retries.getD addr 0
  sent := (toPeer addr c.channel).length
  errors := errorsOf addr c.failures

namespace Tally

/-- What a timeout sweep makes of a peer when no send raises; `fails` says that
the peer is due and its retries are used up. -/
inductive Swept (maxRetries : ℕ) (e : Err) (fails : Prop) (t t' : Tally) : Prop
  | idle (hfails : ¬ fails) (htally : t' = t)
  | resent (hfails : ¬ fails) (hretries : t'.retries = t.retries + 1)
      (hle : t'.retries ≤ maxRetries) (hsent : t.sent < t'.sent)
      (herrors : t'.errors = t.errors)
  | failed (hfails : fails) (hretries : t'.retries = t.retries + 1)
      (hlt : maxRetries < t'.retries) (herrors : t'.errors = e :: t.errors)

end Tally

namespace Core

/-- Sampling a round-trip time touches neither counters nor failures. -/
theorem sampleRtt_tally (c : Core) (addr : Address) (seq : ℕ)
    (acknowledged : List ℕ) (now : ℚ) :
    (c.sampleRtt addr seq acknowledged now).retries = c.retries ∧
      (c.sampleRtt addr seq acknowledged now).failures = c.failures := by
  constructor
  all_goals
    simp only [sampleRtt]
    split
    · rfl
    · split_ifs
      · rfl
      · split <;> rfl

/-- Acknowledging a datagram touches nothing that concerns the retries. -/
theorem acknowledge_tally (c : Core) (addr : Address) (ackFor : ℕ)
    (payloads : List Bytes) (sendResult : Option String) :
    (c.acknowledge addr ackFor payloads sendResult).failures = c.failures ∧
      (c.acknowledge addr ackFor payloads sendResult).retries = c.retries ∧
      (c.acknowledge addr ackFor payloads sendResult).status = c.status := by
  unfold acknowledge
  rcases ackPacket ackFor with e | packet
  · exact ⟨rfl, rfl, rfl⟩
  · rcases sendResult with _ | what <;> exact ⟨rfl, rfl, rfl⟩

/-- Neither the counter of any peer nor a failure is new. -/
def Steady (c c' : Core) : Prop :=
  c'.failures = c.failures ∧
    ∀ b, c'.retries.getD b 0 = c.retries.getD b 0

theorem Steady.of_eq {c c' : Core} (hfailures : c'.failures = c.failures)
    (hretries : c'.retries = c.retries) : c.Steady c' :=
  ⟨hfailures, fun b => by rw [hretries]⟩

theorem steady_register (c : Core) (item : Item) (rest : List Item) :
    c.Steady (c.register item rest) := by
  refine ⟨rfl, fun b => ?_⟩
  by_cases hb : b = item.addr
  · rcases hget : c.retries.get? item.addr with _ | n
    · simp [register, Dict.getD, hb, hget]
    · simp [register, Dict.getD, hb, hget]
  · simp [register, Dict.getD, hb]

theorem steady_sendto {cfg : Config} {c c' : Core} {data : Bytes}
    {addr : Address} (h : c.sendto cfg data addr = .ok c') : c.Steady c' := by
  unfold sendto at h
  split_ifs at h
  cases h
  exact .of_eq rfl rfl

theorem steady_recvfrom {c c' : Core} {x : Bytes × Address}
    (h : c.recvfrom = .ok (x, c')) : c.Steady c' := by
  unfold recvfrom at h
  rcases hget : c.incomingData.get? with _ | ⟨y, q⟩
  · rw [hget] at h
    cases h
  · rw [hget] at h
    cases h
    exact .of_eq rfl rfl

theorem steady_close (c : Core) : c.Steady c.close := by
  unfold close
  split <;> exact .of_eq rfl rfl

theorem Drained.steady {cfg : Config} {c c' : Core} (h : Drained cfg c c') :
    c.Steady c' := by
  cases h with
  | idle => exact .of_eq rfl rfl
  | @crash item rest | @register item rest => exact steady_register c item rest

theorem Pumped.steady {cfg : Config} {addr : Address} {input : PumpInput}
    {c c' : Core} (h : Pumped cfg addr input c c') : c.Steady c' := by
  cases h <;> exact .of_eq rfl rfl

/-- What is left of the tally of a peer by a step for another one. -/
theorem tally_of_ne {c c' : Core} {addr b : Address} (hb : b ≠ addr)
    {n : ℕ} (hretries : c'.retries = c.retries.set addr n)
    (packets : List Bytes)
    (hchannel : c'.channel =
      packets.map (fun packet => (packet, addr)) ++ c.channel)
    (hfailures : c'.failures = c.failures ∨
      ∃ e, c'.failures = (addr, e) :: c.failures) :
    c'.tally b = c.tally b := by
  have herrors : errorsOf b c'.failures = errorsOf b c.failures := by
    rcases hfailures with hsame | ⟨e, hfailed⟩
    · rw [hsame]
    · rw [hfailed, errorsOf_cons_of_ne hb]
  simp [tally, hretries, hchannel, herrors, toPeer_map, Dict.getD, hb]

/-- Another round of retransmissions. -/
theorem tally_resent {c c' : Core} {addr : Address} {maxRetries : ℕ} {e : Err}
    {fails : Prop} (hfails : ¬ fails)
    (hretries : c'.retries = c.retries.set addr (c.retries.getD addr 0 + 1))
    (hle : c.retries.getD addr 0 + 1 ≤ maxRetries) {packets : List Bytes}
    (hne : packets ≠ [])
    (hchannel : c'.channel =
      packets.map (fun packet => (packet, addr)) ++ c.channel)
    (hfailures : c'.failures = c.failures) :
    Tally.Swept maxRetries e fails (c.tally addr) (c'.tally addr) := by
  have hcount : (c'.tally addr).retries = (c.tally addr).retries + 1 := by
    simp [tally, hretries, Dict.getD]
  refine .resent hfails hcount (hcount.trans_le hle) ?_ ?_
  · have hpos := List.length_pos_of_ne_nil hne
    simp only [tally, hchannel, toPeer_append, toPeer_map, if_true,
      List.length_append]
    omega
  · simp [tally, hfailures]

/-- A failure after the last retry. -/
theorem tally_failed {c c' : Core} {addr : Address} {maxRetries : ℕ} {e : Err}
    {fails : Prop} (hfails : fails)
    (hretries : c'.retries = c.retries.set addr (c.retries.getD addr 0 + 1))
    (hlt : maxRetries < c.retries.getD addr 0 + 1)
    (hfailures : c'.failures = (addr, e) :: c.failures) :
    Tally.Swept maxRetries e fails (c.tally addr) (c'.tally addr) := by
  have hcount : (c'.tally addr).retries = (c.tally addr).retries + 1 := by
    simp [tally, hretries, Dict.getD]
  exact .failed hfails hcount (hlt.trans_eq hcount.symm)
    (by simp [tally, hfailures])

/-- What arrives from a peer fails nobody; it clears the counter of this peer or
settles nothing. -/
structure Clears (addr : Address) (c c' : Core) : Prop where
  failures : c'.failures = c.failures
  retries : c'.retries = c.retries ∧ c'.status = c.status ∨
    c'.retries = c.retries.set addr 0

theorem Clears.refl (addr : Address) (c : Core) : c.Clears addr c :=
  ⟨rfl, Or.inl ⟨rfl, rfl⟩⟩

end Core

/-! ## Steps -/

namespace Endpoint.Handled

variable {cfg : Config} {E : Endpoint cfg} (H : E.Handled) {s : E.State}
include H

/-- Only timeouts and arrivals move a counter or fail a peer. -/
theorem steady_step {e : Event} (htimeouts : ∀ input, e ≠ .timeouts input)
    (hincoming : ∀ raw addr input, e ≠ .incoming raw addr input) :
    Core.Steady (E.core s) (E.core (E.step s e)) := by
  by_cases hdead : e.isCall = false ∧ (E.core s).crashed.isSome
  · rw [H.step_of_dead hdead.1 hdead.2]
    exact .of_eq rfl rfl
  cases e with
  | sendto data addr =>
      rw [H.core_sendto]
      rcases hok : (E.core s).sendto cfg data addr with e | c
      · exact .of_eq rfl rfl
      · exact steady_sendto hok
  | recvfrom =>
      rw [H.core_recvfrom]
      rcases hok : (E.core s).recvfrom with e | ⟨x, c⟩
      · exact .of_eq rfl rfl
      · exact steady_recvfrom hok
  | close =>
      rw [H.core_close]
      exact steady_close _
  | drain => exact (H.drained fun h => hdead ⟨rfl, h⟩).steady
  | pump addr input => exact (H.pumped (fun h => hdead ⟨rfl, h⟩) addr input).steady
  | timeouts input => exact absurd rfl (htimeouts input)
  | incoming raw addr input => exact absurd rfl (hincoming raw addr input)

/-- A sweep of a running thread. -/
theorem step_timeouts_tally {input : SweepInput} {b : Address} {maxRetries : ℕ}
    {e : Err} {fails : Prop}
    (hsweep : ¬ (E.core s).crashed.isSome → Tally.Swept maxRetries e fails
      ((E.core s).tally b) ((E.core (H.timeouts s input)).tally b)) :
    Tally.Swept maxRetries e ((E.core s).crashed = none ∧ fails)
      ((E.core s).tally b) ((E.core (E.step s (.timeouts input))).tally b) := by
  by_cases hdead : (E.core s).crashed.isSome
  · rw [H.step_of_dead rfl hdead]
    refine .idle ?_ rfl
    rintro ⟨hnone, -⟩
    simp [hnone] at hdead
  · rw [H.step_eq, Handlers.step, if_neg hdead]
    simpa only [Option.not_isSome_iff_eq_none.mp hdead, true_and]
      using hsweep hdead

/-- What arrives clears the counter if an acknowledgement does. -/
theorem step_incoming_tally (A : E.HandlesAcks) {raw : Bytes} {addr : Address}
    {input : IncomingInput} (hack : ¬ (E.core s).crashed.isSome →
      (E.core s).Clears addr (E.core (A.handle s raw addr input))) :
    (E.core s).Clears addr (E.core (E.step s (.incoming raw addr input))) := by
  by_cases hdead : (E.core s).crashed.isSome
  · rw [H.step_of_dead rfl hdead]
    exact .refl addr _
  have harrived := A.arrived s raw addr input hdead
  generalize E.core (E.step s (.incoming raw addr input)) = c at harrived ⊢
  cases harrived with
  | ack => exact hack hdead
  | @data _ _ _ expected _ k payloads =>
      obtain ⟨hfailures, hretries, hstatus⟩ := acknowledge_tally
        { E.core s with expected } addr k payloads input.sendResult
      exact ⟨hfailures, Or.inl ⟨hretries, hstatus⟩⟩
  | other => exact .refl addr _

end Endpoint.Handled

end UdpArq
