import UdpArq.GoBackN.Agreement
import UdpArq.Transport.Transmission

/-!
# Acknowledgements of what was never transmitted

`_handle_ack` bounds an acknowledgement by `_next_seq`, which also counts the
datagrams that still wait in `_outbound` and `_pending`.  An acknowledgement
between the frontier and `_next_seq` moves the base over datagrams that were
never transmitted; without such an acknowledgement, nothing that waits is ever
below the base.
-/

namespace UdpArq

namespace GoBackNTransport

open UdpArq.Core

/-- A running thread handles an acknowledgement of the peer that lies beyond
everything moved into `_outstanding`, but not beyond `_next_seq`. -/
def Overshoots (s : GoBackNTransport) (addr : Address) (m : ℕ) : Event → Prop
  | .incoming raw a _ =>
      a = addr ∧ s.crashed = none ∧ s.base.get? addr ≠ none ∧
        ∃ n, IsAck raw n ∧ m < n ∧ n ≤ s.nextSeq.getD addr 0
  | _ => False

/-- Nothing counts as acknowledged that was not transmitted, with `m` one more
than the highest number that was ever moved into `_outstanding`. -/
structure AckedWasSent (s : GoBackNTransport) (addr : Address) (m : ℕ) :
    Prop where
  base_le : s.base.getD addr 0 ≤ m
  pending : ∀ q ∈ (sub s.pending addr).keys, s.base.getD addr 0 ≤ q
  outbound : ∀ item ∈ s.outbound, item.addr = addr →
    s.base.getD addr 0 ≤ item.seq
  completed : ∀ q, (s.status addr q).event = true →
    (s.status addr q).error = none →
      ∃ raw payload, (raw, addr) ∈ s.channel ∧ IsData raw q payload

/-- A step together with the frontier of the peer. -/
def followStep (cfg : Config) (addr : Address) (p : GoBackNTransport × ℕ)
    (e : Event) : GoBackNTransport × ℕ :=
  (step cfg p.1 e, advanceFrontier cfg p.1 addr e p.2)

/-- What holds of a sender that has handled no overshooting acknowledgement. -/
structure Followed (cfg : Config) (addr : Address) (p : GoBackNTransport × ℕ) :
    Prop where
  wellFormed : p.1.WellFormed
  transmits : (p.1.lane addr).Transmits
  frontier : (p.1.lane addr).Frontier cfg p.2

variable {cfg : Config} {s : GoBackNTransport} {addr : Address} {m : ℕ}

theorem followed_init : Followed cfg addr (init, 0) where
  wellFormed := Endpoint.WellFormed.init (E := endpoint cfg)
  transmits := Lane.transmits_fresh addr
  frontier := Lane.frontier_fresh cfg addr

/-- A transmitted datagram has a packet to the peer in the log of the
channel. -/
theorem exists_mem_channel {q : ℕ} (h : (s.lane addr).Transmitted q) :
    ∃ raw payload, (raw, addr) ∈ s.channel ∧ IsData raw q payload := by
  obtain ⟨raw, hraw, payload, hdata⟩ := h
  exact ⟨raw, payload, mem_toPeer.mp hraw, hdata⟩

theorem Followed.ackedWasSent (h : Followed cfg addr (s, m)) :
    AckedWasSent s addr m where
  base_le := h.frontier.base_le
  pending q hq := by
    have hwaiting := h.frontier.waiting q (List.mem_append_left _ hq)
    exact h.frontier.base_le.trans hwaiting
  outbound item hitem haddr := by
    have hqueued : item ∈ (s.lane addr).queued := by
      simpa [lane, Core.lane] using ⟨hitem, haddr⟩
    have hwaiting := h.frontier.waiting item.seq
      (List.mem_append_right _ (List.mem_map_of_mem hqueued))
    exact h.frontier.base_le.trans hwaiting
  completed q hevent herror :=
    exists_mem_channel (h.transmits.completed q ⟨hevent, herror⟩)

/-- Every other event keeps the frontier above the base. -/
theorem Followed.step (h : Followed cfg addr (s, m)) {e : Event}
    (he : ¬ Overshoots s addr m e) :
    Followed cfg addr (followStep cfg addr (s, m) e) where
  wellFormed := Endpoint.WellFormed.step (E := endpoint cfg) h.wellFormed e
  transmits := h.transmits.step (h.wellFormed addr)
    (step_refines h.wellFormed e addr)
  frontier := by
    apply frontier_step_of_slides h.wellFormed h.frontier
    rintro raw input n seqs base rfl hrun hraw hslide
    obtain ⟨-, hle, -, old, hold, -⟩ := slide_eq_some hslide
    by_contra hbeyond
    have hbase : s.base.get? addr = some old := hold
    exact he ⟨rfl, hrun, by simp [hbase], n, hraw, not_le.mp hbeyond, hle⟩

/-- An overshooting acknowledgement moves the base beyond the frontier. -/
theorem Followed.overshoot (h : Followed cfg addr (s, m)) {e : Event}
    (he : Overshoots s addr m e) :
    (followStep cfg addr (s, m) e).2 <
      (followStep cfg addr (s, m) e).1.base.getD addr 0 := by
  rcases e with _ | _ | _ | _ | _ | _ | ⟨raw, a, input⟩
  · exact he.elim
  · exact he.elim
  · exact he.elim
  · exact he.elim
  · exact he.elim
  · exact he.elim
  obtain ⟨rfl, hrun, hknown, n, hraw, hbeyond, hle⟩ := he
  have hrun' : ¬ s.crashed.isSome := by simp [hrun]
  obtain ⟨base, hbase⟩ := Option.ne_none_iff_exists'.mp hknown
  have hlane : (s.lane a).base = some base := hbase
  have hlow : base ≤ m := by
    have := h.frontier.base_le
    rwa [hlane] at this
  have hget : (GoBackNTransport.step cfg s (.incoming raw a input)).base.getD
      a 0 = n := base_of_ack h.wellFormed hrun' hraw hbase
    (hlow.trans_lt hbeyond) hle input
  exact hbeyond.trans_eq hget.symm

theorem run_fst_followStep (addr : Address) (p : GoBackNTransport × ℕ)
    (es : List Event) :
    (run (followStep cfg addr) p es).1 =
      run (GoBackNTransport.step cfg) p.1 es := by
  induction es generalizing p with
  | nil => rfl
  | cons e es ih => exact ih (followStep cfg addr p e)

/-- Nothing that was never transmitted counts as acknowledged exactly as long as
no acknowledgement lies between one more than the highest number ever moved into
`_outstanding` and `_next_seq`.  In any case, an event completes a datagram only
by an acknowledgement above it, and only if it has been transmitted. -/
theorem goBackN_acked_was_sent (cfg : Config) (addr : Address)
    (es : List Event) :
    let start := (init, 0)
    (Throughout (followStep cfg addr) (fun p => AckedWasSent p.1 addr p.2)
        start es ↔
      Meets (followStep cfg addr) (fun p e => ¬ Overshoots p.1 addr p.2 e)
        start es) ∧
    ∀ e q, let s := (run (followStep cfg addr) start es).1
      let s' := (run (followStep cfg addr) start (es ++ [e])).1
      (s'.status addr q).event = true → (s'.status addr q).error = none →
        ¬ ((s.status addr q).event = true ∧ (s.status addr q).error = none) →
          (∃ raw payload, (raw, addr) ∈ s.channel ∧ IsData raw q payload) ∧
          ∃ raw input n, e = .incoming raw addr input ∧ IsAck raw n ∧ q < n := by
  intro start
  have hstart : Followed cfg addr start := followed_init
  refine ⟨?_, ?_⟩
  · apply throughout_iff_meets_of_breaks (Followed cfg addr)
      (fun p h => h.ackedWasSent) (fun p e h he => h.step he) _ hstart
    intro p e h hsent he
    exact (h.overshoot he).not_ge hsent.base_le
  · intro e q s s' hevent herror hnew
    have hs : s = run (GoBackNTransport.step cfg) init es :=
      run_fst_followStep addr start es
    have hs' : s' = GoBackNTransport.step cfg s e := by
      simp only [s', s, run_concat]
      rfl
    have hwf : s.WellFormed := by
      rw [hs]
      exact Endpoint.wellFormed_run (E := endpoint cfg) es
    have htransmits : (s.lane addr).Transmits := by
      rw [hs]
      exact Endpoint.transmits_run (E := endpoint cfg) es addr
    rcases (step_refines hwf e addr).completed (q := q)
      (by rw [← hs']; exact ⟨hevent, herror⟩) with
        hold | ⟨raw, input, n, he, hout, hraw, hlt⟩
    · exact absurd hold hnew
    · exact ⟨exists_mem_channel (htransmits.outstanding q hout),
        raw, input, n, he, hraw, hlt⟩

/-- An acknowledgement of the second datagram arrives when only the first one
has been transmitted. -/
def overshootRun : List Event :=
  [.sendto [7] ("b", 2), .drain,
    .pump ("b", 2) ⟨0, 0, none⟩,
    .sendto [8] ("b", 2),
    .incoming [88, 162, 0, 0, 0, 0, 0, 0, 0, 2, 2, 1, 0, 0, 165, 90] ("b", 2)
      ⟨1, 1, none⟩]

/-- The second datagram is below the base although it still waits. -/
theorem goBackN_acked_unsent :
    let p := run (followStep {} ("b", 2)) (init, 0) overshootRun
    ¬ AckedWasSent p.1 ("b", 2) p.2 ∧ p.1.base.getD ("b", 2) 0 = 2 ∧
      p.2 = 1 ∧ p.1.outbound = [⟨("b", 2), 1, [8]⟩] := by
  intro p
  have hbase : p.1.base.getD ("b", 2) 0 = 2 := by decide +kernel
  have hfrontier : p.2 = 1 := by decide +kernel
  have hwaits : p.1.outbound = [⟨("b", 2), 1, [8]⟩] := by decide +kernel
  refine ⟨fun h => ?_, hbase, hfrontier, hwaits⟩
  have hle := h.base_le
  rw [hbase, hfrontier] at hle
  exact absurd hle (by decide)

end GoBackNTransport

end UdpArq
