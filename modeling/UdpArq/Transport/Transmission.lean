import UdpArq.Transport.Endpoint
import UdpArq.Transport.Tracking

/-!
# What has been transmitted

A datagram is transmitted once a packet that carries it has been handed to the
channel.  Whatever is outstanding or acknowledged has been transmitted, and
whatever waits comes after everything that has.
-/

namespace UdpArq

namespace Lane

variable {cfg : Config} {D : Discipline} {fails : SweepInput → Prop}
  {l l' : Lane} {e : Event}

/-- The channel has taken a packet that carries datagram `q`. -/
def Transmitted (l : Lane) (q : ℕ) : Prop :=
  ∃ raw ∈ l.wire, ∃ payload, IsData raw q payload

structure Transmits (l : Lane) : Prop where
  outstanding : ∀ q ∈ l.outstanding.keys, l.Transmitted q
  completed : ∀ q, l.Completed q → l.Transmitted q
  lt_nextSeq : ∀ q, l.Transmitted q → q < l.nextSeq
  lt_waiting : ∀ q, l.Transmitted q → ∀ w ∈ l.waiting, q < w

theorem transmits_fresh (addr : Address) :
    Transmits ({ peer := addr } : Lane) where
  outstanding := by simp
  completed := by simp [Completed]
  lt_nextSeq := by simp [Transmitted]
  lt_waiting := by simp [Transmitted]

theorem Transmitted.mono {q : ℕ} (h : l.Transmitted q)
    (hwire : ∀ raw ∈ l.wire, raw ∈ l'.wire) : l'.Transmitted q := by
  obtain ⟨raw, hraw, hdata⟩ := h
  exact ⟨raw, hwire raw hraw, hdata⟩

theorem Labelled.transmitted_of_outstanding (hl : l.Labelled) {q : ℕ}
    {raw payload : Bytes} (hdata : IsData raw q payload)
    (hraw : ∃ q', l.outstanding.get? q' = some raw) : q ∈ l.outstanding.keys := by
  obtain ⟨q', hget⟩ := hraw
  obtain ⟨payload', -, hdata'⟩ := hl.outstanding q' raw hget
  rw [(hdata.unique hdata').1]
  exact Dict.mem_keys.mpr ⟨raw, hget⟩

/-- The log of the wire only grows. -/
theorem Step.wire (h : Step cfg D fails l e l') :
    ∀ raw ∈ l.wire, raw ∈ l'.wire := by
  intro raw hraw
  cases h with
  | send => exact List.mem_cons_of_mem _ hraw
  | resend => exact List.mem_append_right _ hraw
  | giveUp => exact List.mem_append_right _ hraw
  | reply => exact List.mem_cons_of_mem _ hraw
  | close =>
      unfold Lane.close
      split <;> exact hraw
  | _ => exact hraw

/-- Only the window pump transmits what was not transmitted before. -/
theorem Step.transmitted (hl : l.Labelled) (ht : l.Transmits)
    (h : Step cfg D fails l e l') {q : ℕ} (hq : l'.Transmitted q) :
    l.Transmitted q ∨ ∃ item packet, l.nextToSend cfg = some (q, item) ∧
      l' = ((l.popPending q).launch q item packet).transmit packet := by
  obtain ⟨raw, hraw, payload, hdata⟩ := hq
  have hresent : ∀ packets : List Bytes,
      (∀ raw ∈ packets, ∃ q, l.outstanding.get? q = some raw) →
        raw ∈ packets ++ l.wire → l.Transmitted q := by
    intro packets hpackets hmem
    rcases List.mem_append.mp hmem with hnew | hold
    · exact ht.outstanding q
        (hl.transmitted_of_outstanding hdata (hpackets raw hnew))
    · exact ⟨raw, hold, payload, hdata⟩
  cases h with
  | send hnext hpacket =>
      rcases List.mem_cons.mp hraw with rfl | hold
      · obtain ⟨rfl, -⟩ := hdata.unique (Core.isData_of_dataPacket hpacket)
        exact Or.inr ⟨_, raw, hnext, rfl⟩
      · exact Or.inl ⟨raw, hold, payload, hdata⟩
  | resend hpackets => exact Or.inl (hresent _ hpackets hraw)
  | giveUp hpackets => exact Or.inl (hresent _ hpackets hraw)
  | reply _ hpacket =>
      rcases List.mem_cons.mp hraw with rfl | hold
      · exact absurd (Core.isAck_of_ackPacket hpacket) hdata.not_isAck
      · exact Or.inl ⟨raw, hold, payload, hdata⟩
  | close =>
      unfold Lane.close at hraw
      split at hraw <;> exact Or.inl ⟨raw, hraw, payload, hdata⟩
  | _ => exact Or.inl ⟨raw, hraw, payload, hdata⟩

/-- What is outstanding afterwards was so before, or has just been sent. -/
theorem Step.outstanding (h : Step cfg D fails l e l') {q : ℕ}
    (hq : q ∈ l'.outstanding.keys) : q ∈ l.outstanding.keys ∨
      ∃ item packet, l.nextToSend cfg = some (q, item) ∧
        Core.dataPacket q item.data = .ok packet ∧
        l' = ((l.popPending q).launch q item packet).transmit packet := by
  cases h with
  | send hnext hpacket =>
      rcases Dict.mem_keys_set.mp hq with rfl | hold
      · exact Or.inr ⟨_, _, hnext, hpacket, rfl⟩
      · exact Or.inl hold
  | unsent =>
      obtain ⟨hlaunched, hne⟩ := Dict.mem_keys_erase.mp hq
      exact Or.inl ((Dict.mem_keys_set.mp hlaunched).resolve_left hne)
  | giveUp => cases hq
  | ack => exact Or.inl (Dict.mem_keys_of_eraseAll hq)
  | close =>
      unfold Lane.close at hq
      split at hq <;> exact Or.inl hq
  | _ => exact Or.inl hq

/-- What waits afterwards waited before, or has just been numbered. -/
theorem Step.waiting (hwf : l.WellFormed) (h : Step cfg D fails l e l') {w : ℕ}
    (hw : w ∈ l'.waiting) : w ∈ l.waiting ∨ w = l.nextSeq := by
  have hregister : ∀ {item : Item} {rest : List Item},
      l.queued = item :: rest → w ∈ (l.register item rest).waiting →
        w ∈ l.waiting := by
    intro item rest hqueue hmem
    obtain ⟨lo, n, hspan⟩ := hwf.span
    rwa [(hspan.register hqueue).waiting_eq, ← hspan.waiting_eq] at hmem
  cases h with
  | accept =>
      have hwaiting : ∀ data, (l.accept data).waiting = l.waiting ++ [l.nextSeq] := by
        intro data
        simp [Lane.waiting, Lane.accept]
      rw [hwaiting, List.mem_append, List.mem_singleton] at hw
      exact hw
  | register hqueue => exact Or.inl (hregister hqueue hw)
  | registerCrash hqueue => exact Or.inl (hregister hqueue hw)
  | send => exact Or.inl (mem_waiting_popPending hw)
  | unsent => exact Or.inl (mem_waiting_popPending hw)
  | unencodable => exact Or.inl (mem_waiting_popPending hw)
  | giveUp => exact Or.inl (List.mem_append_right _ hw)
  | close =>
      unfold Lane.close at hw
      split at hw
      · exact Or.inl hw
      · refine Or.inl (List.mem_append_left _ ?_)
        simpa [Lane.waiting] using hw
  | _ => exact Or.inl hw

/-- What is held afterwards was so before, or has just been numbered. -/
theorem Step.held (hwf : l.WellFormed) (h : Step cfg D fails l e l') {q : ℕ}
    (hq : l'.Held q) : l.Held q ∨ q = l.nextSeq := by
  rcases hq with hout | hwaiting
  · rcases h.outstanding hout with hold | ⟨item, packet, hnext, -, -⟩
    · exact Or.inl (Or.inl hold)
    · exact Or.inl (Or.inr (mem_waiting_of_nextToSend hnext))
  · exact (h.waiting hwf hwaiting).imp_left Or.inr

theorem Step.nextSeq_le (h : Step cfg D fails l e l') :
    l.nextSeq ≤ l'.nextSeq := by
  cases h with
  | accept => exact Nat.le_succ _
  | close =>
      unfold Lane.close
      split <;> exact le_rfl
  | _ => exact le_rfl

/-- Every event keeps what has been transmitted below what waits. -/
theorem Transmits.step (h : l.Transmits) (hwf : l.WellFormed)
    (hstep : Step cfg D fails l e l') : l'.Transmits where
  outstanding q hq := by
    rcases hstep.outstanding hq with hold | ⟨item, packet, -, hpacket, rfl⟩
    · exact (h.outstanding q hold).mono hstep.wire
    · exact ⟨packet, List.mem_cons_self, item.data,
        Core.isData_of_dataPacket hpacket⟩
  completed q hq := by
    rcases hstep.completed hq with hold | ⟨-, -, -, -, hout, -⟩
    · exact (h.completed q hold).mono hstep.wire
    · exact (h.outstanding q hout).mono hstep.wire
  lt_nextSeq q hq := by
    refine lt_of_lt_of_le ?_ hstep.nextSeq_le
    rcases hstep.transmitted hwf.labelled h hq with hold | ⟨item, -, hnext, -⟩
    · exact h.lt_nextSeq q hold
    · exact lt_nextSeq_of_held hwf (Or.inr (mem_waiting_of_nextToSend hnext))
  lt_waiting q hq w hw := by
    rcases hstep.transmitted hwf.labelled h hq with
      hold | ⟨item, packet, hnext, rfl⟩
    · rcases hstep.waiting hwf hw with hwaits | rfl
      · exact h.lt_waiting q hold w hwaits
      · exact h.lt_nextSeq q hold
    · obtain ⟨lo, n, hspan⟩ := hwf.span
      have hw' : w ∈ (l.popPending q).waiting := hw
      rw [(hspan.popPending hnext).waiting_eq, List.mem_range'_1] at hw'
      exact hw'.1

end Lane

/-- In every reachable state of an endpoint. -/
theorem Endpoint.transmits_run {cfg : Config} {E : Endpoint cfg}
    (es : List Event) (addr : Address) :
    (E.lane (run E.step E.init es) addr).Transmits := by
  have hinv := run_invariant
    (fun s => E.WellFormed s ∧ ∀ addr, (E.lane s addr).Transmits)
    (fun s e h => ⟨h.1.step e, fun b => (h.2 b).step (h.1 b) (h.1.lane_step e b)⟩)
    (s := E.init) ⟨Endpoint.WellFormed.init, fun b => by
      rw [Endpoint.lane, E.lane_init]
      exact Lane.transmits_fresh b⟩ es
  exact hinv.2 addr

end UdpArq
