import UdpArq.Transport.Effects
import UdpArq.Transport.Retention

/-!
# Where a datagram is

A datagram that is neither acknowledged nor failed waits in `_outbound`, waits
in `_pending` or is outstanding, and it is in one of them only.  The one step
that can make a datagram disappear is the window pump on a datagram that does
not fit a packet.
-/

namespace UdpArq

namespace Lane

variable {cfg : Config} {D : Discipline} {fails : SweepInput → Prop}
  {l l' : Lane} {e : Event}

/-- Everything handed over fits a packet. -/
def Encodable (l : Lane) : Prop :=
  ∀ q payload, l.handed[q]? = some payload →
    ∃ packet, Core.dataPacket q payload = .ok packet

/-- Everything assigned is settled or held. -/
def Tracked (l : Lane) : Prop :=
  ∀ q < l.nextSeq, (l.status q).event = true ∨ l.Held q

theorem Tracked.mono (h : l.Tracked) (hnext : l'.nextSeq = l.nextSeq)
    (hkept : ∀ q, (l.status q).event = true ∨ l.Held q →
      (l'.status q).event = true ∨ l'.Held q) : l'.Tracked := by
  intro q hq
  rw [hnext] at hq
  exact hkept q (h q hq)

theorem Tracked.accept (h : l.Tracked) (data : Bytes) :
    (l.accept data).Tracked := by
  have hwaiting : (l.accept data).waiting = l.waiting ++ [l.nextSeq] := by
    simp [waiting, Lane.accept]
  intro q hq
  rcases Nat.lt_succ_iff_lt_or_eq.mp hq with hlt | rfl
  · rcases h q hlt with hset | hout | hin
    · exact Or.inl hset
    · exact Or.inr (Or.inl hout)
    · refine Or.inr (Or.inr ?_)
      rw [hwaiting]
      exact List.mem_append_left _ hin
  · refine Or.inr (Or.inr ?_)
    rw [hwaiting]
    exact List.mem_append_right _ (List.mem_singleton_self _)

/-- An item that moves from the queue to `_pending` stays held. -/
theorem Held.register {q : ℕ} (h : l.Held q) (hspan : ∃ lo n, l.Span lo n)
    {item : Item} {rest : List Item} (hqueue : l.queued = item :: rest) :
    (l.register item rest).Held q := by
  obtain ⟨lo, n, hspan⟩ := hspan
  have hwaiting : (l.register item rest).waiting = l.waiting :=
    (hspan.register hqueue).waiting_eq.trans hspan.waiting_eq.symm
  rw [Held, hwaiting]
  exact h

/-- A packet that enters the window stays held. -/
theorem Held.send {q : ℕ} (h : l.Held q) (seq : ℕ) (item : Item)
    (packet : Bytes) :
    (((l.popPending seq).launch seq item packet).transmit packet).Held q := by
  by_cases hq : q = seq
  · exact Or.inl (Dict.mem_keys_set.mpr (Or.inl hq))
  · rcases h with hout | hwaiting
    · exact Or.inl (Dict.mem_keys_set.mpr (Or.inr hout))
    · exact Or.inr (mem_waiting_of_ne hwaiting hq)

/-- A packet whose send raises is settled, and the others stay where they
are. -/
theorem Tracked.unsent (h : l.Tracked) (seq : ℕ) (item : Item)
    (packet : Bytes) (e : Err) :
    (((l.popPending seq).launch seq item packet).discard seq e).Tracked := by
  refine h.mono rfl fun q hq => ?_
  by_cases hseq : q = seq
  · left
    simp [discard, hseq, Core.markError]
  · rcases hq with hset | hout | hwaiting
    · left
      simpa [discard, launch, Lane.popPending, hseq] using hset
    · refine Or.inr (Or.inl (Dict.mem_keys_erase.mpr ⟨?_, hseq⟩))
      exact Dict.mem_keys_set.mpr (Or.inr hout)
    · exact Or.inr (Or.inr (mem_waiting_of_ne hwaiting hseq))

theorem Tracked.failPeer (h : l.Tracked)
    (hkeys : ∀ q, q ∈ l.sentItems.keys ↔ q ∈ l.outstanding.keys) (e : Err) :
    (l.failPeer e).Tracked := by
  refine h.mono rfl fun q hq => ?_
  by_cases hfailed : q ∈ l.sentItems.keys ∨ q ∈ l.pending.keys
  · left
    simp [Lane.failPeer, hfailed, Core.markError]
  · rw [not_or] at hfailed
    rcases hq with hset | hout | hwaiting
    · left
      simpa [Lane.failPeer, hfailed] using hset
    · exact absurd ((hkeys q).mpr hout) hfailed.1
    · rcases List.mem_append.mp hwaiting with hpending | hqueued
      · exact absurd hpending hfailed.2
      · exact Or.inr (Or.inr (List.mem_append_right _ hqueued))

theorem Tracked.ack (h : l.Tracked)
    (hkeys : ∀ q, q ∈ l.sentItems.keys ↔ q ∈ l.outstanding.keys)
    (seqs : List ℕ) (base : ℕ) :
    ((l.complete seqs).slideTo base).Tracked := by
  refine h.mono rfl fun q hq => ?_
  have hset : (l.status q).event = true →
      (((l.complete seqs).slideTo base).status q).event = true := by
    intro hset
    simp only [slideTo, Lane.complete]
    split_ifs
    · rfl
    · exact hset
  rcases hq with hevent | hout | hwaiting
  · exact Or.inl (hset hevent)
  · by_cases hmem : q ∈ seqs
    · left
      simp [slideTo, Lane.complete, hmem, (hkeys q).mpr hout]
    · refine Or.inr (Or.inl ?_)
      obtain ⟨x, hx⟩ := Dict.mem_keys.mp hout
      exact Dict.mem_keys.mpr
        ⟨x, by simpa [slideTo, Lane.complete, hmem] using hx⟩
  · exact Or.inr (Or.inr hwaiting)

theorem Tracked.close (h : l.Tracked) : l.close.Tracked := by
  by_cases hstopped : l.stopped
  · rwa [Lane.close, if_pos hstopped]
  rw [Lane.close, if_neg hstopped]
  refine h.mono rfl fun q hq => ?_
  by_cases hqueued : ∃ item ∈ l.queued, item.seq = q
  · left
    simp [hqueued, Core.markError]
  · rcases hq with hset | hout | hwaiting
    · left
      simp only
      split_ifs
      · rfl
      · exact hset
    · exact Or.inr (Or.inl hout)
    · rcases List.mem_append.mp hwaiting with hpending | hlate
      · exact Or.inr (Or.inr (List.mem_append_left _ hpending))
      · obtain ⟨item, hmem, hseq⟩ := List.mem_map.mp hlate
        exact absurd ⟨item, hmem, hseq⟩ hqueued

/-- An event makes no datagram disappear, unless it pumps one that does not fit
a packet. -/
theorem Tracked.step (h : l.Tracked) (hwf : l.WellFormed)
    (hstep : Step cfg D fails l e l')
    (hfit : ∀ input seq item, e = .pump l.peer input →
      l.nextToSend cfg = some (seq, item) →
        ∃ packet, Core.dataPacket seq item.data = .ok packet) :
    l'.Tracked := by
  have hkeys := hwf.labelled.keys
  cases hstep with
  | accept => exact h.accept _
  | register hqueue =>
      exact h.mono rfl fun q hq =>
        hq.imp_right fun hheld => hheld.register hwf.span hqueue
  | registerCrash hqueue =>
      exact h.mono rfl fun q hq =>
        hq.imp_right fun hheld => hheld.register hwf.span hqueue
  | send =>
      exact h.mono rfl fun q hq => hq.imp_right fun hheld => hheld.send _ _ _
  | unsent => exact h.unsent _ _ _ _
  | unencodable hnext hpacket =>
      obtain ⟨packet, hok⟩ := hfit _ _ _ rfl hnext
      rw [hok] at hpacket
      cases hpacket
  | @giveUp _ packets =>
      have hresent : (l.resend packets).Tracked := h
      exact hresent.failPeer hkeys _
  | ack => exact h.ack hkeys _ _
  | close => exact h.close
  | _ => exact h

/-- The datagram that the pump takes next fits a packet if everything does. -/
theorem Encodable.next (h : l.Encodable) (hwf : l.WellFormed) {seq : ℕ}
    {item : Item} (hnext : l.nextToSend cfg = some (seq, item)) :
    ∃ packet, Core.dataPacket seq item.data = .ok packet := by
  obtain ⟨-, -, hdata⟩ := hwf.labelled.pending _ _ (pending_of_nextToSend hnext)
  exact h _ _ hdata

/-- What a step hands over fits a packet if the payload of its `sendto` does. -/
theorem Encodable.step (h : l.Encodable) (hwf : l.WellFormed)
    (hstep : Step cfg D fails l e l')
    (hfits : ∀ data, e = .sendto data l.peer → l.stopped = false →
      data.length ≤ cfg.mss →
        data.length ≤ MAX_PAYLOAD ∧ l.nextSeq ≤ 0xFFFFFFFF) :
    l'.Encodable := by
  cases hstep with
  | @accept data hlen hopen =>
      intro q payload hget
      rcases Nat.lt_or_ge q l.handed.length with hlt | hge
      · rw [Lane.accept, List.getElem?_append_left hlt] at hget
        exact h q payload hget
      · rw [Lane.accept, List.getElem?_append_right hge,
          List.getElem?_singleton] at hget
        split_ifs at hget with hlast
        rw [Option.some.injEq] at hget
        obtain ⟨hfit, hseq⟩ := hfits data rfl hopen hlen
        rw [hwf.nextSeq_eq] at hseq
        rw [Core.dataPacket_isOk_iff, ← hget]
        exact ⟨by omega, hfit⟩
  | close =>
      unfold Lane.close
      split <;> exact h
  | _ => exact h

/-- A waiting datagram is in the queue or in `_pending`, and no outstanding one
waits. -/
theorem WellFormed.disjoint (hwf : l.WellFormed) :
    l.waiting.Nodup ∧ ∀ q ∈ l.outstanding.keys, q ∉ l.waiting := by
  obtain ⟨lo, n, hspan⟩ := hwf.span
  refine ⟨?_, fun q hout hwaiting => ?_⟩
  · rw [hspan.waiting_eq]
    exact List.nodup_range'
  · have hlt := hspan.outstanding_lt q hout
    rw [hspan.waiting_eq, List.mem_range'_1] at hwaiting
    omega

/-- What is settled has been assigned and is no longer held. -/
def Settles (l : Lane) : Prop :=
  ∀ q, (l.status q).event = true → q < l.nextSeq ∧ ¬ l.Held q

theorem Settles.shrink (h : l.Settles) (hnext : l.nextSeq ≤ l'.nextSeq)
    (hheld : ∀ q < l.nextSeq, l'.Held q → l.Held q)
    (hset : ∀ q, (l'.status q).event = true →
      (l.status q).event = true ∨ q < l.nextSeq ∧ ¬ l'.Held q) :
    l'.Settles := by
  intro q hq
  rcases hset q hq with hold | ⟨hlt, hnot⟩
  · obtain ⟨hlt, hnot⟩ := h q hold
    exact ⟨hlt.trans_le hnext, fun hin => hnot (hheld q hlt hin)⟩
  · exact ⟨hlt.trans_le hnext, hnot⟩

theorem lt_nextSeq_of_held (hwf : l.WellFormed) {q : ℕ} (hq : l.Held q) :
    q < l.nextSeq := by
  obtain ⟨lo, n, hspan⟩ := hwf.span
  have hle := hspan.le_nextSeq
  rcases hq with hout | hwaiting
  · have hlt := hspan.outstanding_lt q hout
    omega
  · rw [hspan.waiting_eq, List.mem_range'_1] at hwaiting
    omega

theorem WellFormed.not_queued (hwf : l.WellFormed) {q : ℕ}
    (hq : q ∈ l.pending.keys) : q ∉ l.queued.map Item.seq := by
  intro hqueued
  exact (List.nodup_append.mp hwf.disjoint.1).2.2 q hq q hqueued rfl

/-- What the pump takes out of `_pending` waits nowhere else. -/
theorem WellFormed.not_waiting_popPending (hwf : l.WellFormed) {seq : ℕ}
    (hpending : seq ∈ l.pending.keys) : seq ∉ (l.popPending seq).waiting := by
  intro hwaiting
  rcases List.mem_append.mp hwaiting with hpopped | hqueued
  · exact (Dict.mem_keys_erase.mp hpopped).2 rfl
  · exact hwf.not_queued hpending hqueued

theorem Settles.accept (h : l.Settles) (data : Bytes) :
    (l.accept data).Settles := by
  have hwaiting : (l.accept data).waiting = l.waiting ++ [l.nextSeq] := by
    simp [waiting, Lane.accept]
  refine h.shrink (Nat.le_succ _) (fun q hq hheld => ?_) fun q hq => Or.inl hq
  rcases hheld with hout | hin
  · exact Or.inl hout
  · rw [hwaiting, List.mem_append, List.mem_singleton] at hin
    exact Or.inr (hin.resolve_right hq.ne)

theorem Settles.register (h : l.Settles) (hwf : l.WellFormed) {item : Item}
    {rest : List Item} (hqueue : l.queued = item :: rest) :
    (l.register item rest).Settles := by
  obtain ⟨lo, n, hspan⟩ := hwf.span
  have hwaiting : (l.register item rest).waiting = l.waiting :=
    (hspan.register hqueue).waiting_eq.trans hspan.waiting_eq.symm
  refine h.shrink le_rfl (fun q _ hheld => ?_) fun q hq => Or.inl hq
  rwa [Held, hwaiting] at hheld

theorem held_of_send {seq q : ℕ} {item : Item}
    (hnext : l.nextToSend cfg = some (seq, item)) (packet : Bytes)
    (hq : (((l.popPending seq).launch seq item packet).transmit packet).Held q) :
    l.Held q := by
  rcases hq with hout | hwaiting
  · rcases Dict.mem_keys_set.mp hout with rfl | hold
    · exact Or.inr (mem_waiting_of_nextToSend hnext)
    · exact Or.inl hold
  · exact Or.inr (mem_waiting_popPending hwaiting)

theorem Settles.unsent (h : l.Settles) (hwf : l.WellFormed) {seq : ℕ}
    {item : Item} (hnext : l.nextToSend cfg = some (seq, item))
    (packet : Bytes) (e : Err) :
    (((l.popPending seq).launch seq item packet).discard seq e).Settles := by
  refine h.shrink le_rfl (fun q _ hheld => ?_) fun q hq => ?_
  · rcases hheld with hout | hwaiting
    · exact held_of_send hnext packet
        (Or.inl (Dict.mem_keys_erase.mp hout).1)
    · exact Or.inr (mem_waiting_popPending hwaiting)
  · by_cases hseq : q = seq
    · subst hseq
      have hpending : q ∈ l.pending.keys :=
        Dict.mem_keys.mpr ⟨item, pending_of_nextToSend hnext⟩
      refine Or.inr ⟨lt_nextSeq_of_held hwf
        (Or.inr (mem_waiting_of_nextToSend hnext)), ?_⟩
      rintro (hout | hwaiting)
      · exact (Dict.mem_keys_erase.mp hout).2 rfl
      · exact hwf.not_waiting_popPending hpending hwaiting
    · left
      simpa [discard, launch, Lane.popPending, hseq] using hq

theorem Settles.failPeer (h : l.Settles) (hwf : l.WellFormed) (e : Err) :
    (l.failPeer e).Settles := by
  have hin : ∀ q, (l.failPeer e).Held q → q ∈ l.queued.map Item.seq := by
    rintro q (hout | hwaiting)
    · cases hout
    · exact hwaiting
  refine h.shrink le_rfl (fun q _ hheld => ?_) fun q hq => ?_
  · exact Or.inr (List.mem_append_right _ (hin q hheld))
  · by_cases hfailed : q ∈ l.sentItems.keys ∨ q ∈ l.pending.keys
    · right
      rcases hfailed with hsent | hpending
      · have hout := (hwf.labelled.keys q).mp hsent
        refine ⟨lt_nextSeq_of_held hwf (Or.inl hout), fun hheld => ?_⟩
        exact hwf.disjoint.2 q hout (List.mem_append_right _ (hin q hheld))
      · refine ⟨lt_nextSeq_of_held hwf
          (Or.inr (List.mem_append_left _ hpending)), fun hheld => ?_⟩
        exact hwf.not_queued hpending (hin q hheld)
    · left
      simpa [Lane.failPeer, hfailed] using hq

theorem Settles.ack (h : l.Settles) (hwf : l.WellFormed) (seqs : List ℕ)
    (base : ℕ) : ((l.complete seqs).slideTo base).Settles := by
  refine h.shrink le_rfl (fun q _ hheld => ?_) fun q hq => ?_
  · exact hheld.imp_left Dict.mem_keys_of_eraseAll
  · by_cases hmem : q ∈ seqs ∧ q ∈ l.sentItems.keys
    · right
      have hout := (hwf.labelled.keys q).mp hmem.2
      refine ⟨lt_nextSeq_of_held hwf (Or.inl hout), ?_⟩
      rintro (hleft | hwaiting)
      · obtain ⟨x, hx⟩ := Dict.mem_keys.mp hleft
        simp [slideTo, Lane.complete, hmem.1] at hx
      · exact hwf.disjoint.2 q hout hwaiting
    · left
      simpa [slideTo, Lane.complete, hmem] using hq

/-- Until `close`, an event settles only what it drops. -/
theorem Settles.step (h : l.Settles) (hwf : l.WellFormed)
    (hstep : Step cfg D fails l e l') (hclose : e ≠ .close) : l'.Settles := by
  cases hstep with
  | accept => exact h.accept _
  | register hqueue => exact h.register hwf hqueue
  | registerCrash hqueue => exact h.register hwf hqueue
  | send hnext =>
      exact h.shrink le_rfl (fun q _ hheld => held_of_send hnext _ hheld)
        fun q hq => Or.inl hq
  | unsent hnext => exact h.unsent hwf hnext _ _
  | unencodable =>
      refine h.shrink le_rfl (fun q _ hheld => ?_) fun q hq => Or.inl hq
      exact hheld.imp_right mem_waiting_popPending
  | @giveUp _ _ e =>
      have hfailed : (l.failPeer e).Settles := h.failPeer hwf e
      exact hfailed
  | ack => exact h.ack hwf _ _
  | close => exact absurd rfl hclose
  | _ => exact h

/-- The thread is dead, and datagram `q` is neither settled nor held. -/
structure Lost (l : Lane) (q : ℕ) : Prop where
  dead : l.crashed = true
  assigned : q < l.nextSeq
  unsettled : (l.status q).event = false
  gone : ¬ l.Held q

theorem Lost.not_tracked {q : ℕ} (h : l.Lost q) : ¬ l.Tracked := by
  intro htracked
  rcases htracked q h.assigned with hset | hheld
  · rw [h.unsettled] at hset
    cases hset
  · exact h.gone hheld

/-- Further calls of `sendto` do not find a lost datagram again. -/
theorem Lost.sendto {q : ℕ} (h : l.Lost q) {data : Bytes} {addr : Address}
    (hstep : Step cfg D fails l (.sendto data addr) l') : l'.Lost q := by
  cases hstep with
  | idle => exact h
  | crash => exact ⟨rfl, h.assigned, h.unsettled, h.gone⟩
  | accept =>
      have hwaiting : (l.accept data).waiting = l.waiting ++ [l.nextSeq] := by
        simp [waiting, Lane.accept]
      refine ⟨h.dead, Nat.lt_succ_of_lt h.assigned, h.unsettled, ?_⟩
      rintro (hout | hin)
      · exact h.gone (Or.inl hout)
      · rw [hwaiting, List.mem_append, List.mem_singleton] at hin
        exact h.gone (Or.inr (hin.resolve_right h.assigned.ne))

theorem Lost.recvfrom {q : ℕ} (h : l.Lost q)
    (hstep : Step cfg D fails l .recvfrom l') : l'.Lost q := by
  cases hstep with
  | idle => exact h
  | crash => exact ⟨rfl, h.assigned, h.unsettled, h.gone⟩

end Lane

end UdpArq
