import UdpArq.Transport.WellFormed

/-!
# What one event can change

Frame conditions of the protocol steps: who can complete a datagram, who can
mark one failed, and who can touch the receiving half of a lane.
-/

namespace UdpArq

namespace Lane

variable {cfg : Config} {D : Discipline} {fails : SweepInput → Prop}
  {l l' : Lane} {e : Event}

theorem Step.handed (h : Step cfg D fails l e l') : l.handed <+: l'.handed := by
  cases h with
  | accept => exact List.prefix_append _ _
  | close =>
      unfold Lane.close
      split <;> exact List.prefix_rfl
  | _ => exact List.prefix_rfl

theorem getD_base_register (l : Lane) (item : Item) (rest : List Item) :
    l.base.getD 0 ≤ (l.register item rest).base.getD 0 := by
  rcases hbase : l.base with _ | base
  · exact Nat.zero_le _
  · simp [Lane.register, hbase]

/-- The base never moves back. -/
theorem Step.base_le (h : Step cfg D fails l e l') :
    l.base.getD 0 ≤ l'.base.getD 0 := by
  cases h with
  | @register item rest => exact getD_base_register l item rest
  | @registerCrash item rest => exact getD_base_register l item rest
  | ack _ hslide =>
      obtain ⟨old, hold, hle, -⟩ := (D.slide_sound hslide).old
      rw [hold]
      exact hle
  | close =>
      unfold Lane.close
      split <;> exact le_rfl
  | _ => exact le_rfl

theorem error_markError (e : Err) (st : Status) :
    (Core.markError e st).error = some e := rfl

/-- Only an acknowledgement from the peer completes a datagram, and only an
outstanding one that it covers. -/
theorem Step.completed (h : Step cfg D fails l e l') {q : ℕ}
    (hq : l'.Completed q) :
    l.Completed q ∨ ∃ raw input n, e = .incoming raw l.peer input ∧
      q ∈ l.outstanding.keys ∧ IsAck raw n ∧ D.covers n q := by
  cases h with
  | @unsent _ seq item packet what =>
      left
      obtain ⟨hevent, herror⟩ := hq
      by_cases hseq : q = seq
      · simp [discard, hseq, error_markError] at herror
      · simp only [discard, if_neg hseq] at hevent herror
        exact ⟨hevent, herror⟩
  | @giveUp _ packets e =>
      left
      obtain ⟨hevent, herror⟩ := hq
      simp only [Lane.failPeer] at hevent herror
      split_ifs at hevent herror
      · simp [error_markError] at herror
      · exact ⟨hevent, herror⟩
  | @ack raw input n base seqs hraw hslide =>
      obtain ⟨hevent, herror⟩ := hq
      by_cases hmem : q ∈ seqs
      · obtain ⟨hout, hcovers⟩ := (D.slide_sound hslide).covered q hmem
        exact Or.inr ⟨raw, input, n, rfl, hout, hraw, hcovers⟩
      · left
        simp only [slideTo, Lane.complete, hmem, false_and, if_false] at hevent
        simp only [slideTo, Lane.complete, hmem, false_and, if_false] at herror
        exact ⟨hevent, herror⟩
  | close =>
      left
      unfold Lane.close at hq
      split_ifs at hq
      · exact hq
      · obtain ⟨hevent, herror⟩ := hq
        simp only at hevent herror
        split_ifs at hevent herror
        · simp [error_markError] at herror
        · exact ⟨hevent, herror⟩
  | _ => exact Or.inl hq

/-- An event that has been set stays set. -/
theorem Step.event (h : Step cfg D fails l e l') {q : ℕ}
    (hq : (l.status q).event = true) : (l'.status q).event = true := by
  have hmark : ∀ {p : Prop} [Decidable p] (err : Err),
      (if p then Core.markError err (l.status q) else l.status q).event =
        true := by
    intro p _ err
    split_ifs
    · rfl
    · exact hq
  cases h with
  | unsent => exact hmark _
  | giveUp => exact hmark _
  | ack =>
      simp only [slideTo, Lane.complete]
      split_ifs
      · rfl
      · exact hq
  | close =>
      unfold Lane.close
      split
      · exact hq
      · exact hmark _
  | _ => exact hq

/-- The events that mark datagrams of a peer failed: a send that raises, giving
the peer up, and closing. -/
def Marks (cfg : Config) (fails : SweepInput → Prop) (l : Lane) : Event → Prop
  | .pump addr input =>
      addr = l.peer ∧ l.nextToSend cfg ≠ none ∧ input.sendResult ≠ none
  | .timeouts input => fails input
  | .close => True
  | _ => False

theorem Step.error (h : Step cfg D fails l e l') {q : ℕ}
    (hq : (l'.status q).error ≠ none) :
    (l.status q).error ≠ none ∨ Marks cfg fails l e := by
  cases h with
  | unsent hnext _ hsend =>
      exact Or.inr ⟨rfl, by simp [hnext], by simp [hsend]⟩
  | giveUp _ hfails => exact Or.inr hfails
  | @ack raw input n base seqs hraw hslide =>
      left
      simp only [slideTo, Lane.complete] at hq
      split_ifs at hq <;> exact hq
  | close => exact Or.inr trivial
  | _ => exact Or.inl hq

/-- What an event leaves of the receiving half: nothing changes and what is
sent is no acknowledgement, or a datagram of the peer is taken in. -/
theorem Step.receiving (hl : l.Labelled) (h : Step cfg D fails l e l') :
    (l'.expected = l.expected ∧ l'.buffer = l.buffer ∧
        l'.delivered = l.delivered ∧
        ∀ raw ∈ l'.wire, raw ∈ l.wire ∨ ∃ q, l.Carries raw q) ∨
      ∃ raw input seq payload, e = .incoming raw l.peer input ∧
        IsData raw seq payload := by
  cases h with
  | send hnext hpacket =>
      left
      refine ⟨rfl, rfl, rfl, fun raw hmem => ?_⟩
      rcases List.mem_cons.mp hmem with rfl | hold
      · exact Or.inr ⟨_, hl.carries hnext hpacket⟩
      · exact Or.inl hold
  | resend hpackets =>
      left
      refine ⟨rfl, rfl, rfl, fun raw hmem => ?_⟩
      rcases List.mem_append.mp hmem with hnew | hold
      · obtain ⟨q, hq⟩ := hpackets raw hnew
        exact Or.inr ⟨q, hl.outstanding q raw hq⟩
      · exact Or.inl hold
  | giveUp hpackets =>
      left
      refine ⟨rfl, rfl, rfl, fun raw hmem => ?_⟩
      rcases List.mem_append.mp hmem with hnew | hold
      · obtain ⟨q, hq⟩ := hpackets raw hnew
        exact Or.inr ⟨q, hl.outstanding q raw hq⟩
      · exact Or.inl hold
  | reply hraw => exact Or.inr ⟨_, _, _, _, rfl, hraw⟩
  | mute hraw => exact Or.inr ⟨_, _, _, _, rfl, hraw⟩
  | muteCrash hraw => exact Or.inr ⟨_, _, _, _, rfl, hraw⟩
  | close =>
      left
      unfold Lane.close
      split <;> exact ⟨rfl, rfl, rfl, fun raw hmem => Or.inl hmem⟩
  | _ => exact Or.inl ⟨rfl, rfl, rfl, fun raw hmem => Or.inl hmem⟩

/-! ## Reassembly along a growing history -/

theorem Reassembles.mono {window : ℕ} {handed handed' : List Bytes}
    (h : l.Reassembles window handed) (hgrow : handed <+: handed') :
    l.Reassembles window handed' := by
  obtain ⟨later, rfl⟩ := hgrow
  refine ⟨?_, ?_, ?_⟩
  · rw [h.delivered, List.take_append_of_le_length h.expected_le]
  · rw [List.length_append]
    exact h.expected_le.trans (Nat.le_add_right _ _)
  · intro q payload hq
    obtain ⟨hlo, hhi, hp⟩ := h.buffered q payload hq
    obtain ⟨hlt, -⟩ := List.getElem?_eq_some_iff.mp hp
    refine ⟨hlo, hhi, ?_⟩
    rwa [List.getElem?_append_left hlt]

theorem Reassembles.congr {window : ℕ} {handed : List Bytes}
    (h : l.Reassembles window handed) (hexpected : l'.expected = l.expected)
    (hbuffer : l'.buffer = l.buffer) (hdelivered : l'.delivered = l.delivered) :
    l'.Reassembles window handed := by
  refine ⟨?_, ?_, ?_⟩
  · rw [hdelivered, hexpected]
    exact h.delivered
  · rw [hexpected]
    exact h.expected_le
  · rw [hbuffer, hexpected]
    exact h.buffered

/-! ## The receiving half -/

/-- The receiving half holds what the peer handed over, and every
acknowledgement it sent covers only datagrams that it has. -/
structure Acknowledges (D : Discipline) (handed : List Bytes) (l : Lane) :
    Prop where
  reassembles : l.Reassembles D.window handed
  acks : ∀ raw ∈ l.wire, ∀ k, IsAck raw k → ∀ q, D.covers k q → l.Has q

theorem Acknowledges.mono {handed handed' : List Bytes}
    (h : l.Acknowledges D handed) (hgrow : handed <+: handed') :
    l.Acknowledges D handed' :=
  ⟨h.reassembles.mono hgrow, h.acks⟩

/-- No payload that the datagram makes deliverable is lost with its
acknowledgement: the acknowledgement can be encoded and its send returns. -/
def Delivers (D : Discipline) (l : Lane) (seq : ℕ) (payload : Bytes)
    (sendResult : Option String) : Prop :=
  (D.receive l seq payload).payloads ≠ [] →
    sendResult = none ∧ (D.receive l seq payload).ackFor ≤ 0xFFFFFFFF

/-- The receiving half stays correct and keeps what it has, provided that the
datagrams it takes in are the peer's and that no payload is lost with its
acknowledgement. -/
theorem Acknowledges.step {handed : List Bytes} (h : l.Acknowledges D handed)
    (hl : l.Labelled) (hstep : Step cfg D fails l e l')
    (hdata : ∀ raw input seq payload, e = .incoming raw l.peer input →
      IsData raw seq payload → handed[seq]? = some payload ∧
        l.Delivers D seq payload input.sendResult) :
    l'.Acknowledges D handed ∧ ∀ q, l.Has q → l'.Has q := by
  rcases hstep.receiving hl with
    ⟨hexpected, hbuffer, hdelivered, hwire⟩ |
    ⟨raw, input, seq, payload, rfl, hraw⟩
  · have hhas : ∀ q, l.Has q → l'.Has q := by
      intro q hq
      rwa [Has, hexpected, hbuffer]
    refine ⟨⟨h.reassembles.congr hexpected hbuffer hdelivered, ?_⟩, hhas⟩
    intro raw hmem k hraw q hcovers
    rcases hwire raw hmem with hold | ⟨q', payload, -, hdata'⟩
    · exact hhas q (h.acks raw hold k hraw q hcovers)
    · exact absurd hraw hdata'.not_isAck
  · obtain ⟨hseq, hdelivers⟩ := hdata raw input seq payload rfl hraw
    obtain ⟨hreassembles, hkeeps, -, hcovered⟩ :=
      D.receive_sound h.reassembles hseq
    -- Without an acknowledgement there is nothing to deliver.
    have hlost : (D.receive l seq payload).payloads = [] →
        (l.advance (D.receive l seq payload)).Acknowledges D handed := by
      intro hnil
      refine ⟨hreassembles.congr rfl rfl ?_, fun raw' hmem k hk q hcovers =>
        hkeeps q (h.acks raw' hmem k hk q hcovers)⟩
      simp [deliver, hnil]
    cases hstep with
    | idle => exact ⟨h, fun _ hq => hq⟩
    | crash =>
        exact ⟨⟨h.reassembles.congr rfl rfl rfl, h.acks⟩, fun _ hq => hq⟩
    | ack hack => exact absurd hack hraw.not_isAck
    | reply hraw' hpacket =>
        obtain ⟨rfl, rfl⟩ := hraw.unique hraw'
        refine ⟨⟨hreassembles.congr rfl rfl rfl, ?_⟩, hkeeps⟩
        intro raw' hmem k hk q hcovers
        rcases List.mem_cons.mp hmem with rfl | hold
        · rw [hk.unique (Core.isAck_of_ackPacket hpacket)] at hcovers
          exact hcovered q hcovers
        · exact hkeeps q (h.acks raw' hold k hk q hcovers)
    | mute hraw' hraise =>
        obtain ⟨rfl, rfl⟩ := hraw.unique hraw'
        have hnil : (D.receive l seq payload).payloads = [] := by
          by_contra hne
          simp [(hdelivers hne).1] at hraise
        exact ⟨hlost hnil, hkeeps⟩
    | muteCrash hraw' hpacket =>
        obtain ⟨rfl, rfl⟩ := hraw.unique hraw'
        have hnil : (D.receive l seq payload).payloads = [] := by
          by_contra hne
          obtain ⟨packet, hok⟩ :=
            Core.ackPacket_isOk_iff.mpr (hdelivers hne).2
          simp [hok] at hpacket
        obtain ⟨hreassembles', hacks'⟩ := hlost hnil
        exact ⟨⟨hreassembles'.congr rfl rfl rfl, hacks'⟩, hkeeps⟩

end Lane

end UdpArq
