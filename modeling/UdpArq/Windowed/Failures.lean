import UdpArq.Windowed.Flush

/-!
# Failures that reach `flush`

`flush` learns of a failure from the error stored for the peer or from a failed
item that is still in `_pending` or `_sent_items`.  Only giving a peer up stores
the error.  A send that raises in the window pump removes the failed item and
stores nothing, and so does closing with items that are still in `_outbound`.
-/

namespace UdpArq

open UdpArq.Core

namespace Lane

variable {cfg : Config} {D : Discipline} {fails : SweepInput → Prop}
  {l l' : Lane} {e : Event}

/-- Datagram `q` is among the items that a flush of the peer looks at. -/
def Visible (l : Lane) (q : ℕ) : Prop :=
  q ∈ l.pending.keys ∨ q ∈ l.sentItems.keys

/-- A flush of the peer raises. -/
def Alarm (l : Lane) : Prop :=
  l.error ≠ none ∨ ∃ q, l.Visible q ∧ (l.status q).error ≠ none

/-- The event takes a failed item, or one that it fails itself, away from
`flush`, and neither a stored error nor another failed item tells of it. -/
def Silences (cfg : Config) (D : Discipline) (l : Lane) (e : Event) : Prop :=
  l.error = none ∧
    match e with
    | .pump addr input => addr = l.peer ∧ ∃ seq item,
        l.nextToSend cfg = some (seq, item) ∧
        (match dataPacket seq item.data with
          | .ok _ => input.sendResult ≠ none
          | .error _ => (l.status seq).error ≠ none) ∧
        ∀ q, l.Visible q → q ≠ seq → (l.status q).error = none
    | .incoming raw addr _ => addr = l.peer ∧ ∃ n seqs base,
        IsAck raw n ∧ D.slide l n = some (seqs, base) ∧
        (∃ q ∈ seqs, (l.status q).error ≠ none) ∧
        ∀ q, l.Visible q → q ∉ seqs → (l.status q).error = none
    | .close => l.stopped = false ∧ l.queued ≠ [] ∧ ∀ q, ¬ l.Visible q
    | _ => False

theorem Alarm.mono (h : l.Alarm) (herror : l'.error = l.error)
    (hstatus : l'.status = l.status)
    (hvisible : ∀ q, l.Visible q → l'.Visible q) : l'.Alarm := by
  rcases h with hstored | ⟨q, hq, hfailed⟩
  · left
    rwa [herror]
  · right
    refine ⟨q, hvisible q hq, ?_⟩
    rwa [hstatus]

theorem Visible.register {q : ℕ} (h : l.Visible q) (item : Item)
    (rest : List Item) : (l.register item rest).Visible q :=
  h.imp_left fun hq => Dict.mem_keys_set.mpr (Or.inr hq)

/-- A packet that enters the window stays visible. -/
theorem Visible.send {q : ℕ} (h : l.Visible q) (seq : ℕ) (item : Item)
    (packet : Bytes) :
    (((l.popPending seq).launch seq item packet).transmit packet).Visible q := by
  by_cases hq : q = seq
  · exact Or.inr (Dict.mem_keys_set.mpr (Or.inl hq))
  · rcases h with hpending | hsent
    · exact Or.inl (Dict.mem_keys_erase.mpr ⟨hpending, hq⟩)
    · exact Or.inr (Dict.mem_keys_set.mpr (Or.inr hsent))

/-- A packet that is taken back hides no other. -/
theorem Visible.unsent {q seq : ℕ} (h : l.Visible q) (hq : q ≠ seq)
    (item : Item) (packet : Bytes) (e : Err) :
    (((l.popPending seq).launch seq item packet).discard seq e).Visible q := by
  rcases h with hpending | hsent
  · exact Or.inl (Dict.mem_keys_erase.mpr ⟨hpending, hq⟩)
  · refine Or.inr (Dict.mem_keys_erase.mpr ⟨?_, hq⟩)
    exact Dict.mem_keys_set.mpr (Or.inr hsent)

theorem Alarm.unsent {input : PumpInput} {seq : ℕ} {item : Item}
    {packet : Bytes} {what : String}
    (hnext : l.nextToSend cfg = some (seq, item))
    (hpacket : dataPacket seq item.data = .ok packet)
    (hsend : input.sendResult = some what)
    (hloud : ¬ l.Silences cfg D (.pump l.peer input)) :
    (((l.popPending seq).launch seq item packet).discard seq
      (.channel what)).Alarm := by
  by_contra hquiet
  rw [Alarm, not_or, not_not, not_exists] at hquiet
  refine hloud ⟨hquiet.1, rfl, seq, item, hnext, ?_, ?_⟩
  · rw [hpacket]
    simp [hsend]
  · intro q hq hne
    by_contra hfailed
    refine hquiet.2 q ⟨hq.unsent hne item packet _, ?_⟩
    simpa [discard, launch, Lane.popPending, hne] using hfailed

theorem Alarm.unencodable {input : PumpInput} {seq : ℕ} {item : Item}
    {err : PacketError} (h : l.Alarm)
    (hnext : l.nextToSend cfg = some (seq, item))
    (hpacket : dataPacket seq item.data = .error err)
    (hloud : ¬ l.Silences cfg D (.pump l.peer input)) :
    (l.popPending seq).crash.Alarm := by
  rcases h with hstored | ⟨q, hq, hfailed⟩
  · exact Or.inl hstored
  · by_contra hquiet
    rw [Alarm, not_or, not_not, not_exists] at hquiet
    have hothers : ∀ q, l.Visible q → q ≠ seq → (l.status q).error = none := by
      intro q hq hne
      by_contra hfailed
      refine hquiet.2 q ⟨?_, hfailed⟩
      exact hq.imp_left fun hpending => Dict.mem_keys_erase.mpr ⟨hpending, hne⟩
    have hself : q = seq := by
      by_contra hne
      exact hfailed (hothers q hq hne)
    refine hloud ⟨hquiet.1, rfl, seq, item, hnext, ?_, hothers⟩
    rw [hpacket]
    exact hself ▸ hfailed

theorem Alarm.ack {raw : Bytes} {input : IncomingInput} {n base : ℕ}
    {seqs : List ℕ} (h : l.Alarm) (hraw : IsAck raw n)
    (hslide : D.slide l n = some (seqs, base))
    (hloud : ¬ l.Silences cfg D (.incoming raw l.peer input)) :
    ((l.complete seqs).slideTo base).Alarm := by
  have herror : ∀ q, (((l.complete seqs).slideTo base).status q).error =
      (l.status q).error := by
    intro q
    simp only [slideTo, Lane.complete]
    split_ifs <;> rfl
  rcases h with hstored | ⟨q, hq, hfailed⟩
  · exact Or.inl hstored
  · by_contra hquiet
    rw [Alarm, not_or, not_not, not_exists] at hquiet
    have hothers : ∀ q, l.Visible q → q ∉ seqs → (l.status q).error = none := by
      intro q hq hnot
      by_contra hfailed
      refine hquiet.2 q ⟨?_, by rwa [herror]⟩
      refine hq.imp_right fun hsent => ?_
      obtain ⟨item, hitem⟩ := Dict.mem_keys.mp hsent
      exact Dict.mem_keys.mpr
        ⟨item, by simpa [slideTo, Lane.complete, hnot] using hitem⟩
    have hmem : q ∈ seqs := by
      by_contra hnot
      exact hfailed (hothers q hq hnot)
    exact hloud ⟨hquiet.1, rfl, n, seqs, base, hraw, hslide, ⟨q, hmem, hfailed⟩,
      hothers⟩

/-- The event sets the error of an item. -/
def Fails (l l' : Lane) : Prop :=
  ∃ q, (l'.status q).error ≠ none ∧ (l'.status q).error ≠ (l.status q).error

theorem Alarm.close (h : l.Alarm ∨ Fails l l.close)
    (hloud : ¬ l.Silences cfg D .close) : l.close.Alarm := by
  by_cases hstopped : l.stopped
  · rw [Lane.close, if_pos hstopped] at h ⊢
    rcases h with halarm | ⟨q, -, hchanged⟩
    · exact halarm
    · exact absurd rfl hchanged
  · rw [Lane.close, if_neg hstopped] at h ⊢
    by_cases hseen : ∃ q, l.Visible q
    · obtain ⟨q, hq⟩ := hseen
      refine Or.inr ⟨q, hq, ?_⟩
      have hmarked : q ∈ l.sentItems.keys ∨ q ∈ l.pending.keys ∨
          ∃ item ∈ l.queued, item.seq = q :=
        hq.elim (fun hpending => Or.inr (Or.inl hpending)) Or.inl
      simp [hmarked, error_markError]
    · rw [not_exists] at hseen
      rcases h with (hstored | ⟨q, hq, -⟩) | ⟨q, -, hchanged⟩
      · exact Or.inl hstored
      · exact absurd hq (hseen q)
      · left
        intro hnone
        refine hloud ⟨hnone, by simpa using hstopped, fun hnil => ?_, hseen⟩
        have hunmarked : ¬ (q ∈ l.sentItems.keys ∨ q ∈ l.pending.keys ∨
            ∃ item ∈ l.queued, item.seq = q) := by
          rw [hnil]
          rintro (hsent | hpending | ⟨item, hmem, -⟩)
          · exact hseen q (Or.inr hsent)
          · exact hseen q (Or.inl hpending)
          · exact absurd hmem List.not_mem_nil
        simp [hunmarked] at hchanged

/-- An alarm lasts through every event that does not silence it, until the next
`sendto` for the peer; and every failure raises one. -/
theorem Alarm.step
    (h : (l.Alarm ∧ ∀ data, e ≠ .sendto data l.peer) ∨ Fails l l')
    (hstep : Step cfg D fails l e l') (hloud : ¬ l.Silences cfg D e) :
    l'.Alarm := by
  have hold : l'.status = l.status → l.Alarm := by
    intro hstatus
    rcases h with ⟨halarm, -⟩ | ⟨q, -, hchanged⟩
    · exact halarm
    · rw [hstatus] at hchanged
      exact absurd rfl hchanged
  cases hstep with
  | accept =>
      rcases h with ⟨-, hsendto⟩ | ⟨q, -, hchanged⟩
      · exact absurd rfl (hsendto _)
      · exact absurd rfl hchanged
  | @register item rest =>
      exact (hold rfl).mono rfl rfl fun q hq => hq.register item rest
  | @registerCrash item rest =>
      exact (hold rfl).mono rfl rfl fun q hq => hq.register item rest
  | @send _ seq item packet =>
      exact (hold rfl).mono rfl rfl fun q hq => hq.send seq item packet
  | unsent hnext hpacket hsend => exact Alarm.unsent hnext hpacket hsend hloud
  | unencodable hnext hpacket => exact (hold rfl).unencodable hnext hpacket hloud
  | giveUp => exact Or.inl (by simp [Lane.failPeer])
  | ack hraw hslide =>
      have halarm : l.Alarm := by
        rcases h with ⟨halarm, -⟩ | ⟨q, -, hchanged⟩
        · exact halarm
        · simp only [slideTo, Lane.complete] at hchanged
          split_ifs at hchanged
          · exact absurd rfl hchanged
          · exact absurd rfl hchanged
      exact halarm.ack hraw hslide hloud
  | close => exact Alarm.close (h.imp_left And.left) hloud
  | _ => exact (hold rfl).mono rfl rfl fun _ hq => hq

end Lane

namespace Endpoint

variable {cfg : Config} {E : Endpoint cfg}

/-- A flush collects an error of every peer with an alarm. -/
theorem flushErrors_ne_nil {s : E.State} (hwf : E.WellFormed s)
    {addr : Option Address} {a : Address} (ha : FlushesPeer addr a)
    (h : (E.lane s a).Alarm) : (E.core s).flushErrors addr ≠ [] := by
  rcases h with hstored | ⟨q, hq, hfailed⟩
  · obtain ⟨e, he⟩ := Option.ne_none_iff_exists'.mp hstored
    have hget : (E.core s).peerErrors.get? a = some e := he
    have hmem := mem_flushAddrs ha
      (Or.inr (Or.inr (Dict.mem_keys.mpr ⟨e, hget⟩)))
    apply List.ne_nil_of_mem
    exact List.mem_append_left _ (List.mem_filterMap.mpr ⟨a, hmem, hget⟩)
  · obtain ⟨e, he⟩ := Option.ne_none_iff_exists'.mp hfailed
    obtain ⟨item, hget, haddr, hseq, -⟩ : ∃ item,
        ((sub (E.core s).pending a).get? q = some item ∨
          (sub (E.core s).sentItems a).get? q = some item) ∧
        (E.lane s a).Issued q item := by
      rcases hq with hpending | hsent
      · obtain ⟨item, hitem⟩ := Dict.mem_keys.mp hpending
        exact ⟨item, Or.inl hitem, (hwf a).labelled.pending q item hitem⟩
      · obtain ⟨item, hitem⟩ := Dict.mem_keys.mp hsent
        exact ⟨item, Or.inr hitem, (hwf a).labelled.sent q item hitem⟩
    have hstatus : ((E.core s).status item.addr item.seq).error = some e := by
      rw [hseq, show item.addr = a from haddr]
      exact he
    apply List.ne_nil_of_mem
    exact List.mem_append_right _
      (List.mem_filterMap.mpr ⟨item, mem_flushItems ha hget, hstatus⟩)

/-- An alarm lasts through a run that does not silence it. -/
theorem alarm_run {s : E.State} {a : Address} (hwf : E.WellFormed s)
    (h : (E.lane s a).Alarm) {es : List Event}
    (hsendto : ∀ data, .sendto data a ∉ es)
    (hloud : Meets E.step
      (fun s e => ¬ (E.lane s a).Silences cfg E.discipline e) s es) :
    (E.lane (run E.step s es) a).Alarm := by
  induction es generalizing s with
  | nil => exact h
  | cons e es ih =>
      refine ih (hwf.step e) ?_ ?_ hloud.2
      · refine Lane.Alarm.step (Or.inl ⟨h, ?_⟩) (hwf.lane_step e a) hloud.1
        rintro data rfl
        exact hsendto data List.mem_cons_self
      · exact fun data hmem => hsendto data (List.mem_cons_of_mem _ hmem)

end Endpoint

/-- Once an item of the peer has been marked failed, every flush that concerns
the peer raises until the next `sendto` to it, provided that no step takes the
last trace of a failure away. -/
theorem failed_flush_raises (cfg : Config) (t : Windowed) (a : Address)
    (before : List Event) (e : Event) (after : List Event) :
    let E := t.endpoint cfg
    let s := run E.step E.init before
    let s' := run E.step s (e :: after)
    (∃ q, ((E.core (E.step s e)).status a q).error ≠ none ∧
      ((E.core (E.step s e)).status a q).error ≠
        ((E.core s).status a q).error) →
    (∀ data, .sendto data a ∉ after) →
    Meets E.step (fun s e => ¬ (E.lane s a).Silences cfg E.discipline e) s
      (e :: after) →
    ∀ addr, FlushesPeer addr a → ∀ remaining,
      ∃ err, (E.core s').flush addr remaining = .raised err := by
  intro E s s' hfails hsendto hloud addr ha remaining
  have hwf : E.WellFormed s := Endpoint.wellFormed_run before
  have hmarked : Lane.Fails (E.lane s a) (E.lane (E.step s e) a) := hfails
  have halarm : (E.lane (E.step s e) a).Alarm :=
    Lane.Alarm.step (Or.inr hmarked) (hwf.lane_step e a) hloud.1
  have hlasts : (E.lane s' a).Alarm :=
    Endpoint.alarm_run (hwf.step e) halarm hsendto hloud.2
  have hwf' : E.WellFormed s' := Endpoint.WellFormed.run hwf (e :: after)
  exact flush_eq_raised (Endpoint.flushErrors_ne_nil hwf' ha hlasts) remaining

/-- A peer is given up, and a flush of all peers raises. -/
theorem failed_flush_raises_one :
    let E := Windowed.goBackN.endpoint {}
    ∃ err, (E.core (run E.step E.init
      [.sendto [7] ("b", 2), .drain, .pump ("b", 2) ⟨0, 0, none⟩,
        .timeouts ⟨1, fun _ => 1, fun _ _ => 1, fun _ _ => some "unreachable"⟩,
        .recvfrom])).flush none 1 = .raised err := by
  intro E
  refine failed_flush_raises {} .goBackN ("b", 2)
    [.sendto [7] ("b", 2), .drain, .pump ("b", 2) ⟨0, 0, none⟩]
    (.timeouts ⟨1, fun _ => 1, fun _ _ => 1, fun _ _ => some "unreachable"⟩)
    [.recvfrom] ⟨0, ?_, ?_⟩ (by simp) ⟨fun h => h.2, fun h => h.2, trivial⟩
    none (Or.inl rfl) 1
  · decide +kernel
  · decide +kernel

/-- The send of a datagram raises, and no flush tells of it. -/
theorem failed_flush_returns :
    let es : List Event := [.sendto [7] ("b", 2), .drain,
      .pump ("b", 2) ⟨0, 0, some "unreachable"⟩]
    (let E := Windowed.goBackN.endpoint {}
     ((E.core (run E.step E.init es)).status ("b", 2) 0).error =
        some (.channel "unreachable") ∧
      (E.core (run E.step E.init es)).flush (some ("b", 2)) 1 = .returned ∧
      (E.core (run E.step E.init es)).flush none 1 = .returned) ∧
    (let E := Windowed.selectiveRepeat.endpoint {}
     ((E.core (run E.step E.init es)).status ("b", 2) 0).error =
        some (.channel "unreachable") ∧
      (E.core (run E.step E.init es)).flush (some ("b", 2)) 1 = .returned ∧
      (E.core (run E.step E.init es)).flush none 1 = .returned) := by
  decide +kernel

end UdpArq
