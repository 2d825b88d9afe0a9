import UdpArq.GoBackN.Refinement
import UdpArq.SelectiveRepeat.Refinement
import UdpArq.Transport.Retention

/-!
# What `flush` waits for

A datagram moves from `_outbound` to `_pending` to `_sent_items` until it is
acknowledged.  A flush of all peers looks at all three, a flush of one peer only
at the last two, so that it can return while datagrams of the peer are still in
`_outbound`.
-/

namespace UdpArq

/-- The two windowed transports. -/
inductive Windowed
  | goBackN
  | selectiveRepeat
  deriving DecidableEq

def Windowed.endpoint (cfg : Config) : Windowed → Endpoint cfg
  | .goBackN => GoBackNTransport.endpoint cfg
  | .selectiveRepeat => SelectiveRepeatTransport.endpoint cfg

def Windowed.handled (cfg : Config) : (t : Windowed) → (t.endpoint cfg).Handled
  | .goBackN => GoBackNTransport.handled cfg
  | .selectiveRepeat => SelectiveRepeatTransport.handled cfg

namespace Core

/-! ## One snapshot of `flush` -/

/-- `flush(addr)` waits for the datagrams of peer `a`. -/
def FlushesPeer (addr : Option Address) (a : Address) : Prop :=
  addr = none ∨ addr = some a

variable {c : Core} {addr : Option Address} {a : Address}

theorem flush_eq_returned_iff {remaining : ℚ} :
    c.flush addr remaining = .returned ↔
      c.flushErrors addr = [] ∧ c.flushItems addr = [] := by
  unfold flush
  cases c.flushErrors addr with
  | cons e es => simp
  | nil =>
      cases c.flushItems addr with
      | nil => simp
      | cons item items =>
          by_cases hlate : remaining ≤ 0 <;> simp [hlate]

theorem flush_eq_raised (h : c.flushErrors addr ≠ []) (remaining : ℚ) :
    ∃ e, c.flush addr remaining = .raised e := by
  obtain ⟨e, es, heq⟩ := List.exists_cons_of_ne_nil h
  exact ⟨e, by simp only [flush, heq]⟩

theorem mem_keys_of_sub {ν : Type} {d : Dict Address (Dict ℕ ν)} {q : ℕ} {x : ν}
    (h : (sub d a).get? q = some x) : a ∈ d.keys := by
  by_contra hnot
  rw [sub, Dict.getD, Dict.get?_eq_none_iff.mpr hnot] at h
  simp at h

theorem mem_flushAddrs (h : FlushesPeer addr a)
    (ha : a ∈ c.pending.keys ∨ a ∈ c.sentItems.keys ∨ a ∈ c.peerErrors.keys) :
    a ∈ c.flushAddrs addr := by
  rcases h with rfl | rfl
  · rw [flushAddrs, List.mem_insertionSort, List.mem_dedup, List.mem_append,
      List.mem_append, or_assoc]
    exact ha
  · exact List.mem_singleton_self a

/-- A flush sees the items in `_pending` and `_sent_items` of its peers. -/
theorem mem_flushItems (h : FlushesPeer addr a) {q : ℕ} {item : Item}
    (hget : (sub c.pending a).get? q = some item ∨
      (sub c.sentItems a).get? q = some item) : item ∈ c.flushItems addr := by
  have ha : a ∈ c.flushAddrs addr := by
    apply mem_flushAddrs h
    rcases hget with hget | hget
    · exact Or.inl (mem_keys_of_sub hget)
    · exact Or.inr (Or.inl (mem_keys_of_sub hget))
  rw [flushItems, List.mem_append, List.mem_flatMap]
  refine Or.inl ⟨a, ha, ?_⟩
  rw [List.mem_append]
  exact hget.imp (fun hget => Dict.mem_values.mpr ⟨q, hget⟩)
    fun hget => Dict.mem_values.mpr ⟨q, hget⟩

end Core

open UdpArq.Core

/-! ## Where a datagram is as long as nothing fails -/

namespace Lane

variable {cfg : Config} {D : Discipline} {fails : SweepInput → Prop}
  {l l' : Lane} {e : Event}

/-- Datagram `q` has been handed over and does not fit a packet. -/
def Unencodable (l : Lane) (q : ℕ) : Prop :=
  ∃ payload, l.handed[q]? = some payload ∧
    ¬ ∃ packet, dataPacket q payload = .ok packet

/-- Nothing has failed; every datagram assigned is completed or held, or does
not fit a packet. -/
structure Settled (l : Lane) : Prop where
  isOpen : l.stopped = false
  error : ∀ q, (l.status q).error = none
  retains : ∃ m, l.Retains (fun q => l.Completed q ∨ l.Unencodable q) m
  fits : ∀ q, l.Completed q → ¬ l.Unencodable q

theorem getElem?_of_handed (h : Step cfg D fails l e l') {q : ℕ}
    {payload : Bytes} (hq : l.handed[q]? = some payload) :
    l'.handed[q]? = some payload := by
  obtain ⟨later, hlater⟩ := h.handed
  obtain ⟨hlt, -⟩ := List.getElem?_eq_some_iff.mp hq
  rw [← hlater, List.getElem?_append_left hlt]
  exact hq

theorem not_unencodable_step (h : Step cfg D fails l e l') {q : ℕ}
    (hlt : q < l.handed.length) (hfits : ¬ l.Unencodable q) :
    ¬ l'.Unencodable q := by
  rintro ⟨payload, hget, hbad⟩
  have hold := List.getElem?_eq_getElem hlt
  have hsame := (getElem?_of_handed h hold).symm.trans hget
  rw [Option.some.injEq] at hsame
  exact hfits ⟨payload, hsame ▸ hold, hbad⟩

/-- An outstanding datagram fits a packet. -/
theorem WellFormed.not_unencodable (hwf : l.WellFormed) {q : ℕ}
    (hq : q ∈ l.outstanding.keys) : ¬ l.Unencodable q := by
  rintro ⟨payload, hget, hbad⟩
  obtain ⟨raw, hraw⟩ := Dict.mem_keys.mp hq
  obtain ⟨payload', hget', hdata⟩ := hwf.labelled.outstanding q raw hraw
  rw [hget, Option.some.injEq] at hget'
  subst hget'
  exact hbad (dataPacket_isOk_iff.mpr hdata.fits)

/-- Every step in which nothing fails keeps the lane settled. -/
theorem Settled.step (h : l.Settled) (hwf : l.WellFormed)
    (hstep : Step cfg D fails l e l') (hquiet : ¬ Marks cfg fails l e) :
    l'.Settled := by
  have herror : ∀ q, (l'.status q).error = none := by
    intro q
    by_contra hq
    rcases hstep.error hq with hold | hmarks
    · exact hold (h.error q)
    · exact hquiet hmarks
  have hcompleted : ∀ q, l.Completed q → l'.Completed q :=
    fun q hq => ⟨hstep.event hq.1, herror q⟩
  have hunencodable : ∀ q, l.Unencodable q → l'.Unencodable q := by
    rintro q ⟨payload, hget, hbad⟩
    exact ⟨payload, getElem?_of_handed hstep hget, hbad⟩
  have hacked : ∀ {seqs : List ℕ} {base k : ℕ},
      D.slide l k = some (seqs, base) →
      l' = (l.complete seqs).slideTo base → ∀ q ∈ seqs, l'.Completed q := by
    intro seqs base k hslide heq q hq
    have hout := ((D.slide_sound hslide).covered q hq).1
    have hsent := (hwf.labelled.keys q).mpr hout
    refine ⟨?_, herror q⟩
    rw [heq]
    simp [slideTo, Lane.complete, hq, hsent]
  obtain ⟨m, hretains⟩ := h.retains
  refine ⟨?_, herror, ?_, ?_⟩
  · cases hstep with
    | close => exact absurd trivial hquiet
    | _ => exact h.isOpen
  · refine (hretains.mono fun q hq => ?_).step hwf hstep ?_ ?_
    · exact hq.imp (hcompleted q) (hunencodable q)
    · intro q hdrops
      cases e with
      | pump addr input =>
          obtain ⟨haddr, item, hnext, hraise | hbad⟩ := hdrops
          · exact absurd ⟨haddr, by simp [hnext], hraise⟩ hquiet
          · obtain ⟨-, -, hdata⟩ :=
              hwf.labelled.pending q item (pending_of_nextToSend hnext)
            exact Or.inr (hunencodable q ⟨item.data, hdata, hbad⟩)
      | timeouts input => exact absurd hdrops.1 hquiet
      | _ => exact hdrops.elim
    · intro raw input k seqs base _ _ hslide heq q hq
      exact Or.inl (hacked hslide heq q hq)
  · intro q hq
    rcases hstep.completed hq with hold | ⟨-, -, -, -, hout, -, -⟩
    · have hlt : q < l.handed.length := by
        rw [← hwf.nextSeq_eq]
        exact (hretains.completed q hold).1.trans_le hretains.le
      exact not_unencodable_step hstep hlt (h.fits q hold)
    · obtain ⟨raw, hraw⟩ := Dict.mem_keys.mp hout
      obtain ⟨payload, hget, -⟩ := hwf.labelled.outstanding q raw hraw
      obtain ⟨hlt, -⟩ := List.getElem?_eq_some_iff.mp hget
      exact not_unencodable_step hstep hlt (hwf.not_unencodable hout)

end Lane

namespace Endpoint

variable {cfg : Config} (E : Endpoint cfg)

/-- In this step no send of a datagram raises, no peer is given up and the
transport is not closed. -/
def Quiet (s : E.State) (e : Event) : Prop :=
  ∀ a, ¬ Lane.Marks cfg (E.PeerFails s a) (E.lane s a) e

/-- After the events `es` datagram `q` of the peer is completed without error,
and the peer has acknowledged it. -/
def Acknowledged (es : List Event) (a : Address) (q : ℕ) : Prop :=
  (E.lane (run E.step E.init es) a).Completed q ∧
    ∃ raw input n, .incoming raw a input ∈ es ∧ IsAck raw n ∧
      E.discipline.covers n q

variable {E}

/-- What is completed has been acknowledged. -/
theorem acknowledged_of_completed (es : List Event) {a : Address} {q : ℕ}
    (hq : (E.lane (run E.step E.init es) a).Completed q) :
    E.Acknowledged es a q := by
  refine ⟨hq, ?_⟩
  induction es using List.reverseRecOn with
  | nil =>
      rw [run_nil, Endpoint.lane, E.lane_init] at hq
      simp [Lane.Completed] at hq
  | append_singleton es e ih =>
      rw [run_concat] at hq
      rcases ((wellFormed_run es).lane_step e a).completed hq with
        hold | ⟨raw, input, n, rfl, -, hraw, hcovers⟩
      · obtain ⟨raw, input, n, hmem, hack⟩ := ih hold
        exact ⟨raw, input, n, List.mem_append_left _ hmem, hack⟩
      · refine ⟨raw, input, n, ?_, hraw, hcovers⟩
        exact List.mem_append_right _ (List.mem_singleton_self _)

theorem handed_run {s : E.State} (h : E.WellFormed s) (es : List Event)
    (a : Address) :
    (E.lane s a).handed <+: (E.lane (run E.step s es) a).handed := by
  induction es generalizing s with
  | nil => exact List.prefix_rfl
  | cons e es ih => exact (h.lane_step e a).handed.trans (ih (h.step e))

/-- In a run without failures every lane is settled. -/
theorem settled_run {es : List Event} (hes : Meets E.step E.Quiet E.init es)
    (a : Address) : (E.lane (run E.step E.init es) a).Settled := by
  have hinit : E.WellFormed E.init ∧ (E.lane E.init a).Settled := by
    refine ⟨Endpoint.WellFormed.init, ?_⟩
    rw [Endpoint.lane, E.lane_init]
    refine ⟨rfl, fun _ => rfl, ⟨0, le_rfl, fun _ => rfl, ?_, ?_, ?_⟩, ?_⟩
    · simp [Lane.Held, Lane.waiting]
    · simp [Lane.Completed]
    · simp
    · simp [Lane.Completed]
  exact (run_invariant_of_meets
    (fun s => E.WellFormed s ∧ (E.lane s a).Settled)
    (fun s e h he => ⟨h.1.step e, h.2.step (h.1 a) (h.1.lane_step e a) (he a)⟩)
    hinit hes).2

/-- What a flush that returns leaves of a settled lane: everything that is
neither completed nor unencodable is in `_outbound`. -/
theorem mem_outbound_of_flush {s : E.State} (hwf : E.WellFormed s)
    {addr : Option Address} (hitems : (E.core s).flushItems addr = [])
    {a : Address} (ha : FlushesPeer addr a) {q : ℕ}
    (hheld : (E.lane s a).Held q) :
    ∃ item ∈ (E.core s).outbound, item.addr = a ∧ item.seq = q := by
  have hseen : ∀ item, ¬ ((sub (E.core s).pending a).get? q = some item ∨
      (sub (E.core s).sentItems a).get? q = some item) := by
    intro item hget
    have hmem := mem_flushItems ha hget
    rw [hitems] at hmem
    exact absurd hmem List.not_mem_nil
  rcases hheld with hout | hwaiting
  · obtain ⟨item, hitem⟩ :=
      Dict.mem_keys.mp (((hwf a).labelled.keys q).mpr hout)
    exact absurd (Or.inr hitem) (hseen item)
  · rcases List.mem_append.mp hwaiting with hpending | hqueued
    · obtain ⟨item, hitem⟩ := Dict.mem_keys.mp hpending
      exact absurd (Or.inl hitem) (hseen item)
    · obtain ⟨item, hmem, hseq⟩ := List.mem_map.mp hqueued
      have hfilter := List.mem_filter.mp hmem
      exact ⟨item, hfilter.1, by simpa using hfilter.2, hseq⟩

end Endpoint

/-- In a run without failures, when a snapshot of `flush` lets it return, what
was handed over before the call has been acknowledged exactly if none of it is
in `_outbound` and all of it fits a packet. -/
theorem flush_returned_acknowledged_iff (cfg : Config) (t : Windowed)
    (addr : Option Address) (before during : List Event) (remaining : ℚ) :
    let E := t.endpoint cfg
    let s := run E.step E.init before
    let s' := run E.step E.init (before ++ during)
    Meets E.step E.Quiet E.init (before ++ during) →
    (E.core s').flush addr remaining = .returned →
      ((∀ a, FlushesPeer addr a → ∀ q < (toPeer a (E.core s).handed).length,
          E.Acknowledged (before ++ during) a q) ↔
        ∀ a, FlushesPeer addr a → ∀ q payload,
          (toPeer a (E.core s).handed)[q]? = some payload →
            (∀ item ∈ (E.core s').outbound, item.addr = a → item.seq ≠ q) ∧
              ∃ packet, dataPacket q payload = .ok packet) := by
  intro E s s' hquiet hflush
  obtain ⟨-, hitems⟩ := flush_eq_returned_iff.mp hflush
  have hwf : E.WellFormed s' := Endpoint.wellFormed_run _
  have hgrow : ∀ a, (E.lane s a).handed <+: (E.lane s' a).handed := by
    intro a
    have hrun : s' = run E.step s during := run_append E.init before during
    rw [hrun]
    exact Endpoint.handed_run (Endpoint.wellFormed_run before) during a
  have hlater : ∀ (a : Address) (q : ℕ) (payload : Bytes),
      (toPeer a (E.core s).handed)[q]? = some payload →
        (E.lane s' a).handed[q]? = some payload := by
    intro a q payload hget
    obtain ⟨later, hlater⟩ := hgrow a
    obtain ⟨hlt, -⟩ := List.getElem?_eq_some_iff.mp hget
    rw [← hlater]
    exact (List.getElem?_append_left hlt).trans hget
  constructor
  · intro hacked a ha q payload hget
    obtain ⟨hlt, -⟩ := List.getElem?_eq_some_iff.mp hget
    have hcompleted : (E.lane s' a).Completed q := (hacked a ha q hlt).1
    have hsettled := Endpoint.settled_run hquiet a
    obtain ⟨m, hretains⟩ := hsettled.retains
    constructor
    · intro item hmem haddr hseq
      apply (hretains.completed q hcompleted).2
      refine List.mem_append_right _ (List.mem_map.mpr ⟨item, ?_, hseq⟩)
      exact List.mem_filter.mpr ⟨hmem, by simpa using haddr⟩
    · by_contra hbad
      exact hsettled.fits q hcompleted ⟨payload, hlater a q payload hget, hbad⟩
  · intro hsent a ha q hlt
    have hget := List.getElem?_eq_getElem hlt
    obtain ⟨hqueue, hfits⟩ := hsent a ha q _ hget
    apply Endpoint.acknowledged_of_completed
    have hsettled := Endpoint.settled_run hquiet a
    obtain ⟨m, hretains⟩ := hsettled.retains
    have hm : q < m := by
      rw [hretains.full hsettled.isOpen, (hwf a).nextSeq_eq]
      exact hlt.trans_le (hgrow a).length_le
    rcases hretains.kept q hm with (hcompleted | ⟨payload, hget', hbad⟩) | hheld
    · exact hcompleted
    · have hsame := (hlater a q _ hget).symm.trans hget'
      rw [Option.some.injEq] at hsame
      exact absurd (hsame ▸ hfits) hbad
    · obtain ⟨item, hmem, haddr, hseq⟩ :=
        Endpoint.mem_outbound_of_flush hwf hitems ha hheld
      exact absurd hseq (hqueue item hmem haddr)

/-- A datagram is handed over, sent and acknowledged, and the flush returns. -/
theorem flush_returned_acknowledged_one :
    let E := Windowed.goBackN.endpoint {}
    let ack := (ackPacket 1).toOption.getD []
    E.Acknowledged [.sendto [7] ("b", 2), .drain, .pump ("b", 2) ⟨0, 0, none⟩,
      .incoming ack ("b", 2) ⟨0, 0, none⟩] ("b", 2) 0 := by
  intro E ack
  have hquiet : Meets E.step E.Quiet E.init
      [.sendto [7] ("b", 2), .drain, .pump ("b", 2) ⟨0, 0, none⟩,
        .incoming ack ("b", 2) ⟨0, 0, none⟩] :=
    ⟨fun _ h => h, fun _ h => h, fun _ h => h.2.2 rfl, fun _ h => h, trivial⟩
  refine (flush_returned_acknowledged_iff {} .goBackN (some ("b", 2))
    [.sendto [7] ("b", 2)] [.drain, .pump ("b", 2) ⟨0, 0, none⟩,
      .incoming ack ("b", 2) ⟨0, 0, none⟩] 1 hquiet (by decide +kernel)).mpr
    ?_ ("b", 2) (Or.inr rfl) 0 (by decide +kernel)
  rintro a (ha | ha) q payload hget
  · cases ha
  · cases ha
    have hhanded : toPeer ("b", 2) (E.core (run E.step E.init
        [.sendto [7] ("b", 2)])).handed = [[7]] := by
      decide +kernel
    have hqueue : (E.core (run E.step E.init
        [.sendto [7] ("b", 2), .drain, .pump ("b", 2) ⟨0, 0, none⟩,
          .incoming ack ("b", 2) ⟨0, 0, none⟩])).outbound = [] := by
      decide +kernel
    refine ⟨fun item hmem => ?_, dataPacket_isOk_iff.mpr ?_⟩
    · have hmem' : item ∈ ([] : List Item) := hqueue ▸ hmem
      exact absurd hmem' List.not_mem_nil
    · have hget' : ([[7]] : List Bytes)[q]? = some payload := hhanded ▸ hget
      cases q with
      | zero =>
          cases hget'
          decide
      | succ q => simp at hget'

/-- A flush of the peer returns while its only datagram is in `_outbound`. -/
theorem flush_returned_not_acknowledged :
    let es : List Event := [.sendto [7] ("b", 2)]
    (let E := Windowed.goBackN.endpoint {}
     Meets E.step E.Quiet E.init es ∧
      (E.core (run E.step E.init es)).flush (some ("b", 2)) 1 = .returned ∧
      (toPeer ("b", 2) (E.core (run E.step E.init es)).handed).length = 1 ∧
      ¬ E.Acknowledged es ("b", 2) 0) ∧
    (let E := Windowed.selectiveRepeat.endpoint {}
     Meets E.step E.Quiet E.init es ∧
      (E.core (run E.step E.init es)).flush (some ("b", 2)) 1 = .returned ∧
      (toPeer ("b", 2) (E.core (run E.step E.init es)).handed).length = 1 ∧
      ¬ E.Acknowledged es ("b", 2) 0) := by
  intro es
  constructor
  · refine ⟨⟨fun _ h => h, trivial⟩, by decide +kernel, by decide +kernel, ?_⟩
    intro hacked
    exact absurd hacked.1 (by decide +kernel)
  · refine ⟨⟨fun _ h => h, trivial⟩, by decide +kernel, by decide +kernel, ?_⟩
    intro hacked
    exact absurd hacked.1 (by decide +kernel)

end UdpArq
