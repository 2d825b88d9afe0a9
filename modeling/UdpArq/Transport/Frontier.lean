import UdpArq.Transport.Retention

/-!
# How far the sending half has come

The frontier of a lane is one more than the highest number that ever entered
the window.  Between the base and the frontier everything is outstanding or has
failed, and above it everything waits, has failed, or belongs to a thread that
is dead.
-/

namespace UdpArq

namespace Lane

variable {cfg : Config} {D : Discipline} {fails : SweepInput → Prop}
  {l l' : Lane} {e : Event} {m : ℕ}

/-- Datagram `q` is marked failed. -/
def Failed (l : Lane) (q : ℕ) : Prop := (l.status q).error ≠ none

instance (l : Lane) (q : ℕ) : Decidable (l.Failed q) :=
  inferInstanceAs (Decidable (_ ≠ _))

/-- What holds of a lane whose packets have entered the window up to `m`. -/
structure Frontier (cfg : Config) (l : Lane) (m : ℕ) : Prop where
  le_nextSeq : m ≤ l.nextSeq
  base_le : l.base.getD 0 ≤ m
  le_window : m ≤ l.base.getD 0 + cfg.windowSize
  outstanding : ∀ q ∈ l.outstanding.keys, l.base.getD 0 ≤ q ∧ q < m
  waiting : ∀ q ∈ l.waiting, m ≤ q
  sent : ∀ raw ∈ l.wire, ∀ q payload, IsData raw q payload → q < m
  entered : ∀ q, l.base.getD 0 ≤ q → q < m →
    q ∈ l.outstanding.keys ∨ l.Failed q
  ahead : l.crashed = false → ∀ q, m ≤ q → q < l.nextSeq →
    q ∈ l.waiting ∨ l.Failed q
  fresh : l.base = none →
    l.queued.map Item.seq = List.range l.nextSeq ∨
      l.stopped = true ∧ l.queued = []

theorem frontier_fresh (cfg : Config) (addr : Address) :
    Frontier cfg ({ peer := addr } : Lane) 0 := by
  refine ⟨le_rfl, le_rfl, Nat.zero_le _, ?_, ?_, ?_, ?_, ?_,
    fun _ => Or.inl rfl⟩
  · simp
  · simp [Lane.waiting]
  · simp
  · exact fun q _ hq => absurd hq (Nat.not_lt_zero q)
  · exact fun _ q _ hq => absurd hq (Nat.not_lt_zero q)

/-- Dropping packets keeps the frontier if what is dropped is marked failed. -/
theorem Frontier.shrink (h : l.Frontier cfg m) (hbase : l'.base = l.base)
    (hnext : l'.nextSeq = l.nextSeq)
    (hout : ∀ q ∈ l'.outstanding.keys, q ∈ l.outstanding.keys)
    (hwaiting : ∀ q ∈ l'.waiting, q ∈ l.waiting)
    (hwire : ∀ raw ∈ l'.wire, raw ∈ l.wire ∨ ∃ n, IsAck raw n)
    (hlost : ∀ q ∈ l.outstanding.keys, q ∈ l'.outstanding.keys ∨ l'.Failed q)
    (hdropped : l'.crashed = false →
      ∀ q ∈ l.waiting, q ∈ l'.waiting ∨ l'.Failed q)
    (hfailed : ∀ q, l.Failed q → l'.Failed q)
    (hcrashed : l'.crashed = false → l.crashed = false)
    (hqueued : l'.queued = l.queued ∧ l'.stopped = l.stopped ∨
      l'.stopped = true ∧ l'.queued = []) :
    l'.Frontier cfg m := by
  constructor
  · rw [hnext]
    exact h.le_nextSeq
  · rw [hbase]
    exact h.base_le
  · rw [hbase]
    exact h.le_window
  · intro q hq
    rw [hbase]
    exact h.outstanding q (hout q hq)
  · exact fun q hq => h.waiting q (hwaiting q hq)
  · intro raw hraw q payload hdata
    rcases hwire raw hraw with hold | ⟨n, hack⟩
    · exact h.sent raw hold q payload hdata
    · exact absurd hack hdata.not_isAck
  · intro q hlo hhi
    rw [hbase] at hlo
    rcases h.entered q hlo hhi with hold | hold
    · exact hlost q hold
    · exact Or.inr (hfailed q hold)
  · intro hrun q hlo hhi
    rw [hnext] at hhi
    rcases h.ahead (hcrashed hrun) q hlo hhi with hold | hold
    · exact hdropped hrun q hold
    · exact Or.inr (hfailed q hold)
  · intro hnone
    rcases hqueued with ⟨hsame, hstopped⟩ | hclosed
    · rw [hsame, hstopped, hnext]
      exact h.fresh (hbase.symm.trans hnone)
    · exact Or.inr hclosed

/-- A lane that agrees in everything that the frontier looks at. -/
theorem Frontier.congr (h : l.Frontier cfg m) (hbase : l'.base = l.base)
    (hnext : l'.nextSeq = l.nextSeq) (hout : l'.outstanding = l.outstanding)
    (hwaiting : l'.waiting = l.waiting)
    (hwire : ∀ raw ∈ l'.wire, raw ∈ l.wire ∨ ∃ n, IsAck raw n)
    (hstatus : l'.status = l.status)
    (hcrashed : l'.crashed = false → l.crashed = false)
    (hqueued : l'.queued = l.queued) (hstopped : l'.stopped = l.stopped) :
    l'.Frontier cfg m := by
  apply h.shrink hbase hnext
  · rw [hout]
    exact fun _ hq => hq
  · rw [hwaiting]
    exact fun _ hq => hq
  · exact hwire
  · rw [hout]
    exact fun _ hq => Or.inl hq
  · rw [hwaiting]
    exact fun _ _ hq => Or.inl hq
  · intro q hq
    rwa [Failed, hstatus]
  · exact hcrashed
  · exact Or.inl ⟨hqueued, hstopped⟩

/-- A dead thread moves nothing. -/
theorem Frontier.crash (h : l.Frontier cfg m) : l.crash.Frontier cfg m :=
  h.congr rfl rfl rfl rfl (fun _ hraw => Or.inl hraw) rfl
    (fun hrun => by cases hrun) rfl rfl

/-- The thread dies of a packet that it has taken out of `_pending`. -/
theorem Frontier.popPending_crash (h : l.Frontier cfg m) (seq : ℕ) :
    (l.popPending seq).crash.Frontier cfg m := by
  refine h.shrink rfl rfl ?_ ?_ ?_ ?_ ?_ ?_ ?_ ?_
  · exact fun _ hq => hq
  · exact fun _ hq => mem_waiting_popPending hq
  · exact fun _ hraw => Or.inl hraw
  · exact fun _ hq => Or.inl hq
  · intro hrun
    cases hrun
  · exact fun _ hq => hq
  · intro hrun
    cases hrun
  · exact Or.inl ⟨rfl, rfl⟩

theorem Frontier.accept (h : l.Frontier cfg m) (hopen : l.stopped = false)
    (data : Bytes) :
    (l.accept data).Frontier cfg m := by
  have hwaiting : (l.accept data).waiting = l.waiting ++ [l.nextSeq] := by
    simp [Lane.waiting, Lane.accept]
  refine ⟨h.le_nextSeq.trans (Nat.le_succ _), h.base_le, h.le_window,
    h.outstanding, ?_, h.sent, h.entered, ?_, ?_⟩
  · intro q hq
    rw [hwaiting, List.mem_append, List.mem_singleton] at hq
    rcases hq with hold | rfl
    · exact h.waiting q hold
    · exact h.le_nextSeq
  · intro hrun q hlo hhi
    rw [hwaiting, List.mem_append, List.mem_singleton]
    rcases Nat.lt_succ_iff_lt_or_eq.mp hhi with hlt | heq
    · exact (h.ahead hrun q hlo hlt).imp_left Or.inl
    · exact Or.inl (Or.inr heq)
  · intro hnone
    rcases h.fresh hnone with hall | ⟨hstopped, -⟩
    · left
      simp [Lane.accept, hall, List.range_succ]
    · rw [hopen] at hstopped
      cases hstopped

/-- The first item that a peer ever registers has number 0. -/
theorem Frontier.base_register (h : l.Frontier cfg m) {item : Item}
    {rest : List Item} (hqueue : l.queued = item :: rest) :
    (l.register item rest).base.getD 0 = l.base.getD 0 := by
  rcases hnone : l.base with _ | base
  · rcases h.fresh hnone with hall | ⟨-, hnil⟩
    · rw [hqueue, List.map_cons] at hall
      have hhead := congrArg List.head? hall
      rw [List.head?_cons, List.head?_range] at hhead
      split_ifs at hhead
      simpa [Lane.register, hnone] using hhead
    · rw [hqueue] at hnil
      cases hnil
  · simp [Lane.register, hnone]

theorem Frontier.register (h : l.Frontier cfg m) (hwf : l.WellFormed)
    {item : Item} {rest : List Item} (hqueue : l.queued = item :: rest) :
    (l.register item rest).Frontier cfg m := by
  obtain ⟨lo, n, hspan⟩ := hwf.span
  have hwaiting : (l.register item rest).waiting = l.waiting :=
    (hspan.register hqueue).waiting_eq.trans hspan.waiting_eq.symm
  have hbase := h.base_register hqueue
  constructor
  · exact h.le_nextSeq
  · rw [hbase]
    exact h.base_le
  · rw [hbase]
    exact h.le_window
  · rw [hbase]
    exact h.outstanding
  · rw [hwaiting]
    exact h.waiting
  · exact h.sent
  · rw [hbase]
    exact h.entered
  · rw [hwaiting]
    exact h.ahead
  · intro hnone
    simp [Lane.register] at hnone

/-- The packet that enters the window moves the frontier. -/
theorem Frontier.launch (h : l.Frontier cfg m) (hwf : l.WellFormed)
    (hrun : l.crashed = false) {seq : ℕ} {item : Item}
    (hnext : l.nextToSend cfg = some (seq, item)) (packet : Bytes) :
    m ≤ seq ∧
      ((l.popPending seq).launch seq item packet).Frontier cfg (seq + 1) := by
  obtain ⟨lo, n, hspan⟩ := hwf.span
  obtain ⟨rfl, -, hwindow, -⟩ := hspan.next hnext
  have hle : m ≤ seq := h.waiting seq (mem_waiting_of_nextToSend hnext)
  have hleast : ∀ q ∈ l.waiting, seq ≤ q := by
    intro q hq
    rw [hspan.waiting_eq, List.mem_range'_1] at hq
    exact hq.1
  refine ⟨hle, ?_⟩
  constructor
  · have hmem := mem_waiting_of_nextToSend hnext
    rw [hspan.waiting_eq, List.mem_range'_1] at hmem
    exact hmem.2.trans_le hspan.le_nextSeq
  · exact h.base_le.trans (hle.trans (Nat.le_succ seq))
  · exact hwindow
  · intro q hq
    rcases Dict.mem_keys_set.mp hq with rfl | hold
    · exact ⟨h.base_le.trans hle, Nat.lt_succ_self q⟩
    · obtain ⟨hlo, hhi⟩ := h.outstanding q hold
      exact ⟨hlo, hhi.trans_le (hle.trans (Nat.le_succ seq))⟩
  · intro q hq
    have hspan' := (hspan.popPending hnext).waiting_eq
    have hq' : q ∈ (l.popPending seq).waiting := hq
    rw [hspan', List.mem_range'_1] at hq'
    exact hq'.1
  · intro raw hraw q payload hdata
    exact (h.sent raw hraw q payload hdata).trans_le (hle.trans (Nat.le_succ seq))
  · intro q hlo hhi
    rcases Nat.lt_succ_iff_lt_or_eq.mp hhi with hlt | rfl
    · by_cases hm : q < m
      · exact (h.entered q hlo hm).imp_left fun hold =>
          Dict.mem_keys_set.mpr (Or.inr hold)
      · have hcount := hspan.le_nextSeq
        have hbelow : q < l.nextSeq := by omega
        rcases h.ahead hrun q (not_lt.mp hm) hbelow with hold | hold
        · exact absurd (hleast q hold) (not_le.mpr hlt)
        · exact Or.inr hold
    · exact Or.inl (Dict.mem_keys_set.mpr (Or.inl rfl))
  · intro _ q hlo hhi
    have hold := h.ahead hrun q (hle.trans (Nat.le_of_succ_le hlo)) hhi
    exact hold.imp_left fun hwaits =>
      mem_waiting_of_ne hwaits (Nat.ne_of_gt hlo)
  · intro hnone
    exact absurd hnone (hwf.ready.base_ne_none hnext)

/-- The packet that has entered the window is sent. -/
theorem Frontier.transmit {seq : ℕ} (h : l.Frontier cfg (seq + 1))
    {data packet : Bytes} (hpacket : Core.dataPacket seq data = .ok packet) :
    (l.transmit packet).Frontier cfg (seq + 1) := by
  refine ⟨h.le_nextSeq, h.base_le, h.le_window, h.outstanding, h.waiting, ?_,
    h.entered, h.ahead, h.fresh⟩
  intro raw hraw q payload hdata
  rcases List.mem_cons.mp hraw with rfl | hold
  · rw [(hdata.unique (Core.isData_of_dataPacket hpacket)).1]
    exact Nat.lt_succ_self seq
  · exact h.sent raw hold q payload hdata

theorem failed_markError {p : Prop} [Decidable p] {e : Err} {st : Status}
    (h : st.error ≠ none) :
    (if p then Core.markError e st else st).error ≠ none := by
  split_ifs
  · exact Option.some_ne_none e
  · exact h

/-- The send of the packet raises. -/
theorem Frontier.discard (h : l.Frontier cfg m) (seq : ℕ) (e : Err) :
    (l.discard seq e).Frontier cfg m := by
  refine h.shrink rfl rfl ?_ (fun _ hq => hq) (fun _ hraw => Or.inl hraw) ?_
    (fun _ _ hq => Or.inl hq) (fun _ hq => failed_markError hq) id
    (Or.inl ⟨rfl, rfl⟩)
  · exact fun q hq => (Dict.mem_keys_erase.mp hq).1
  · intro q hq
    by_cases hseq : q = seq
    · right
      simp [Failed, Lane.discard, hseq, error_markError]
    · exact Or.inl (Dict.mem_keys_erase.mpr ⟨hq, hseq⟩)

/-- Packets sent again are below the frontier. -/
theorem Frontier.resend (h : l.Frontier cfg m) (hwf : l.WellFormed)
    {packets : List Bytes}
    (hpackets : ∀ raw ∈ packets, ∃ q, l.outstanding.get? q = some raw) :
    (l.resend packets).Frontier cfg m := by
  refine ⟨h.le_nextSeq, h.base_le, h.le_window, h.outstanding, h.waiting, ?_,
    h.entered, h.ahead, h.fresh⟩
  intro raw hraw q payload hdata
  rcases List.mem_append.mp hraw with hnew | hold
  · obtain ⟨q', hget⟩ := hpackets raw hnew
    obtain ⟨payload', -, hdata'⟩ := hwf.labelled.outstanding q' raw hget
    rw [(hdata.unique hdata').1]
    exact (h.outstanding q' (Dict.mem_keys.mpr ⟨raw, hget⟩)).2
  · exact h.sent raw hold q payload hdata

/-- Giving the peer up marks everything that it drops. -/
theorem Frontier.failPeer (h : l.Frontier cfg m) (hl : l.Labelled) (e : Err) :
    (l.failPeer e).Frontier cfg m := by
  have hmarked : ∀ q, q ∈ l.sentItems.keys ∨ q ∈ l.pending.keys →
      (l.failPeer e).Failed q := by
    intro q hq
    simp [Failed, Lane.failPeer, hq, error_markError]
  refine h.shrink rfl rfl ?_ ?_ (fun _ hraw => Or.inl hraw) ?_ ?_
    (fun _ hq => failed_markError hq) id (Or.inl ⟨rfl, rfl⟩)
  · intro q hq
    simp [Lane.failPeer] at hq
  · intro q hq
    exact List.mem_append_right _ (by simpa [Lane.waiting, Lane.failPeer] using hq)
  · exact fun q hq => Or.inr (hmarked q (Or.inl ((hl.keys q).mpr hq)))
  · intro _ q hq
    rcases List.mem_append.mp hq with hpending | hqueued
    · exact Or.inr (hmarked q (Or.inr hpending))
    · exact Or.inl (List.mem_append_right _ hqueued)

theorem Frontier.close (h : l.Frontier cfg m) : l.close.Frontier cfg m := by
  by_cases hstopped : l.stopped
  · rwa [Lane.close, if_pos hstopped]
  · have hclose : l.close = _ := if_neg hstopped
    rw [hclose]
    refine h.shrink rfl rfl (fun _ hq => hq) ?_ (fun _ hraw => Or.inl hraw)
      (fun _ hq => Or.inl hq) ?_ (fun _ hq => failed_markError hq) id
      (Or.inr ⟨rfl, rfl⟩)
    · intro q hq
      exact List.mem_append_left _ (by simpa [Lane.waiting] using hq)
    · intro _ q hq
      rcases List.mem_append.mp hq with hpending | hqueued
      · exact Or.inl (List.mem_append_left _ hpending)
      · obtain ⟨item, hitem, hseq⟩ := List.mem_map.mp hqueued
        right
        have hmark : q ∈ l.sentItems.keys ∨ q ∈ l.pending.keys ∨
            ∃ item ∈ l.queued, item.seq = q :=
          Or.inr (Or.inr ⟨item, hitem, hseq⟩)
        simp only [Failed, if_pos hmark, error_markError]
        exact Option.some_ne_none _

/-- Every event other than those of the window pump keeps the frontier, if a
sliding acknowledgement does. -/
theorem Frontier.step (h : l.Frontier cfg m) (hwf : l.WellFormed)
    (hstep : Step cfg D fails l e l') (hpump : ∀ input, e ≠ .pump l.peer input)
    (hslide : ∀ raw input n seqs base, e = .incoming raw l.peer input →
      IsAck raw n → D.slide l n = some (seqs, base) →
        ((l.complete seqs).slideTo base).Frontier cfg m) :
    l'.Frontier cfg m := by
  have hwire : ∀ raw ∈ l.wire, raw ∈ l.wire ∨ ∃ n, IsAck raw n :=
    fun _ hraw => Or.inl hraw
  rcases hstep with _ | _ | ⟨-, hopen⟩ | hqueue | hqueue | _ | _ | _ |
    hpackets | ⟨hpackets, -⟩ | ⟨hraw, hsome⟩ | ⟨-, hpacket, -⟩ | _ | _ | _
  · exact h
  · exact h.crash
  · exact h.accept hopen _
  · exact (h.register hwf hqueue).congr rfl rfl rfl rfl
      (fun _ hraw => Or.inl hraw) rfl id rfl rfl
  · exact (h.register hwf hqueue).crash
  · exact absurd rfl (hpump _)
  · exact absurd rfl (hpump _)
  · exact absurd rfl (hpump _)
  · exact h.resend hwf hpackets
  · exact (h.resend hwf hpackets).failPeer (hwf.labelled.resend hpackets) _
  · exact hslide _ _ _ _ _ rfl hraw hsome
  · refine h.congr rfl rfl rfl rfl ?_ rfl id rfl rfl
    intro raw hraw
    rcases List.mem_cons.mp hraw with rfl | hold
    · exact Or.inr ⟨_, Core.isAck_of_ackPacket hpacket⟩
    · exact Or.inl hold
  · exact h.congr rfl rfl rfl rfl hwire rfl id rfl rfl
  · exact h.congr rfl rfl rfl rfl hwire rfl (fun hrun => by cases hrun) rfl rfl
  · exact h.close

end Lane

end UdpArq
